import Mathlib.Data.List.FinRange
import Mathlib.Logic.Function.Basic

namespace HostArduino.bus

/-- Pins 0..255 are tracked, which is every value of the `uint8_t pin` that the
    sketch-facing calls take. -/
abbrev kGpioPinCount : Nat := 256

abbrev Pin := Fin kGpioPinCount

/-- LEDC channels tracked, using the classic ESP32 count. -/
def kLedcChannelCount : Nat := 16

/-- Widest duty resolution accepted. -/
def kLedcMaxResolution : UInt8 := 20

/-- `AnalogOut::channel` when no LEDC channel is involved. -/
def kNoLedcChannel : UInt8 := 0xFF

inductive AnalogWriteEvent where
  | kAnalogAttach
  | kAnalogWrite
  | kAnalogConfig
  | kAnalogTone
  | kAnalogDetach
  | kAnalogDac
  deriving DecidableEq, Repr

/-- Everything the core knows about one pin's analog output. -/
structure AnalogOut where
  pin : Pin := 0
  channel : UInt8 := kNoLedcChannel
  duty : UInt32 := 0
  frequency : UInt32 := 0
  resolution : UInt8 := 0
  attached : Bool := false
  inverted : Bool := false
  dac : Bool := false
  deriving DecidableEq, Repr

/-- The per-pin slots, the injected readings and the global defaults. `tone_pin`
    is `none` for the source's -1. -/
structure AnalogTables where
  out : Pin → AnalogOut
  value : Pin → UInt16
  millivolts : Pin → UInt32
  read_bits : UInt8
  write_bits : UInt8
  write_hz : UInt32
  tone_pin : Option Pin

def AnalogTables.reset : AnalogTables where
  out pin := { pin }
  value _ := 0
  millivolts _ := 0
  read_bits := 12
  write_bits := 8
  write_hz := 1000
  tone_pin := none

/-- What a call shows to code outside the core: an event handed to the analog
    write hook, or a fade's completion callback being run. -/
inductive Effect where
  | report (event : AnalogWriteEvent) (out : AnalogOut)
  | userFunc (fn : Nat)
  deriving DecidableEq, Repr

/-- The analog half of the bus. The hook, when one is installed, only records:
    `log` is what it and the fade callbacks have seen so far. -/
structure Bus where
  tables : AnalogTables
  analog_write_hook : Bool
  log : List Effect

def Bus.initial (analog_write_hook : Bool) : Bus where
  tables := .reset
  analog_write_hook
  log := []

/-- The recorded events, in order, without the callbacks. -/
def Bus.trace (b : Bus) : List (AnalogWriteEvent × AnalogOut) :=
  b.log.filterMap fun
    | .report event out => some (event, out)
    | .userFunc _ => none

def report (b : Bus) (event : AnalogWriteEvent) (out : AnalogOut) : Bus :=
  if b.analog_write_hook then { b with log := b.log ++ [.report event out] } else b

/-- A pin's slot after a mutation, and the report that follows it. -/
def Bus.commit (b : Bus) (pin : Pin) (event : AnalogWriteEvent) (slot : AnalogOut) : Bus :=
  report { b with tables := { b.tables with out := Function.update b.tables.out pin slot } } event slot

def analogOut (b : Bus) (pin : Int) : AnalogOut :=
  if h : 0 ≤ pin ∧ pin.toNat < kGpioPinCount then b.tables.out ⟨pin.toNat, h.2⟩ else {}

/-- The pin's LEDC slot, or `none` when the pin is not attached to LEDC, a DAC
    pin included. -/
def ledcSlot (t : AnalogTables) (pin : Pin) : Option AnalogOut :=
  if (t.out pin).attached && !(t.out pin).dac then some (t.out pin) else none

/-- The lowest pin that holds a channel, or `none` when the channel is free. -/
def channelOwner (t : AnalogTables) (channel : Nat) : Option Pin :=
  if channel ≥ kLedcChannelCount then none
  else (List.finRange kGpioPinCount).find? fun pin =>
    (ledcSlot t pin).any fun slot => slot.channel.toNat == channel

/-- A negative channel is past the count as well, compared as an `unsigned`. -/
def ledcChannelPin (t : AnalogTables) (channel : Int) : Option Pin :=
  if channel < 0 then none else channelOwner t channel.toNat

/-- LEDC "full on" fixup: a duty at or above the maximum is bumped one past it. -/
def clampDuty (duty : UInt32) (resolution : UInt8) : UInt32 :=
  let max_duty := ((1 <<< resolution.toUInt64) - 1 : UInt64).toUInt32
  if duty ≥ max_duty ∧ max_duty ≠ 1 then max_duty + 1 else duty

/-- Lowest free channel. -/
def firstFreeChannel (t : AnalogTables) : Option Nat :=
  (List.range kLedcChannelCount).find? fun i => (channelOwner t i).isNone

theorem commit_eq (b : Bus) (pin : Pin) (event : AnalogWriteEvent) (slot : AnalogOut) :
    b.commit pin event slot =
      { tables := { b.tables with out := Function.update b.tables.out pin slot }
        analog_write_hook := b.analog_write_hook
        log := b.log ++ if b.analog_write_hook then [.report event slot] else [] } := by
  cases hhook : b.analog_write_hook <;> simp [Bus.commit, report, hhook]

@[simp] theorem commit_out (b : Bus) (pin : Pin) (event : AnalogWriteEvent) (slot : AnalogOut) :
    (b.commit pin event slot).tables.out = Function.update b.tables.out pin slot := by
  unfold Bus.commit report
  split <;> rfl

@[simp] theorem commit_hook (b : Bus) (pin : Pin) (event : AnalogWriteEvent) (slot : AnalogOut) :
    (b.commit pin event slot).analog_write_hook = b.analog_write_hook := by
  unfold Bus.commit report
  split <;> rfl

/-- With a hook installed a committed slot is the payload of the newest event. -/
theorem commit_log (b : Bus) (hhook : b.analog_write_hook = true) (pin : Pin)
    (event : AnalogWriteEvent) (slot : AnalogOut) :
    (b.commit pin event slot).log = b.log ++ [.report event slot] := by
  simp [Bus.commit, report, hhook]

theorem ledcSlot_eq_some {t : AnalogTables} {pin : Pin} {slot : AnalogOut} :
    ledcSlot t pin = some slot ↔
      slot = t.out pin ∧ (t.out pin).attached = true ∧ (t.out pin).dac = false := by
  unfold ledcSlot
  split
  · rename_i h
    simp only [Bool.and_eq_true, Bool.not_eq_true'] at h
    simp [h, eq_comm]
  · rename_i h
    simp only [Bool.and_eq_true, Bool.not_eq_true'] at h
    simp only [reduceCtorEq, false_iff, not_and]
    exact fun _ hattached hdac => h ⟨hattached, hdac⟩

/-- A channel's owner is a pin attached to LEDC on that channel. -/
theorem channelOwner_some {t : AnalogTables} {channel : Nat} {pin : Pin}
    (h : channelOwner t channel = some pin) :
    (t.out pin).attached = true ∧ (t.out pin).dac = false ∧ (t.out pin).channel.toNat = channel := by
  unfold channelOwner at h
  split at h
  · cases h
  · have hpin := List.find?_some h
    simp only [Option.any_eq_true, beq_iff_eq] at hpin
    obtain ⟨slot, hslot, hchannel⟩ := hpin
    obtain ⟨rfl, hattached, hdac⟩ := ledcSlot_eq_some.mp hslot
    exact ⟨hattached, hdac, hchannel⟩

/-- A free channel below the count has no pin attached to LEDC on it. -/
theorem channelOwner_none {t : AnalogTables} {channel : Nat} (hlt : channel < kLedcChannelCount)
    (h : channelOwner t channel = none) {pin : Pin} (hattached : (t.out pin).attached = true)
    (hdac : (t.out pin).dac = false) : (t.out pin).channel.toNat ≠ channel := by
  unfold channelOwner at h
  rw [if_neg (by omega)] at h
  have hpin := List.find?_eq_none.mp h pin (List.mem_finRange pin)
  have hslot : ledcSlot t pin = some (t.out pin) := ledcSlot_eq_some.mpr ⟨rfl, hattached, hdac⟩
  simpa [hslot] using hpin

theorem firstFreeChannel_some {t : AnalogTables} {channel : Nat}
    (h : firstFreeChannel t = some channel) :
    channel < kLedcChannelCount ∧ channelOwner t channel = none := by
  have hmem := List.mem_of_find?_eq_some h
  have hfree := List.find?_some h
  exact ⟨List.mem_range.mp hmem, by simpa using hfree⟩

end HostArduino.bus
