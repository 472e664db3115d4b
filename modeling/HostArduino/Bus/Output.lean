import HostArduino.Bus.Ledc
import HostArduino.Lib.EventMachine

namespace HostArduino.bus

/-- An unattached pin is attached first, with the global defaults. -/
def analogWrite (b : Bus) (pin : Pin) (value : Int32) : Bus :=
  if (ledcSlot b.tables pin).isSome then (writeDuty b pin value.toUInt32).2
  else
    let (attached, b') := ledcAttach b pin b.tables.write_hz b.tables.write_bits
    if !attached then b' else (writeDuty b' pin value.toUInt32).2

/-- An attached pin is retuned with the global resolution, not its own. -/
def analogWriteFrequencyPin (b : Bus) (pin : Pin) (freq : UInt32) : Bus :=
  if (ledcSlot b.tables pin).isSome then
    let (changed, b') := ledcChangeFrequency b pin freq b.tables.write_bits
    if changed = 0 then b' else { b' with tables := { b'.tables with write_hz := freq } }
  else { b with tables := { b.tables with write_hz := freq } }

def analogWriteFrequency (b : Bus) (freq : UInt32) : Bus :=
  { b with tables := { b.tables with write_hz := freq } }

/-- Likewise retuned with the global frequency rather than the pin's. -/
def analogWriteResolutionPin (b : Bus) (pin : Pin) (bits : UInt8) : Bus :=
  if (ledcSlot b.tables pin).isSome then
    let (changed, b') := ledcChangeFrequency b pin b.tables.write_hz bits
    if changed = 0 then b' else { b' with tables := { b'.tables with write_bits := bits } }
  else { b with tables := { b.tables with write_bits := bits } }

def analogWriteResolution (b : Bus) (bits : UInt8) : Bus :=
  { b with tables := { b.tables with write_bits := bits } }

def dacWrite (b : Bus) (pin : Pin) (value : UInt8) : Bool × Bus :=
  (true, b.commit pin .kAnalogDac
    { b.tables.out pin with
      channel := kNoLedcChannel, frequency := 0, resolution := 8, duty := value.toUInt32,
      attached := true, dac := true })

def dacDisable (b : Bus) (pin : Pin) : Bool × Bus :=
  if !(b.tables.out pin).dac then (false, b)
  else (true, b.commit pin .kAnalogDetach { b.tables.out pin with attached := false, dac := false, duty := 0 })

/-- The part of `tone` after an LEDC channel is behind the pin. -/
def playTone (b : Bus) (pin : Pin) (frequency : UInt32) (duration : UInt64) : Bus :=
  let b' := (ledcWriteTone b pin frequency).2
  if duration ≠ 0 then (ledcWriteTone b' pin 0).2 else b'

def tone (b : Bus) (pin : Pin) (frequency : UInt32) (duration : UInt64) : Bus :=
  match b.tables.tone_pin with
  | some playing => if playing ≠ pin then b else playTone b pin frequency duration
  | none =>
    let (attached, b') := ledcAttach b pin frequency 10
    if !attached then b'
    else playTone { b' with tables := { b'.tables with tone_pin := some pin } } pin frequency duration

def noTone (b : Bus) (pin : Pin) : Bus :=
  if b.tables.tone_pin ≠ some pin then b
  else
    let b' := (ledcWriteTone b pin 0).2
    let b'' := (ledcDetach b' pin).2
    { b'' with tables := { b''.tables with tone_pin := none } }

def resetAnalogState (b : Bus) : Bus :=
  { b with tables := .reset }

/-- The sketch-facing analog output calls and `resetAnalogState`. -/
inductive Call where
  | ledcAttach (pin : Pin) (freq : UInt32) (resolution : UInt8)
  | ledcAttachChannel (pin : Pin) (freq : UInt32) (resolution channel : UInt8)
  | ledcWrite (pin : Pin) (duty : UInt32)
  | ledcWriteChannel (channel : UInt8) (duty : UInt32)
  | ledcWriteTone (pin : Pin) (freq : UInt32)
  | ledcWriteNote (pin : Pin) (note : note_t) (octave : UInt8)
  | ledcDetach (pin : Pin)
  | ledcChangeFrequency (pin : Pin) (freq : UInt32) (resolution : UInt8)
  | ledcOutputInvert (pin : Pin) (out_invert : Bool)
  | ledcFade (pin : Pin) (start_duty target_duty : UInt32) (max_fade_time_ms : Int32)
  | ledcFadeWithInterrupt (pin : Pin) (start_duty target_duty : UInt32) (max_fade_time_ms : Int32)
      (userFunc : Option Nat)
  | ledcFadeWithInterruptArg (pin : Pin) (start_duty target_duty : UInt32) (max_fade_time_ms : Int32)
      (userFunc : Option Nat)
  | ledcFadeGamma (pin : Pin) (start_duty target_duty : UInt32) (max_fade_time_ms : Int32)
  | ledcFadeGammaWithInterrupt (pin : Pin) (start_duty target_duty : UInt32) (max_fade_time_ms : Int32)
      (userFunc : Option Nat)
  | ledcFadeGammaWithInterruptArg (pin : Pin) (start_duty target_duty : UInt32) (max_fade_time_ms : Int32)
      (userFunc : Option Nat)
  | analogWrite (pin : Pin) (value : Int32)
  | analogWriteFrequencyPin (pin : Pin) (freq : UInt32)
  | analogWriteFrequency (freq : UInt32)
  | analogWriteResolutionPin (pin : Pin) (bits : UInt8)
  | analogWriteResolution (bits : UInt8)
  | dacWrite (pin : Pin) (value : UInt8)
  | dacDisable (pin : Pin)
  | tone (pin : Pin) (frequency : UInt32) (duration : UInt64)
  | noTone (pin : Pin)
  | resetAnalogState
  deriving DecidableEq, Repr

def Bus.apply (b : Bus) : Call → Bus
  | .ledcAttach pin freq resolution => (bus.ledcAttach b pin freq resolution).2
  | .ledcAttachChannel pin freq resolution channel => (bus.ledcAttachChannel b pin freq resolution channel).2
  | .ledcWrite pin duty => (bus.ledcWrite b pin duty).2
  | .ledcWriteChannel channel duty => (bus.ledcWriteChannel b channel duty).2
  | .ledcWriteTone pin freq => (bus.ledcWriteTone b pin freq).2
  | .ledcWriteNote pin note octave => (bus.ledcWriteNote b pin note octave).2
  | .ledcDetach pin => (bus.ledcDetach b pin).2
  | .ledcChangeFrequency pin freq resolution => (bus.ledcChangeFrequency b pin freq resolution).2
  | .ledcOutputInvert pin out_invert => (bus.ledcOutputInvert b pin out_invert).2
  | .ledcFade pin start target ms => (bus.ledcFade b pin start target ms).2
  | .ledcFadeWithInterrupt pin start target ms fn => (bus.ledcFadeWithInterrupt b pin start target ms fn).2
  | .ledcFadeWithInterruptArg pin start target ms fn =>
    (bus.ledcFadeWithInterruptArg b pin start target ms fn).2
  | .ledcFadeGamma pin start target ms => (bus.ledcFadeGamma b pin start target ms).2
  | .ledcFadeGammaWithInterrupt pin start target ms fn =>
    (bus.ledcFadeGammaWithInterrupt b pin start target ms fn).2
  | .ledcFadeGammaWithInterruptArg pin start target ms fn =>
    (bus.ledcFadeGammaWithInterruptArg b pin start target ms fn).2
  | .analogWrite pin value => bus.analogWrite b pin value
  | .analogWriteFrequencyPin pin freq => bus.analogWriteFrequencyPin b pin freq
  | .analogWriteFrequency freq => bus.analogWriteFrequency b freq
  | .analogWriteResolutionPin pin bits => bus.analogWriteResolutionPin b pin bits
  | .analogWriteResolution bits => bus.analogWriteResolution b bits
  | .dacWrite pin value => (bus.dacWrite b pin value).2
  | .dacDisable pin => (bus.dacDisable b pin).2
  | .tone pin frequency duration => bus.tone b pin frequency duration
  | .noTone pin => bus.noTone b pin
  | .resetAnalogState => bus.resetAnalogState b

/-- The analog half as a machine: any call may come next. -/
def machine : Lib.EventMachine Bus Call :=
  .total Bus.apply

def Bus.run (b : Bus) (calls : List Call) : Bus :=
  calls.foldl Bus.apply b

theorem machine_run (b : Bus) (calls : List Call) : machine.run b calls = some (b.run calls) :=
  Lib.EventMachine.total_run _ _ _

end HostArduino.bus
