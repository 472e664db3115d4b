import HostArduino.Bus.Attach
import Mathlib.Algebra.Group.Nat.Defs

namespace HostArduino.bus

/-- The duty that a slot keeps: one below the maximum as it is, any other one a whole period;
    with a single bit every duty as it is. -/
def dutyAt (duty resolution : Nat) : Nat :=
  if duty < 2 ^ resolution - 1 ∨ resolution = 1 then duty else 2 ^ resolution

theorem toNat_max_duty {resolution : UInt8} (hmax : resolution ≤ kLedcMaxResolution) :
    ((1 <<< resolution.toUInt64) - 1 : UInt64).toUInt32.toNat = 2 ^ resolution.toNat - 1 := by
  have hbits : resolution.toNat ≤ 20 := UInt8.le_iff_toNat_le.mp hmax
  have hpow : 2 ^ resolution.toNat ≤ 2 ^ 20 := Nat.pow_le_pow_right (by decide) hbits
  have hshift : ((1 : UInt64) <<< resolution.toUInt64).toNat = 2 ^ resolution.toNat := by
    have hbits' : resolution.toNat % 64 = resolution.toNat := Nat.mod_eq_of_lt (by omega)
    rw [UInt64.toNat_shiftLeft, UInt8.toNat_toUInt64, hbits', UInt64.toNat_one, Nat.one_shiftLeft]
    exact Nat.mod_eq_of_lt (by omega)
  have hone : (1 : UInt64) ≤ 1 <<< resolution.toUInt64 := by
    rw [UInt64.le_iff_toNat_le, hshift]
    exact Nat.one_le_two_pow
  rw [UInt64.toNat_toUInt32, UInt64.toNat_sub_of_le _ _ hone, hshift, UInt64.toNat_one]
  exact Nat.mod_eq_of_lt (by omega)

theorem toNat_clampDuty (duty : UInt32) {resolution : UInt8} (hmax : resolution ≤ kLedcMaxResolution) :
    (clampDuty duty resolution).toNat = dutyAt duty.toNat resolution.toNat := by
  have hbits : resolution.toNat ≤ 20 := UInt8.le_iff_toNat_le.mp hmax
  have hpow : 2 ^ resolution.toNat ≤ 2 ^ 20 := Nat.pow_le_pow_right (by decide) hbits
  have hlimit := toNat_max_duty hmax
  have hbit : ((1 <<< resolution.toUInt64) - 1 : UInt64).toUInt32 = 1 ↔ resolution.toNat = 1 := by
    rw [← UInt32.toNat_inj, hlimit, UInt32.toNat_one]
    constructor
    · intro heq
      have htwo : 2 ^ resolution.toNat = 2 ^ 1 := by omega
      exact Nat.pow_right_injective (Nat.le_refl 2) htwo
    · intro heq
      simp [heq]
  unfold clampDuty dutyAt
  simp only [ge_iff_le, UInt32.le_iff_toNat_le, hlimit, ne_eq, hbit]
  by_cases hkept : duty.toNat < 2 ^ resolution.toNat - 1 ∨ resolution.toNat = 1
  · rw [if_pos hkept, if_neg (by omega)]
  · rw [if_neg hkept, if_pos (by omega), UInt32.toNat_add, hlimit, UInt32.toNat_one,
      Nat.sub_add_cancel Nat.one_le_two_pow]
    exact Nat.mod_eq_of_lt (by omega)

/-- A slot after a duty write: the duty is clamped at the slot's own resolution. -/
def AnalogOut.written (slot : AnalogOut) (duty : UInt32) : AnalogOut :=
  { slot with duty := clampDuty duty slot.resolution }

/-- The slots after a write to every pin of a channel. -/
def AnalogTables.channelWritten (t : AnalogTables) (channel : Int) (duty : UInt32) : AnalogTables :=
  { t with out := fun pin => if t.Carries channel pin then (t.out pin).written duty else t.out pin }

/-- The events of such a write, over the given pins. -/
def AnalogTables.channelEvents (t : AnalogTables) (channel : Int) (duty : UInt32) (pins : List Pin) :
    List Effect :=
  (pins.filter fun pin => t.Carries channel pin).map fun pin =>
    .report .kAnalogWrite ((t.out pin).written duty)

theorem writeDuty_of_onLedc {b : Bus} {pin : Pin} (h : b.tables.OnLedc pin) (duty : UInt32) :
    writeDuty b pin duty = (true, b.commit pin .kAnalogWrite ((b.tables.out pin).written duty)) := by
  rw [writeDuty, ledcSlot_of_onLedc h]
  rfl

theorem writeDuty_of_not_onLedc {b : Bus} {pin : Pin} (h : ¬b.tables.OnLedc pin) (duty : UInt32) :
    writeDuty b pin duty = (false, b) := by
  rw [writeDuty, ledcSlot_eq_none.mpr h]

theorem ledcWriteChannelStep_of_carries {channel : UInt8} {b : Bus} {pin : Pin}
    (h : b.tables.Carries channel.toNat pin) (duty : UInt32) (written : Bool) :
    ledcWriteChannelStep channel duty (written, b) pin =
      (true, b.commit pin .kAnalogWrite ((b.tables.out pin).written duty)) := by
  have hchannel : (b.tables.out pin).channel = channel := UInt8.toNat.inj (Int.ofNat_inj.mp h.2)
  simp [ledcWriteChannelStep, ledcSlot_of_onLedc h.1, hchannel, writeDuty_of_onLedc h.1]

theorem ledcWriteChannelStep_of_not_carries {channel : UInt8} {b : Bus} {pin : Pin}
    (h : ¬b.tables.Carries channel.toNat pin) (duty : UInt32) (written : Bool) :
    ledcWriteChannelStep channel duty (written, b) pin = (written, b) := by
  by_cases hledc : b.tables.OnLedc pin
  · have hchannel : (b.tables.out pin).channel ≠ channel := by
      rintro rfl
      exact h ⟨hledc, rfl⟩
    simp [ledcWriteChannelStep, ledcSlot_of_onLedc hledc, hchannel]
  · simp [ledcWriteChannelStep, ledcSlot_eq_none.mpr hledc]

/-- A duty write moves no pin on or off a channel. -/
theorem carries_commit_written (b : Bus) (pin : Pin) (duty : UInt32) (channel : Int) (q : Pin) :
    (b.commit pin .kAnalogWrite ((b.tables.out pin).written duty)).tables.Carries channel q ↔
      b.tables.Carries channel q := by
  unfold AnalogTables.Carries AnalogTables.OnLedc
  rw [commit_out]
  by_cases hq : q = pin
  · subst hq
    simp [AnalogOut.written]
  · rw [Function.update_of_ne hq]

/-- The loop over distinct pins finds whether the channel carries any of them. -/
theorem foldl_ledcWriteChannelStep_fst (channel : UInt8) (duty : UInt32) (pins : List Pin)
    (written : Bool) (b : Bus) :
    (pins.foldl (ledcWriteChannelStep channel duty) (written, b)).1 =
      (written || pins.any fun pin => b.tables.Carries channel.toNat pin) := by
  induction pins generalizing written b with
  | nil => simp
  | cons pin pins ih =>
    rw [List.foldl_cons, List.any_cons]
    by_cases hcarries : b.tables.Carries channel.toNat pin
    · rw [ledcWriteChannelStep_of_carries hcarries, ih]
      simp [hcarries]
    · rw [ledcWriteChannelStep_of_not_carries hcarries, ih]
      simp [hcarries]

/-- A duty write shows in no event of the other pins. -/
theorem channelEvents_commit_written (b : Bus) {pin : Pin} {pins : List Pin} (hpin : pin ∉ pins)
    (written : UInt32) (channel : Int) (duty : UInt32) :
    (b.commit pin .kAnalogWrite ((b.tables.out pin).written written)).tables.channelEvents channel duty pins =
      b.tables.channelEvents channel duty pins := by
  have hout : ∀ q ∈ pins, Function.update b.tables.out pin ((b.tables.out pin).written written) q =
      b.tables.out q := fun q hq => Function.update_of_ne (by rintro rfl; exact hpin hq) _ _
  unfold AnalogTables.channelEvents
  simp only [carries_commit_written, commit_out]
  refine List.map_congr_left fun q hq => ?_
  rw [hout q (List.mem_of_mem_filter hq)]

/-- The loop over distinct pins writes each pin of the channel among them once, and
    nothing else. -/
theorem foldl_ledcWriteChannelStep_snd {channel : UInt8} {duty : UInt32} {pins : List Pin}
    (hnodup : pins.Nodup) (written : Bool) (b : Bus) :
    (pins.foldl (ledcWriteChannelStep channel duty) (written, b)).2 =
      { tables := { b.tables with
          out := fun pin =>
            if pin ∈ pins ∧ b.tables.Carries channel.toNat pin then (b.tables.out pin).written duty
            else b.tables.out pin }
        analog_write_hook := b.analog_write_hook
        log := b.log ++
          if b.analog_write_hook then b.tables.channelEvents channel.toNat duty pins else [] } := by
  induction pins generalizing written b with
  | nil => simp [AnalogTables.channelEvents]
  | cons pin pins ih =>
    obtain ⟨hpin, hnodup⟩ := List.nodup_cons.mp hnodup
    rw [List.foldl_cons]
    by_cases hcarries : b.tables.Carries channel.toNat pin
    · rw [ledcWriteChannelStep_of_carries hcarries, ih hnodup]
      -- The rest of the loop sees the slots as they were: this pin is not met again.
      rw [channelEvents_commit_written b hpin]
      simp only [carries_commit_written]
      rw [commit_eq]
      congr 1
      · congr 1
        funext q
        by_cases hq : q = pin
        · subst hq
          simp [hpin, hcarries]
        · simp [hq]
      · cases b.analog_write_hook <;> simp [AnalogTables.channelEvents, hcarries]
    · rw [ledcWriteChannelStep_of_not_carries hcarries, ih hnodup]
      have hmem : ∀ q, (q ∈ pin :: pins ∧ b.tables.Carries channel.toNat q) ↔
          q ∈ pins ∧ b.tables.Carries channel.toNat q := by
        intro q
        rw [List.mem_cons]
        constructor
        · rintro ⟨rfl | hq, h⟩
          · exact absurd h hcarries
          · exact ⟨hq, h⟩
        · exact fun h => ⟨.inr h.1, h.2⟩
      simp only [hmem]
      simp [AnalogTables.channelEvents, hcarries]

/-- In every state that analog output calls lead to, `ledcWriteChannel` succeeds
    exactly when some pin is on the channel. It clamps the duty at each such pin's
    own resolution, reports one write for each in ascending order of the pins, and
    changes nothing else. -/
theorem run_ledcWriteChannel (analog_write_hook : Bool) (calls : List Call) (channel : UInt8)
    (duty : UInt32) :
    let b := (Bus.initial analog_write_hook).run calls
    ((ledcWriteChannel b channel duty).1 = true ↔ ∃ pin, b.tables.Carries channel.toNat pin) ∧
    (ledcWriteChannel b channel duty).2 =
      { tables := b.tables.channelWritten channel.toNat duty
        analog_write_hook := b.analog_write_hook
        log := b.log ++
          if b.analog_write_hook then
            b.tables.channelEvents channel.toNat duty (List.finRange kGpioPinCount)
          else [] } ∧
    ∀ pin, b.tables.Carries channel.toNat pin →
      ((b.tables.out pin).written duty).duty.toNat =
        dutyAt duty.toNat (b.tables.out pin).resolution.toNat := by
  intro b
  have hwf : b.tables.WellFormed := Bus.run_initial_wellFormed analog_write_hook calls
  refine and_assoc.mp ⟨?_, fun pin hcarries => toNat_clampDuty duty ?_⟩
  case refine_2 =>
    obtain ⟨⟨hattached, hdac⟩, -⟩ := hcarries
    exact ((hwf pin).ledc hattached hdac).2.2.2
  by_cases hcount : channel.toNat < kLedcChannelCount
  · have hloop : ledcWriteChannel b channel duty =
        (List.finRange kGpioPinCount).foldl (ledcWriteChannelStep channel duty) (false, b) :=
      if_neg (by omega)
    rw [hloop, foldl_ledcWriteChannelStep_fst,
      foldl_ledcWriteChannelStep_snd (List.nodup_finRange kGpioPinCount)]
    simp only [List.mem_finRange, true_and]
    exact ⟨by simp, rfl⟩
  · have hnone : ∀ pin, ¬b.tables.Carries channel.toNat pin := by
      intro pin hcarries
      have hlt := (hwf.channel_lt hcarries).2
      omega
    have hrefused : ledcWriteChannel b channel duty = (false, b) := if_pos (by omega)
    rw [hrefused]
    simp [AnalogTables.channelWritten, AnalogTables.channelEvents, hnone]

end HostArduino.bus
