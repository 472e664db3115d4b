import HostArduino.Bus.Defaults

namespace HostArduino.bus

/-- A running tone has an LEDC pin behind it. -/
def AnalogTables.ToneBacked (t : AnalogTables) : Prop :=
  ∀ pin, t.tone_pin = some pin → t.OnLedc pin

/-- A slot with a tone on it: a square wave at 10 bits. -/
def AnalogOut.playing (slot : AnalogOut) (frequency : UInt32) : AnalogOut :=
  { slot with frequency, resolution := 10, duty := 0x1FF }

/-- A further tone on the pin that is playing is reported first thing. -/
def Bus.ReportsTones (b : Bus) : Prop :=
  ∀ pin frequency duration, b.tables.tone_pin = some pin → frequency ≠ 0 → b.analog_write_hook = true →
    ∃ rest, (tone b pin frequency duration).log = b.log ++
      .report .kAnalogTone ((b.tables.out pin).playing frequency) :: rest

/-- A call leaves the pin that `tone` plays on attached: it neither detaches it by
    hand nor hands it to the DAC. -/
def Bus.KeepsTonePin (b : Bus) : Call → Prop
  | .ledcDetach pin | .dacWrite pin _ => b.tables.tone_pin ≠ some pin
  | _ => True

theorem Bus.apply_toneBacked {b : Bus} (hbacked : b.tables.ToneBacked) {call : Call}
    (hreset : call ≠ .resetAnalogState) (htone : (b.apply call).tables.tone_pin = b.tables.tone_pin)
    (hmoves : ∀ m ∈ call.moves, m.2 ≠ .kAnalogDetach ∧ m.2 ≠ .kAnalogDac) :
    (b.apply call).tables.ToneBacked := by
  intro pin hpin
  exact (b.apply_acts call hreset).keeps_onLedc hmoves (hbacked pin (htone ▸ hpin))

theorem tone_toneBacked {b : Bus} (hbacked : b.tables.ToneBacked) (pin : Pin) (frequency : UInt32)
    (duration : UInt64) : (tone b pin frequency duration).tables.ToneBacked := by
  have hplay : ∀ c : Bus, c.tables.ToneBacked → (playTone c pin frequency duration).tables.ToneBacked := by
    intro c hc q hq
    have hacts := playTone_acts c pin frequency duration
    rw [hacts.globals.2.2] at hq
    exact hacts.keeps_onLedc (by simp) (hc q hq)
  unfold tone
  split
  · split
    · exact hbacked
    · exact hplay b hbacked
  · simp only
    rename_i hsilent
    split
    · rename_i hrefused
      intro q hq
      rw [(ledcAttach_acts b pin frequency 10).globals.2.2, hsilent] at hq
      cases hq
    · rename_i hattached
      rw [Bool.not_eq_true', Bool.not_eq_false] at hattached
      obtain ⟨channel, hleast, hafter⟩ := ledcAttach_success hattached
      refine hplay _ fun q hq => ?_
      obtain rfl : pin = q := Option.some.inj hq
      rw [hafter]
      exact onLedc_commit_self.mpr ⟨rfl, rfl⟩

theorem noTone_toneBacked {b : Bus} (hbacked : b.tables.ToneBacked) (pin : Pin) :
    (noTone b pin).tables.ToneBacked := by
  unfold noTone
  split
  · exact hbacked
  · exact fun q hq => nomatch hq

/-- A pin taken off LEDC while `tone` plays on it is the one way to lose it. -/
theorem toneBacked_commit_iff {b : Bus} (hbacked : b.tables.ToneBacked) {pin : Pin}
    {event : AnalogWriteEvent} {slot : AnalogOut} (hslot : ¬(slot.attached = true ∧ slot.dac = false)) :
    (b.commit pin event slot).tables.ToneBacked ↔ b.tables.tone_pin ≠ some pin := by
  have htone : (b.commit pin event slot).tables.tone_pin = b.tables.tone_pin := by
    rw [commit_eq]
  unfold AnalogTables.ToneBacked
  rw [htone]
  constructor
  · intro h hpin
    exact hslot (onLedc_commit_self.mp (h pin hpin))
  · intro hpin q hq
    have hother : q ≠ pin := by
      rintro rfl
      exact hpin hq
    exact (onLedc_commit_of_ne hother event slot).mpr (hbacked q hq)

theorem ledcDetach_toneBacked_iff {b : Bus} (hbacked : b.tables.ToneBacked) (pin : Pin) :
    (ledcDetach b pin).2.tables.ToneBacked ↔ b.tables.tone_pin ≠ some pin := by
  unfold ledcDetach
  by_cases hpin : b.tables.OnLedc pin
  · rw [ledcSlot_of_onLedc hpin]
    exact toneBacked_commit_iff hbacked (by simp)
  · rw [ledcSlot_eq_none.mpr hpin]
    exact iff_of_true hbacked fun htone => hpin (hbacked pin htone)

/-- The pin a tone plays on is not a DAC pin, so a `dacDisable` that does
    something does it to another pin. -/
theorem dacDisable_toneBacked {b : Bus} (hbacked : b.tables.ToneBacked) (pin : Pin) :
    (dacDisable b pin).2.tables.ToneBacked := by
  unfold dacDisable
  split
  · exact hbacked
  · rename_i hdac
    refine (toneBacked_commit_iff hbacked (by simp)).mpr fun htone => ?_
    exact absurd (hbacked pin htone).2 (by simpa using hdac)

/-- One call keeps a running tone backed exactly when it leaves its pin attached. -/
theorem Bus.apply_toneBacked_iff {b : Bus} (hbacked : b.tables.ToneBacked) (call : Call) :
    (b.apply call).tables.ToneBacked ↔ b.KeepsTonePin call := by
  have hsilent : call.sets = false → call ≠ .resetAnalogState →
      (∀ m ∈ call.moves, m.2 ≠ .kAnalogDetach ∧ m.2 ≠ .kAnalogDac) → (b.apply call).tables.ToneBacked := by
    intro hsets hreset hmoves
    exact apply_toneBacked hbacked hreset (b.apply_globals hsets hreset).2.2 hmoves
  cases call with
  | ledcDetach pin => exact ledcDetach_toneBacked_iff hbacked pin
  | dacWrite pin value => exact toneBacked_commit_iff hbacked (by simp)
  | dacDisable pin => exact iff_of_true (dacDisable_toneBacked hbacked pin) trivial
  | tone pin frequency duration => exact iff_of_true (tone_toneBacked hbacked pin frequency duration) trivial
  | noTone pin => exact iff_of_true (noTone_toneBacked hbacked pin) trivial
  | resetAnalogState => exact iff_of_true (fun pin hpin => nomatch hpin) trivial
  | analogWriteFrequencyPin pin freq =>
    have htone := (analogWriteFrequencyPin_globals b pin freq).2.2
    exact iff_of_true (apply_toneBacked hbacked (by simp) htone (by simp [Call.moves])) trivial
  | analogWriteResolutionPin pin bits =>
    have htone := (analogWriteResolutionPin_globals b pin bits).2.2
    exact iff_of_true (apply_toneBacked hbacked (by simp) htone (by simp [Call.moves])) trivial
  | analogWriteFrequency | analogWriteResolution => exact iff_of_true hbacked trivial
  | ledcAttach | ledcAttachChannel | ledcWrite | ledcWriteChannel | ledcWriteTone | ledcWriteNote
  | ledcChangeFrequency | ledcOutputInvert | ledcFade | ledcFadeWithInterrupt
  | ledcFadeWithInterruptArg | ledcFadeGamma | ledcFadeGammaWithInterrupt
  | ledcFadeGammaWithInterruptArg | analogWrite =>
    exact iff_of_true (hsilent rfl (by simp) (by simp [Call.moves])) trivial

theorem ledcWriteTone_of_onLedc {b : Bus} {pin : Pin} (hpin : b.tables.OnLedc pin) {freq : UInt32}
    (hfreq : freq ≠ 0) :
    (ledcWriteTone b pin freq).2 = b.commit pin .kAnalogTone ((b.tables.out pin).playing freq) := by
  unfold ledcWriteTone
  rw [ledcSlot_of_onLedc hpin]
  exact congrArg Prod.snd (if_neg hfreq)

theorem reportsTones_of_toneBacked {b : Bus} (hbacked : b.tables.ToneBacked) : b.ReportsTones := by
  intro pin frequency duration htone hfreq hhook
  have hpin := hbacked pin htone
  have hplay : tone b pin frequency duration = playTone b pin frequency duration := by
    simp [tone, htone]
  have hplaying : (b.commit pin .kAnalogTone ((b.tables.out pin).playing frequency)).tables.OnLedc pin :=
    onLedc_commit_self.mpr hpin
  rw [hplay, playTone]
  simp only [ledcWriteTone_zero, ledcWriteTone_of_onLedc hpin hfreq]
  split
  · rw [writeDuty_of_onLedc hplaying, commit_log _ (by simpa using hhook), commit_log b hhook,
      List.append_assoc]
    exact ⟨_, rfl⟩
  · exact ⟨[], commit_log b hhook _ _ _⟩

/-- In every state of a run a tone that is playing has an LEDC pin behind it, and a
    further tone there is reported, exactly when no call of the run detaches that
    pin with `ledcDetach` or takes it with `dacWrite`. -/
theorem run_toneBacked_iff (analog_write_hook : Bool) (calls : List Call) :
    (∀ b ∈ machine.visited (Bus.initial analog_write_hook) calls,
        b.tables.ToneBacked ∧ b.ReportsTones) ↔
      machine.Meets Bus.KeepsTonePin (Bus.initial analog_write_hook) calls := by
  simp only [and_iff_left_of_imp reportsTones_of_toneBacked]
  refine machine.visited_iff_meets (P := fun b => b.tables.ToneBacked) ?_ ?_ (fun pin hpin => nomatch hpin)
  · intro b call b' hbacked happly
    obtain rfl : b.apply call = b' := Option.some.inj happly
    exact Bus.apply_toneBacked_iff hbacked call
  · exact fun b call _ => ⟨b.apply call, rfl⟩

/-- A tone whose pin is detached by hand: `tone` still holds it to be playing. -/
theorem run_not_toneBacked :
    ¬ ∀ b ∈ machine.visited (Bus.initial true) [.tone 4 440 0, .ledcDetach 4],
      b.tables.ToneBacked ∧ b.ReportsTones := by
  intro h
  have hend := h ((Bus.initial true).run [.tone 4 440 0, .ledcDetach 4])
    (Lib.EventMachine.mem_visited_iff.mpr ⟨_, List.prefix_refl _, machine_run _ _⟩)
  have hbacked := hend.1 4 (by decide +kernel)
  exact absurd hbacked (by decide +kernel)

end HostArduino.bus
