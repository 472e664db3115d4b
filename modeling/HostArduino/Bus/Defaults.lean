import HostArduino.Bus.WriteChannel

namespace HostArduino.bus

/-- What `analogWrite` attaches a new pin with is accepted by an attach. -/
def AnalogTables.DefaultsUsable (t : AnalogTables) : Prop :=
  Usable t.write_hz t.write_bits

/-- `analogWrite` works on a pin off LEDC as long as a channel is free: the pin is
    attached, and a hook sees the attach and then the write. -/
def Bus.AnalogWriteWorks (b : Bus) : Prop :=
  ∀ pin value, ¬b.tables.OnLedc pin → (∃ channel, channel ∈ b.tables.freeChannels) →
    (analogWrite b pin value).tables.OnLedc pin ∧
    (b.analog_write_hook = true → ∃ channel : UInt8,
      (analogWrite b pin value).log = b.log ++
        [.report .kAnalogAttach
          ((b.tables.out pin).attachedTo channel b.tables.write_hz b.tables.write_bits),
        .report .kAnalogWrite
          (((b.tables.out pin).attachedTo channel b.tables.write_hz b.tables.write_bits).written
            value.toUInt32)])

/-- A call that stores a default stores a usable one. An attached pin's overloads
    have theirs checked by the retune. -/
def Bus.StoresUsable (b : Bus) : Call → Prop
  | .analogWriteFrequency freq => freq ≠ 0
  | .analogWriteFrequencyPin pin freq => b.tables.OnLedc pin ∨ freq ≠ 0
  | .analogWriteResolution bits => 1 ≤ bits ∧ bits ≤ kLedcMaxResolution
  | .analogWriteResolutionPin pin bits => b.tables.OnLedc pin ∨ 1 ≤ bits ∧ bits ≤ kLedcMaxResolution
  | _ => True

theorem reset_defaultsUsable : AnalogTables.reset.DefaultsUsable := by
  unfold AnalogTables.DefaultsUsable
  decide

theorem analogWriteWorks_of_defaultsUsable {b : Bus} (hdefaults : b.tables.DefaultsUsable) :
    b.AnalogWriteWorks := by
  intro pin value hpin hfree
  have hattached := (ledcAttach_eq_true_iff b pin b.tables.write_hz b.tables.write_bits).mpr
    ⟨hpin, hdefaults, hfree⟩
  obtain ⟨channel, hleast, hafter⟩ := ledcAttach_success hattached
  have honLedc : (ledcAttach b pin b.tables.write_hz b.tables.write_bits).2.tables.OnLedc pin := by
    rw [hafter]
    exact ((carries_attachedTo hleast.1.2 pin).mpr rfl).1
  have hwrite : analogWrite b pin value =
      (ledcAttach b pin b.tables.write_hz b.tables.write_bits).2.commit pin .kAnalogWrite
        (((b.tables.out pin).attachedTo channel b.tables.write_hz b.tables.write_bits).written
          value.toUInt32) := by
    unfold analogWrite
    rw [if_neg (mt ledcSlot_isSome.mp hpin)]
    simp only [hattached, Bool.not_true, Bool.false_eq_true, if_false, writeDuty_of_onLedc honLedc]
    rw [hafter, commit_out, Function.update_self]
  refine ⟨?_, fun hhook => ⟨channel, ?_⟩⟩
  · rw [hwrite, AnalogTables.OnLedc, commit_out, Function.update_self]
    exact ⟨rfl, rfl⟩
  · rw [hwrite, hafter, commit_log _ (by simpa using hhook), commit_log _ hhook, List.append_assoc]
    rfl

theorem ledcChangeFrequency_eq_zero_iff {b : Bus} {pin : Pin} (hpin : b.tables.OnLedc pin) (freq : UInt32)
    (resolution : UInt8) :
    (ledcChangeFrequency b pin freq resolution).1 = 0 ↔ ¬Usable freq resolution := by
  unfold ledcChangeFrequency
  rw [ledcSlot_of_onLedc hpin, usable_iff, not_not]
  by_cases hargs : freq = 0 ∨ resolution = 0 ∨ resolution > kLedcMaxResolution
  · exact iff_of_true (by simp only [if_pos hargs]) hargs
  · simp only [if_neg hargs]
    exact iff_of_false (fun h => hargs (.inl h)) hargs

theorem ledcChangeFrequency_globals (b : Bus) (pin : Pin) (freq : UInt32) (resolution : UInt8) :
    (ledcChangeFrequency b pin freq resolution).2.tables.write_bits = b.tables.write_bits ∧
      (ledcChangeFrequency b pin freq resolution).2.tables.write_hz = b.tables.write_hz ∧
      (ledcChangeFrequency b pin freq resolution).2.tables.tone_pin = b.tables.tone_pin :=
  (ledcChangeFrequency_acts b pin freq resolution).globals

/-- The pin overload of `analogWriteFrequency` moves the default unless the pin is
    attached and its retune is refused. -/
theorem analogWriteFrequencyPin_globals (b : Bus) (pin : Pin) (freq : UInt32) :
    (analogWriteFrequencyPin b pin freq).tables.write_bits = b.tables.write_bits ∧
      (analogWriteFrequencyPin b pin freq).tables.write_hz =
        (if b.tables.OnLedc pin ∧ ¬Usable freq b.tables.write_bits then b.tables.write_hz else freq) ∧
      (analogWriteFrequencyPin b pin freq).tables.tone_pin = b.tables.tone_pin := by
  have hglobals := ledcChangeFrequency_globals b pin freq b.tables.write_bits
  unfold analogWriteFrequencyPin
  by_cases hpin : b.tables.OnLedc pin
  · rw [if_pos (ledcSlot_isSome.mpr hpin)]
    simp only [ledcChangeFrequency_eq_zero_iff hpin, hpin, true_and]
    split
    · exact hglobals
    · exact ⟨hglobals.1, rfl, hglobals.2.2⟩
  · rw [if_neg (mt ledcSlot_isSome.mp hpin), if_neg fun h => hpin h.1]
    exact ⟨rfl, rfl, rfl⟩

/-- And likewise for the resolution. -/
theorem analogWriteResolutionPin_globals (b : Bus) (pin : Pin) (bits : UInt8) :
    (analogWriteResolutionPin b pin bits).tables.write_bits =
        (if b.tables.OnLedc pin ∧ ¬Usable b.tables.write_hz bits then b.tables.write_bits else bits) ∧
      (analogWriteResolutionPin b pin bits).tables.write_hz = b.tables.write_hz ∧
      (analogWriteResolutionPin b pin bits).tables.tone_pin = b.tables.tone_pin := by
  have hglobals := ledcChangeFrequency_globals b pin b.tables.write_hz bits
  unfold analogWriteResolutionPin
  by_cases hpin : b.tables.OnLedc pin
  · rw [if_pos (ledcSlot_isSome.mpr hpin)]
    simp only [ledcChangeFrequency_eq_zero_iff hpin, hpin, true_and]
    split
    · exact hglobals
    · exact ⟨rfl, hglobals.2⟩
  · rw [if_neg (mt ledcSlot_isSome.mp hpin), if_neg fun h => hpin h.1]
    exact ⟨rfl, rfl, rfl⟩

/-- A tone is attached with settings of its own and leaves the defaults alone. -/
theorem tone_defaults (b : Bus) (pin : Pin) (frequency : UInt32) (duration : UInt64) :
    (tone b pin frequency duration).tables.write_bits = b.tables.write_bits ∧
      (tone b pin frequency duration).tables.write_hz = b.tables.write_hz := by
  have hattach := (ledcAttach_acts b pin frequency 10).globals
  have hplay : ∀ c : Bus, (playTone c pin frequency duration).tables.write_bits = c.tables.write_bits ∧
      (playTone c pin frequency duration).tables.write_hz = c.tables.write_hz := by
    intro c
    have hglobals := (playTone_acts c pin frequency duration).globals
    exact ⟨hglobals.1, hglobals.2.1⟩
  unfold tone
  split
  · split
    · exact ⟨rfl, rfl⟩
    · exact hplay b
  · simp only
    split
    · exact ⟨hattach.1, hattach.2.1⟩
    · exact ⟨(hplay _).1.trans hattach.1, (hplay _).2.trans hattach.2.1⟩

theorem noTone_defaults (b : Bus) (pin : Pin) :
    (noTone b pin).tables.write_bits = b.tables.write_bits ∧
      (noTone b pin).tables.write_hz = b.tables.write_hz := by
  have hsilence := (ledcWriteTone_acts b pin 0).globals
  have hdetach := (ledcDetach_acts (ledcWriteTone b pin 0).2 pin).globals
  unfold noTone
  split
  · exact ⟨rfl, rfl⟩
  · exact ⟨hdetach.1.trans hsilence.1, hdetach.2.1.trans hsilence.2.1⟩

/-- One call keeps the defaults usable exactly when what it stores is. -/
theorem Bus.apply_defaultsUsable_iff {b : Bus} (hdefaults : b.tables.DefaultsUsable) (call : Call) :
    (b.apply call).tables.DefaultsUsable ↔ b.StoresUsable call := by
  obtain ⟨hhz, hbits⟩ := hdefaults
  have hkept : (b.apply call).tables.write_bits = b.tables.write_bits →
      (b.apply call).tables.write_hz = b.tables.write_hz → (b.apply call).tables.DefaultsUsable := by
    intro hbits_eq hhz_eq
    rw [AnalogTables.DefaultsUsable, hbits_eq, hhz_eq]
    exact ⟨hhz, hbits⟩
  have hsilent : call.sets = false → call ≠ .resetAnalogState →
      (b.apply call).tables.DefaultsUsable := by
    intro hsets hreset
    have hglobals := b.apply_globals hsets hreset
    exact hkept hglobals.1 hglobals.2.1
  cases call with
  | analogWriteFrequency freq => exact and_iff_left hbits
  | analogWriteFrequencyPin pin freq =>
    obtain ⟨hbits_eq, hhz_eq, -⟩ := analogWriteFrequencyPin_globals b pin freq
    simp only [apply, AnalogTables.DefaultsUsable, StoresUsable, hbits_eq, hhz_eq]
    by_cases hrefused : b.tables.OnLedc pin ∧ ¬Usable freq b.tables.write_bits
    · rw [if_pos hrefused]
      exact iff_of_true ⟨hhz, hbits⟩ (.inl hrefused.1)
    · rw [if_neg hrefused]
      rw [not_and, not_not] at hrefused
      exact ⟨fun h => .inr h.1, fun h => h.elim hrefused fun hfreq => ⟨hfreq, hbits⟩⟩
  | analogWriteResolution bits => exact and_iff_right hhz
  | analogWriteResolutionPin pin bits =>
    obtain ⟨hbits_eq, hhz_eq, -⟩ := analogWriteResolutionPin_globals b pin bits
    simp only [apply, AnalogTables.DefaultsUsable, StoresUsable, hbits_eq, hhz_eq]
    by_cases hrefused : b.tables.OnLedc pin ∧ ¬Usable b.tables.write_hz bits
    · rw [if_pos hrefused]
      exact iff_of_true ⟨hhz, hbits⟩ (.inl hrefused.1)
    · rw [if_neg hrefused]
      rw [not_and, not_not] at hrefused
      exact ⟨fun h => .inr h.2, fun h => h.elim hrefused fun hbits' => ⟨hhz, hbits'⟩⟩
  | tone pin frequency duration =>
    have h := tone_defaults b pin frequency duration
    exact iff_of_true (hkept h.1 h.2) trivial
  | noTone pin =>
    have h := noTone_defaults b pin
    exact iff_of_true (hkept h.1 h.2) trivial
  | resetAnalogState => exact iff_of_true reset_defaultsUsable trivial
  | ledcAttach | ledcAttachChannel | ledcWrite | ledcWriteChannel | ledcWriteTone | ledcWriteNote
  | ledcDetach | ledcChangeFrequency | ledcOutputInvert | ledcFade | ledcFadeWithInterrupt
  | ledcFadeWithInterruptArg | ledcFadeGamma | ledcFadeGammaWithInterrupt
  | ledcFadeGammaWithInterruptArg | analogWrite | dacWrite | dacDisable =>
    exact iff_of_true (hsilent rfl (by simp)) trivial

/-- In every state of a run the defaults are usable, and with them `analogWrite`
    works, exactly when every call of the run that stores a default stores a
    usable one. -/
theorem run_defaultsUsable_iff (analog_write_hook : Bool) (calls : List Call) :
    (∀ b ∈ machine.visited (Bus.initial analog_write_hook) calls,
        b.tables.DefaultsUsable ∧ b.AnalogWriteWorks) ↔
      machine.Meets Bus.StoresUsable (Bus.initial analog_write_hook) calls := by
  simp only [and_iff_left_of_imp analogWriteWorks_of_defaultsUsable]
  refine machine.visited_iff_meets (P := fun b => b.tables.DefaultsUsable) ?_ ?_ reset_defaultsUsable
  · intro b call b' hdefaults happly
    obtain rfl : b.apply call = b' := Option.some.inj happly
    exact Bus.apply_defaultsUsable_iff hdefaults call
  · exact fun b call _ => ⟨b.apply call, rfl⟩

/-- A frequency of 0 stored as the default: the next `analogWrite` cannot attach. -/
theorem run_not_defaultsUsable :
    ¬ ∀ b ∈ machine.visited (Bus.initial true) [.analogWriteFrequency 0],
      b.tables.DefaultsUsable ∧ b.AnalogWriteWorks := by
  intro h
  have hend := h ((Bus.initial true).run [.analogWriteFrequency 0])
    (Lib.EventMachine.mem_visited_iff.mpr ⟨_, List.prefix_refl _, machine_run _ _⟩)
  exact hend.1.1 rfl

end HostArduino.bus
