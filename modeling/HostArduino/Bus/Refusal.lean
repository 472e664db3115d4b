import HostArduino.Bus.WriteChannel

namespace HostArduino.bus

theorem writeDuty_eq_true_iff (b : Bus) (pin : Pin) (duty : UInt32) :
    (writeDuty b pin duty).1 = true ↔ b.tables.OnLedc pin := by
  by_cases h : b.tables.OnLedc pin
  · simp [writeDuty_of_onLedc h, h]
  · simp [writeDuty_of_not_onLedc h, h]

theorem writeDuty_of_refused {b : Bus} {pin : Pin} {duty : UInt32}
    (hrefused : (writeDuty b pin duty).1 = false) : (writeDuty b pin duty).2 = b := by
  have hpin : ¬b.tables.OnLedc pin := by
    rw [← writeDuty_eq_true_iff b pin duty, hrefused]
    exact Bool.false_ne_true
  rw [writeDuty_of_not_onLedc hpin]

theorem attachChannel_of_refused {b : Bus} {pin : Pin} {freq : UInt32} {resolution channel : UInt8}
    (hrefused : (attachChannel b pin freq resolution channel).1 = false) :
    (attachChannel b pin freq resolution channel).2 = b := by
  unfold attachChannel at hrefused ⊢
  split
  · rfl
  · rename_i hchannel
    split
    · rfl
    · rename_i hargs
      split
      · rfl
      · rename_i hslot
        rw [if_neg hchannel, if_neg hargs, if_neg hslot] at hrefused
        cases hrefused

theorem ledcAttach_of_refused {b : Bus} {pin : Pin} {freq : UInt32} {resolution : UInt8}
    (hrefused : (ledcAttach b pin freq resolution).1 = false) :
    (ledcAttach b pin freq resolution).2 = b := by
  unfold ledcAttach at hrefused ⊢
  cases hchannel : firstFreeChannel b.tables with
  | none => rfl
  | some channel =>
    rw [hchannel] at hrefused
    exact attachChannel_of_refused hrefused

/-- No sharer refuses once the channel is found to carry one, so a refused
    `ledcWriteChannel` has written nothing. -/
theorem ledcWriteChannel_of_refused {b : Bus} {channel : UInt8} {duty : UInt32}
    (hrefused : (ledcWriteChannel b channel duty).1 = false) :
    (ledcWriteChannel b channel duty).2 = b := by
  unfold ledcWriteChannel at hrefused ⊢
  split
  · rfl
  · rename_i hcount
    rw [if_neg hcount, foldl_ledcWriteChannelStep_fst] at hrefused
    rw [foldl_ledcWriteChannelStep_snd (List.nodup_finRange kGpioPinCount)]
    have hnone : ∀ pin, ¬b.tables.Carries channel.toNat pin := by
      simpa using hrefused
    simp [AnalogTables.channelEvents, hnone]

theorem ledcWriteTone_of_not_onLedc {b : Bus} {pin : Pin} (h : ¬b.tables.OnLedc pin) (freq : UInt32) :
    ledcWriteTone b pin freq = (0, b) := by
  rw [ledcWriteTone, ledcSlot_eq_none.mpr h]

theorem ledcWriteNote_of_not_onLedc {b : Bus} {pin : Pin} (h : ¬b.tables.OnLedc pin) (note : note_t)
    (octave : UInt8) : ledcWriteNote b pin note octave = (0, b) := by
  unfold ledcWriteNote
  split
  · rfl
  · exact ledcWriteTone_of_not_onLedc h _

theorem ledcDetach_of_refused {b : Bus} {pin : Pin} (hrefused : (ledcDetach b pin).1 = false) :
    (ledcDetach b pin).2 = b := by
  unfold ledcDetach at hrefused ⊢
  cases hslot : ledcSlot b.tables pin with
  | none => rfl
  | some slot =>
    rw [hslot] at hrefused
    cases hrefused

/-- An accepted retune returns its frequency, which is not 0. -/
theorem ledcChangeFrequency_of_refused {b : Bus} {pin : Pin} {freq : UInt32} {resolution : UInt8}
    (hrefused : (ledcChangeFrequency b pin freq resolution).1 = 0) :
    (ledcChangeFrequency b pin freq resolution).2 = b := by
  unfold ledcChangeFrequency at hrefused ⊢
  cases hslot : ledcSlot b.tables pin with
  | none => rfl
  | some slot =>
    rw [hslot] at hrefused
    by_cases hargs : freq = 0 ∨ resolution = 0 ∨ resolution > kLedcMaxResolution
    · simp only [if_pos hargs]
    · simp only [if_neg hargs] at hrefused
      exact absurd (.inl hrefused) hargs

theorem ledcOutputInvert_of_refused {b : Bus} {pin : Pin} {out_invert : Bool}
    (hrefused : (ledcOutputInvert b pin out_invert).1 = false) :
    (ledcOutputInvert b pin out_invert).2 = b := by
  unfold ledcOutputInvert at hrefused ⊢
  cases hslot : ledcSlot b.tables pin with
  | none => rfl
  | some slot =>
    rw [hslot] at hrefused
    cases hrefused

/-- A fade is refused at its first duty write, before its callback. -/
theorem ledcFadeImpl_of_refused {b : Bus} {pin : Pin} {start_duty target_duty : UInt32}
    {userFunc : Option Nat} (hrefused : (ledcFadeImpl b pin start_duty target_duty userFunc).1 = false) :
    (ledcFadeImpl b pin start_duty target_duty userFunc).2 = b := by
  unfold ledcFadeImpl at hrefused ⊢
  by_cases h : b.tables.OnLedc pin
  · simp [writeDuty_of_onLedc h] at hrefused
  · simp [writeDuty_of_not_onLedc h]

theorem dacDisable_of_refused {b : Bus} {pin : Pin} (hrefused : (dacDisable b pin).1 = false) :
    (dacDisable b pin).2 = b := by
  unfold dacDisable at hrefused ⊢
  split
  · rfl
  · rename_i hdac
    rw [if_neg hdac] at hrefused
    cases hrefused

/-- What it is for a call to be refused: its result says so, the pin is not
    attached to LEDC, the attach it needs fails, or the tone is another pin's. -/
def Bus.Refuses (b : Bus) : Call → Prop
  | .ledcAttach pin freq resolution => (bus.ledcAttach b pin freq resolution).1 = false
  | .ledcAttachChannel pin freq resolution channel =>
    (bus.ledcAttachChannel b pin freq resolution channel).1 = false
  | .ledcWrite pin duty => (bus.ledcWrite b pin duty).1 = false
  | .ledcWriteChannel channel duty => (bus.ledcWriteChannel b channel duty).1 = false
  | .ledcWriteTone pin _ => ¬b.tables.OnLedc pin
  | .ledcWriteNote pin _ _ => ¬b.tables.OnLedc pin
  | .ledcDetach pin => (bus.ledcDetach b pin).1 = false
  | .ledcChangeFrequency pin freq resolution => (bus.ledcChangeFrequency b pin freq resolution).1 = 0
  | .ledcOutputInvert pin out_invert => (bus.ledcOutputInvert b pin out_invert).1 = false
  | .ledcFade pin start target ms => (bus.ledcFade b pin start target ms).1 = false
  | .ledcFadeWithInterrupt pin start target ms fn =>
    (bus.ledcFadeWithInterrupt b pin start target ms fn).1 = false
  | .ledcFadeWithInterruptArg pin start target ms fn =>
    (bus.ledcFadeWithInterruptArg b pin start target ms fn).1 = false
  | .ledcFadeGamma pin start target ms => (bus.ledcFadeGamma b pin start target ms).1 = false
  | .ledcFadeGammaWithInterrupt pin start target ms fn =>
    (bus.ledcFadeGammaWithInterrupt b pin start target ms fn).1 = false
  | .ledcFadeGammaWithInterruptArg pin start target ms fn =>
    (bus.ledcFadeGammaWithInterruptArg b pin start target ms fn).1 = false
  | .analogWrite pin _ =>
    ¬b.tables.OnLedc pin ∧ (bus.ledcAttach b pin b.tables.write_hz b.tables.write_bits).1 = false
  | .analogWriteFrequencyPin pin freq =>
    b.tables.OnLedc pin ∧ (bus.ledcChangeFrequency b pin freq b.tables.write_bits).1 = 0
  | .analogWriteResolutionPin pin bits =>
    b.tables.OnLedc pin ∧ (bus.ledcChangeFrequency b pin b.tables.write_hz bits).1 = 0
  | .dacDisable pin => (bus.dacDisable b pin).1 = false
  | .tone pin frequency _ =>
    (∃ playing, b.tables.tone_pin = some playing ∧ playing ≠ pin) ∨
      b.tables.tone_pin = none ∧ (bus.ledcAttach b pin frequency 10).1 = false
  | .noTone pin => b.tables.tone_pin ≠ some pin
  | .analogWriteFrequency _ | .analogWriteResolution _ | .dacWrite .. | .resetAnalogState => False

theorem analogWrite_of_refused {b : Bus} {pin : Pin} {value : Int32}
    (hrefused : b.Refuses (.analogWrite pin value)) : analogWrite b pin value = b := by
  obtain ⟨hpin, hattach⟩ := hrefused
  unfold analogWrite
  rw [if_neg (mt ledcSlot_isSome.mp hpin)]
  simp only [hattach, Bool.not_false, if_true]
  exact ledcAttach_of_refused hattach

theorem analogWriteFrequencyPin_of_refused {b : Bus} {pin : Pin} {freq : UInt32}
    (hrefused : b.Refuses (.analogWriteFrequencyPin pin freq)) : analogWriteFrequencyPin b pin freq = b := by
  obtain ⟨hpin, hchange⟩ := hrefused
  unfold analogWriteFrequencyPin
  rw [if_pos (ledcSlot_isSome.mpr hpin)]
  simp only [hchange, if_true]
  exact ledcChangeFrequency_of_refused hchange

theorem analogWriteResolutionPin_of_refused {b : Bus} {pin : Pin} {bits : UInt8}
    (hrefused : b.Refuses (.analogWriteResolutionPin pin bits)) :
    analogWriteResolutionPin b pin bits = b := by
  obtain ⟨hpin, hchange⟩ := hrefused
  unfold analogWriteResolutionPin
  rw [if_pos (ledcSlot_isSome.mpr hpin)]
  simp only [hchange, if_true]
  exact ledcChangeFrequency_of_refused hchange

theorem tone_of_refused {b : Bus} {pin : Pin} {frequency : UInt32} {duration : UInt64}
    (hrefused : b.Refuses (.tone pin frequency duration)) : tone b pin frequency duration = b := by
  unfold tone
  obtain ⟨playing, hplaying, hother⟩ | ⟨hsilent, hattach⟩ := hrefused
  · simp only [hplaying]
    rw [if_pos hother]
  · simp only [hsilent, hattach, Bool.not_false, if_true]
    exact ledcAttach_of_refused hattach

/-- Refused calls are invisible: whatever the state, a call that is refused leaves
    the whole bus as it was, the slots, the defaults and the tone pin, and nothing
    is reported and no callback run. -/
theorem refused_invisible {b : Bus} {call : Call} (hrefused : b.Refuses call) : b.apply call = b := by
  cases call with
  | ledcAttach pin freq resolution => exact ledcAttach_of_refused hrefused
  | ledcAttachChannel pin freq resolution channel => exact attachChannel_of_refused hrefused
  | ledcWrite pin duty => exact writeDuty_of_refused hrefused
  | ledcWriteChannel channel duty => exact ledcWriteChannel_of_refused hrefused
  | ledcWriteTone pin freq => exact congrArg Prod.snd (ledcWriteTone_of_not_onLedc hrefused freq)
  | ledcWriteNote pin note octave =>
    exact congrArg Prod.snd (ledcWriteNote_of_not_onLedc hrefused note octave)
  | ledcDetach pin => exact ledcDetach_of_refused hrefused
  | ledcChangeFrequency pin freq resolution => exact ledcChangeFrequency_of_refused hrefused
  | ledcOutputInvert pin out_invert => exact ledcOutputInvert_of_refused hrefused
  | ledcFade pin start target ms => exact ledcFadeImpl_of_refused hrefused
  | ledcFadeWithInterrupt pin start target ms fn => cases fn <;> exact ledcFadeImpl_of_refused hrefused
  | ledcFadeWithInterruptArg pin start target ms fn => exact ledcFadeImpl_of_refused hrefused
  | ledcFadeGamma pin start target ms => exact ledcFadeImpl_of_refused hrefused
  | ledcFadeGammaWithInterrupt pin start target ms fn => cases fn <;> exact ledcFadeImpl_of_refused hrefused
  | ledcFadeGammaWithInterruptArg pin start target ms fn => exact ledcFadeImpl_of_refused hrefused
  | analogWrite pin value => exact analogWrite_of_refused hrefused
  | analogWriteFrequencyPin pin freq => exact analogWriteFrequencyPin_of_refused hrefused
  | analogWriteResolutionPin pin bits => exact analogWriteResolutionPin_of_refused hrefused
  | dacDisable pin => exact dacDisable_of_refused hrefused
  | tone pin frequency duration => exact tone_of_refused hrefused
  | noTone pin => exact if_pos hrefused
  | analogWriteFrequency | analogWriteResolution | dacWrite | resetAnalogState => exact hrefused.elim

/-- A tone on a second pin is refused while the first one plays. -/
theorem refused_invisible_tone :
    ((Bus.initial true).apply (.tone 4 440 0)).Refuses (.tone 5 440 0) ∧
      ((Bus.initial true).apply (.tone 4 440 0)).apply (.tone 5 440 0) =
        (Bus.initial true).apply (.tone 4 440 0) := by
  have hrefused : ((Bus.initial true).apply (.tone 4 440 0)).Refuses (.tone 5 440 0) :=
    .inl ⟨4, by decide +kernel, by decide⟩
  exact ⟨hrefused, refused_invisible hrefused⟩

end HostArduino.bus
