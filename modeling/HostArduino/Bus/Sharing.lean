import HostArduino.Bus.SlotStep

namespace HostArduino.bus

/-- Both pins are attached to LEDC, on one channel. -/
def AnalogTables.Share (t : AnalogTables) (p q : Pin) : Prop :=
  ((t.out p).attached = true ∧ (t.out p).dac = false) ∧
    ((t.out q).attached = true ∧ (t.out q).dac = false) ∧ (t.out p).channel = (t.out q).channel

/-- Pins that share a channel agree on its frequency and resolution. -/
def AnalogTables.Agree (t : AnalogTables) : Prop :=
  ∀ p q, t.Share p q →
    (t.out p).frequency = (t.out q).frequency ∧ (t.out p).resolution = (t.out q).resolution

/-- New settings for an attached pin that its channel can take without the other
    pins noticing: the pin is alone there, or it already runs at these settings. -/
def AnalogTables.RetunesAlike (t : AnalogTables) (pin : Pin) (frequency : UInt32) (resolution : UInt8) :
    Prop :=
  (∀ q, t.Share pin q → q = pin) ∨
    (frequency = (t.out pin).frequency ∧ resolution = (t.out pin).resolution)

instance (t : AnalogTables) (p q : Pin) : Decidable (t.Share p q) :=
  inferInstanceAs (Decidable (_ ∧ _))

instance (t : AnalogTables) (pin : Pin) (frequency : UInt32) (resolution : UInt8) :
    Decidable (t.RetunesAlike pin frequency resolution) :=
  inferInstanceAs (Decidable (_ ∨ _))

/-- The settings a call is about to give to a pin that is attached to LEDC. -/
structure Retune where
  pin : Pin
  frequency : UInt32
  resolution : UInt8

def Bus.retuneTone (b : Bus) (pin : Pin) (frequency : UInt32) : Option Retune :=
  if (ledcSlot b.tables pin).isSome ∧ frequency ≠ 0 then some { pin, frequency, resolution := 10 }
  else none

def Bus.retuneConfig (b : Bus) (pin : Pin) (frequency : UInt32) (resolution : UInt8) : Option Retune :=
  if (ledcSlot b.tables pin).isSome ∧ frequency ≠ 0 ∧ resolution ≠ 0 ∧ resolution ≤ kLedcMaxResolution then
    some { pin, frequency, resolution }
  else none

/-- What a call retunes in the state it is made in. A `tone` that first has to
    attach its pin takes a free channel and so retunes nothing that is shared. -/
def Bus.retune (b : Bus) : Call → Option Retune
  | .ledcWriteTone pin freq => b.retuneTone pin freq
  | .ledcWriteNote pin note octave =>
    if octave > 8 ∨ note = .NOTE_MAX then none
    else b.retuneTone pin (note.base / ((1 : UInt32) <<< (8 - octave.toUInt32)))
  | .ledcChangeFrequency pin freq resolution => b.retuneConfig pin freq resolution
  | .analogWriteFrequencyPin pin freq => b.retuneConfig pin freq b.tables.write_bits
  | .analogWriteResolutionPin pin bits => b.retuneConfig pin b.tables.write_hz bits
  | .tone pin frequency _ =>
    if b.tables.tone_pin = some pin then b.retuneTone pin frequency else none
  | _ => none

/-- A call leaves the pins that share a channel alone: whatever it retunes, it
    retunes alike. -/
def Bus.KeepsSharers (b : Bus) (call : Call) : Prop :=
  ∀ r ∈ b.retune call, b.tables.RetunesAlike r.pin r.frequency r.resolution

theorem AnalogTables.Share.symm {t : AnalogTables} {p q : Pin} (h : t.Share p q) : t.Share q p :=
  ⟨h.2.1, h.1, h.2.2.symm⟩

/-- Agreement looks at the output slots only, and not at their duty or inversion. -/
theorem agree_congr {t t' : AnalogTables}
    (hout : ∀ pin, (t'.out pin).attached = (t.out pin).attached ∧ (t'.out pin).dac = (t.out pin).dac ∧
      (t'.out pin).channel = (t.out pin).channel ∧ (t'.out pin).frequency = (t.out pin).frequency ∧
      (t'.out pin).resolution = (t.out pin).resolution) : t'.Agree ↔ t.Agree := by
  unfold AnalogTables.Agree AnalogTables.Share
  simp only [fun pin => (hout pin).1, fun pin => (hout pin).2.1, fun pin => (hout pin).2.2.1,
    fun pin => (hout pin).2.2.2.1, fun pin => (hout pin).2.2.2.2]

theorem agree_of_out_eq {t t' : AnalogTables} (hout : t'.out = t.out) : t'.Agree ↔ t.Agree :=
  agree_congr fun pin => by simp [hout]

/-- After one slot is replaced in agreeing tables, they agree exactly when the new
    slot agrees with every other pin on its channel. -/
theorem agree_update_iff {t t' : AnalogTables} (hagree : t.Agree) {pin : Pin} {slot : AnalogOut}
    (hout : t'.out = Function.update t.out pin slot) :
    t'.Agree ↔ (slot.attached = true ∧ slot.dac = false → ∀ q, q ≠ pin →
      (t.out q).attached = true ∧ (t.out q).dac = false → (t.out q).channel = slot.channel →
        slot.frequency = (t.out q).frequency ∧ slot.resolution = (t.out q).resolution) := by
  have hself : t'.out pin = slot := by simp [hout]
  have hother : ∀ q, q ≠ pin → t'.out q = t.out q := by
    intro q hq
    simp [hout, hq]
  constructor
  · intro h hledc q hq hq_ledc hchannel
    have hpair := h pin q ⟨by rwa [hself], by rwa [hother q hq], by rw [hself, hother q hq, hchannel]⟩
    rwa [hself, hother q hq] at hpair
  · intro h p q hshare
    by_cases hp : p = pin <;> by_cases hq : q = pin
    · rw [hp, hq]
      exact ⟨rfl, rfl⟩
    · subst hp
      obtain ⟨hp_ledc, hq_ledc, hchannel⟩ := hshare
      rw [hself] at hp_ledc hchannel ⊢
      rw [hother q hq] at hq_ledc hchannel ⊢
      exact h hp_ledc q hq hq_ledc hchannel.symm
    · subst hq
      obtain ⟨hp_ledc, hq_ledc, hchannel⟩ := hshare
      rw [hself] at hq_ledc hchannel ⊢
      rw [hother p hp] at hp_ledc hchannel ⊢
      obtain ⟨hfreq, hres⟩ := h hq_ledc p hp hp_ledc hchannel
      exact ⟨hfreq.symm, hres.symm⟩
    · rw [AnalogTables.Share, hother p hp, hother q hq] at hshare
      rw [hother p hp, hother q hq]
      exact hagree p q hshare

/-- A quiet move keeps agreement: an attach adopts what its channel already has,
    and the other quiet moves keep the pin's settings or take it off LEDC. -/
theorem Move.agree {t t' : AnalogTables} (hagree : t.Agree) {pin : Pin} {event : AnalogWriteEvent}
    {slot : AnalogOut} (hmove : Move t pin false event slot)
    (hout : t'.out = Function.update t.out pin slot) : t'.Agree := by
  rw [agree_update_iff hagree hout]
  intro hledc q hq hq_ledc hchannel
  cases hmove with
  | attach hcount hdetached hsettings =>
    cases hsettings with
    | adopted howner =>
      obtain ⟨hattached, hdac, howned⟩ := channelOwner_some howner
      exact hagree _ q ⟨⟨hattached, hdac⟩, hq_ledc, by rw [hchannel]; exact UInt8.toNat.inj howned⟩
    | requested hfree hfreq hpos hmax =>
      exact absurd (congrArg UInt8.toNat hchannel) (channelOwner_none hcount hfree hq_ledc.1 hq_ledc.2)
  | duty duty hslot => exact hagree pin q ⟨hledc, hq_ledc, hchannel.symm⟩
  | invert inverted hslot => exact hagree pin q ⟨hledc, hq_ledc, hchannel.symm⟩
  | detach hslot => simp at hledc
  | dac value => simp at hledc
  | dacDisable hdac => simp at hledc

theorem QuietSteps.agree {b b' : Bus} (hsteps : QuietSteps b b') (hagree : b.tables.Agree) :
    b'.tables.Agree := by
  induction hsteps with
  | refl => exact hagree
  | tail _ hlast ih =>
    cases hlast with
    | commit hmove => exact hmove.agree ih (commit_out _ _ _ _)
    | callback fn => exact ih
    | defaults bits hz tone => exact ih

/-- New settings on an attached pin keep agreement exactly when its channel can
    take them alike. -/
theorem agree_retune_iff {t t' : AnalogTables} (hagree : t.Agree) {pin : Pin} {slot : AnalogOut}
    (hledc : (t.out pin).attached = true ∧ (t.out pin).dac = false)
    (hslot : slot.attached = (t.out pin).attached ∧ slot.dac = (t.out pin).dac ∧
      slot.channel = (t.out pin).channel)
    (hout : t'.out = Function.update t.out pin slot) :
    t'.Agree ↔ t.RetunesAlike pin slot.frequency slot.resolution := by
  rw [agree_update_iff hagree hout, hslot.1, hslot.2.1, hslot.2.2]
  constructor
  · intro h
    by_cases halone : ∀ q, t.Share pin q → q = pin
    · exact .inl halone
    · simp only [not_forall] at halone
      obtain ⟨q, hshare, hq⟩ := halone
      obtain ⟨hfreq, hres⟩ := h hledc q hq hshare.2.1 hshare.2.2.symm
      obtain ⟨hfreq', hres'⟩ := hagree pin q hshare
      exact .inr ⟨hfreq.trans hfreq'.symm, hres.trans hres'.symm⟩
  · rintro (halone | ⟨hfreq, hres⟩) hpin q hq hq_ledc hchannel
    · exact absurd (halone q ⟨hpin, hq_ledc, hchannel.symm⟩) hq
    · rw [hfreq, hres]
      exact hagree pin q ⟨hpin, hq_ledc, hchannel.symm⟩

theorem writeDuty_agree_iff (b : Bus) (pin : Pin) (duty : UInt32) :
    (writeDuty b pin duty).2.tables.Agree ↔ b.tables.Agree := by
  unfold writeDuty
  split
  · rfl
  · rename_i slot hslot
    obtain rfl := (ledcSlot_eq_some.mp hslot).1
    apply agree_congr
    intro q
    rw [commit_out]
    by_cases hq : q = pin
    · subst hq
      simp
    · simp [hq]

theorem ledcWriteTone_agree_iff {b : Bus} (hagree : b.tables.Agree) (pin : Pin) (freq : UInt32) :
    (ledcWriteTone b pin freq).2.tables.Agree ↔
      ∀ r ∈ b.retuneTone pin freq, b.tables.RetunesAlike r.pin r.frequency r.resolution := by
  cases hslot : ledcSlot b.tables pin with
  | none => simp [ledcWriteTone, Bus.retuneTone, hslot, hagree]
  | some slot =>
    obtain ⟨rfl, hledc⟩ := ledcSlot_eq_some.mp hslot
    by_cases hfreq : freq = 0
    · subst hfreq
      rw [ledcWriteTone_zero, writeDuty_agree_iff]
      simp [Bus.retuneTone, hagree]
    · simp only [ledcWriteTone, hslot, if_neg hfreq]
      refine (agree_retune_iff hagree hledc ?_ (commit_out _ _ _ _)).trans ?_
      · exact ⟨rfl, rfl, rfl⟩
      · simp [Bus.retuneTone, hslot, hfreq]

theorem ledcChangeFrequency_agree_iff {b : Bus} (hagree : b.tables.Agree) (pin : Pin) (freq : UInt32)
    (resolution : UInt8) :
    (ledcChangeFrequency b pin freq resolution).2.tables.Agree ↔
      ∀ r ∈ b.retuneConfig pin freq resolution, b.tables.RetunesAlike r.pin r.frequency r.resolution := by
  cases hslot : ledcSlot b.tables pin with
  | none => simp [ledcChangeFrequency, Bus.retuneConfig, hslot, hagree]
  | some slot =>
    obtain ⟨rfl, hledc⟩ := ledcSlot_eq_some.mp hslot
    simp only [ledcChangeFrequency, hslot]
    by_cases hargs : freq = 0 ∨ resolution = 0 ∨ resolution > kLedcMaxResolution
    · rw [if_pos hargs]
      have hnone : b.retuneConfig pin freq resolution = none := by
        unfold Bus.retuneConfig
        rw [if_neg]
        rintro ⟨-, hfreq, hpos, hmax⟩
        obtain h | h | h := hargs
        · exact hfreq h
        · exact hpos h
        · exact UInt8.not_le.mpr h hmax
      simp [hnone, hagree]
    · rw [if_neg hargs]
      simp only [not_or, gt_iff_lt, UInt8.not_lt] at hargs
      refine (agree_retune_iff hagree hledc ?_ (commit_out _ _ _ _)).trans ?_
      · exact ⟨rfl, rfl, rfl⟩
      · simp [Bus.retuneConfig, hslot, hargs]

/-- The pin overloads retune their pin as `ledcChangeFrequency` does, and move a
    default besides. -/
theorem analogWriteFrequencyPin_out (b : Bus) (pin : Pin) (freq : UInt32) :
    (analogWriteFrequencyPin b pin freq).tables.out =
      (ledcChangeFrequency b pin freq b.tables.write_bits).2.tables.out := by
  unfold analogWriteFrequencyPin
  cases hslot : ledcSlot b.tables pin with
  | none => simp [ledcChangeFrequency, hslot]
  | some slot =>
    simp only [Option.isSome_some, if_true]
    split <;> rfl

theorem analogWriteResolutionPin_out (b : Bus) (pin : Pin) (bits : UInt8) :
    (analogWriteResolutionPin b pin bits).tables.out =
      (ledcChangeFrequency b pin b.tables.write_hz bits).2.tables.out := by
  unfold analogWriteResolutionPin
  cases hslot : ledcSlot b.tables pin with
  | none => simp [ledcChangeFrequency, hslot]
  | some slot =>
    simp only [Option.isSome_some, if_true]
    split <;> rfl

theorem playTone_agree_iff {b : Bus} (hagree : b.tables.Agree) (pin : Pin) (frequency : UInt32)
    (duration : UInt64) :
    (playTone b pin frequency duration).tables.Agree ↔
      ∀ r ∈ b.retuneTone pin frequency, b.tables.RetunesAlike r.pin r.frequency r.resolution := by
  unfold playTone
  simp only [ledcWriteTone_zero]
  split
  · rw [writeDuty_agree_iff, ledcWriteTone_agree_iff hagree]
  · exact ledcWriteTone_agree_iff hagree pin frequency

/-- `ledcAttach` takes a free channel, so the pin it attaches is alone there. -/
theorem ledcAttach_alone {b : Bus} {pin : Pin} {freq : UInt32} {resolution : UInt8}
    (hattached : (ledcAttach b pin freq resolution).1 = true) (q : Pin)
    (hshare : (ledcAttach b pin freq resolution).2.tables.Share pin q) : q = pin := by
  by_contra hq
  cases hchannel : firstFreeChannel b.tables with
  | none => simp [ledcAttach, hchannel] at hattached
  | some channel =>
    obtain ⟨hcount, hfree⟩ := firstFreeChannel_some hchannel
    have hnat : (UInt8.ofNat channel).toNat = channel := by
      simp only [kLedcChannelCount] at hcount
      simp only [UInt8.toNat_ofNat']
      omega
    simp only [ledcAttach, hchannel] at hattached hshare
    unfold attachChannel at hattached hshare
    split at hattached
    · cases hattached
    · split at hattached
      · cases hattached
      · split at hattached
        · cases hattached
        · rename_i hge hargs hslot
          rw [if_neg hge, if_neg hargs, if_neg hslot] at hshare
          simp only [AnalogTables.Share, commit_out, Function.update_self,
            Function.update_of_ne hq] at hshare
          obtain ⟨-, hq_ledc, hsame⟩ := hshare
          exact channelOwner_none hcount hfree hq_ledc.1 hq_ledc.2 (by rw [← hsame, hnat])

theorem tone_agree_iff {b : Bus} (hagree : b.tables.Agree) (pin : Pin) (frequency : UInt32)
    (duration : UInt64) :
    (tone b pin frequency duration).tables.Agree ↔ b.KeepsSharers (.tone pin frequency duration) := by
  unfold tone Bus.KeepsSharers Bus.retune
  cases hplaying : b.tables.tone_pin with
  | some playing =>
    by_cases hsame : playing = pin
    · simpa [hsame] using playTone_agree_iff hagree pin frequency duration
    · simp [hsame, hagree]
  | none =>
    have hagree' := ((ledcAttach_acts b pin frequency 10).quietSteps (by simp)).agree hagree
    simp only
    split
    · simpa using hagree'
    · rename_i hattached
      refine (playTone_agree_iff ?_ pin frequency duration).trans ?_
      · exact (agree_of_out_eq rfl).mpr hagree'
      · have halone := ledcAttach_alone (by simpa using hattached)
        simp only [reduceCtorEq, if_false, Option.not_mem_none, false_implies, implies_true, iff_true]
        intro r hr
        have hpin : r.pin = pin := by
          unfold Bus.retuneTone at hr
          split at hr
          · cases hr
            rfl
          · cases hr
        exact .inl (hpin ▸ halone)

/-- A call none of whose moves retunes keeps agreement, and has nothing to keep it from. -/
theorem Bus.apply_agree_iff_of_quiet {b : Bus} (hagree : b.tables.Agree) {call : Call}
    (hretune : b.retune call = none) (hmoves : ∀ m ∈ call.moves, m.1 = false)
    (hreset : call ≠ .resetAnalogState) : (b.apply call).tables.Agree ↔ b.KeepsSharers call := by
  have hafter := ((b.apply_acts call hreset).quietSteps hmoves).agree hagree
  simp [KeepsSharers, hretune, hafter]

/-- One call keeps agreement exactly when it leaves the sharers of a channel alone. -/
theorem Bus.apply_agree_iff {b : Bus} (hagree : b.tables.Agree) (call : Call) :
    (b.apply call).tables.Agree ↔ b.KeepsSharers call := by
  cases call with
  | ledcWriteTone pin freq => exact ledcWriteTone_agree_iff hagree pin freq
  | ledcWriteNote pin note octave =>
    unfold apply ledcWriteNote KeepsSharers retune
    by_cases hargs : octave > 8 ∨ note = .NOTE_MAX
    · simp [hargs, hagree]
    · simpa only [if_neg hargs] using ledcWriteTone_agree_iff hagree pin _
  | ledcChangeFrequency pin freq resolution =>
    exact ledcChangeFrequency_agree_iff hagree pin freq resolution
  | analogWriteFrequencyPin pin freq =>
    refine (agree_of_out_eq (analogWriteFrequencyPin_out b pin freq)).trans ?_
    exact ledcChangeFrequency_agree_iff hagree pin freq b.tables.write_bits
  | analogWriteResolutionPin pin bits =>
    refine (agree_of_out_eq (analogWriteResolutionPin_out b pin bits)).trans ?_
    exact ledcChangeFrequency_agree_iff hagree pin b.tables.write_hz bits
  | tone pin frequency duration => exact tone_agree_iff hagree pin frequency duration
  | resetAnalogState =>
    simp [KeepsSharers, retune, apply, resetAnalogState, AnalogTables.Agree, AnalogTables.Share,
      AnalogTables.reset]
  | ledcAttach | ledcAttachChannel | ledcWrite | ledcWriteChannel | ledcDetach | ledcOutputInvert
  | ledcFade | ledcFadeWithInterrupt | ledcFadeWithInterruptArg | ledcFadeGamma
  | ledcFadeGammaWithInterrupt | ledcFadeGammaWithInterruptArg | analogWrite | analogWriteFrequency
  | analogWriteResolution | dacWrite | dacDisable | noTone =>
    exact apply_agree_iff_of_quiet hagree rfl (by simp [Call.moves]) (by simp)

/-- Pins that share a channel agree on its settings in every state of a run exactly
    when every call of the run that retunes an attached pin retunes a pin alone on
    its channel, or to the settings the channel already has. -/
theorem run_agree_iff (analog_write_hook : Bool) (calls : List Call) :
    (∀ b ∈ machine.visited (Bus.initial analog_write_hook) calls, b.tables.Agree) ↔
      machine.Meets Bus.KeepsSharers (Bus.initial analog_write_hook) calls := by
  refine machine.visited_iff_meets (P := fun b => b.tables.Agree) ?_ ?_ ?_
  · intro b call b' hagree happly
    obtain rfl : b.apply call = b' := Option.some.inj happly
    exact Bus.apply_agree_iff hagree call
  · exact fun b call _ => ⟨b.apply call, rfl⟩
  · simp [Bus.initial, AnalogTables.Agree, AnalogTables.Share, AnalogTables.reset]

/-- Two pins attached to one channel, then one of them retuned: the other keeps
    the frequency the channel had. -/
theorem run_not_agree :
    ¬ ∀ b ∈ machine.visited (Bus.initial true)
        [.ledcAttachChannel 4 5000 8 0, .ledcAttachChannel 5 5000 8 0, .ledcChangeFrequency 4 2000 10],
      b.tables.Agree := by
  intro h
  have hend := h ((Bus.initial true).run
    [.ledcAttachChannel 4 5000 8 0, .ledcAttachChannel 5 5000 8 0, .ledcChangeFrequency 4 2000 10])
    (Lib.EventMachine.mem_visited_iff.mpr ⟨_, List.prefix_refl _, machine_run _ _⟩) 4 5
    (by decide +kernel)
  exact absurd hend.1 (by decide +kernel)

end HostArduino.bus
