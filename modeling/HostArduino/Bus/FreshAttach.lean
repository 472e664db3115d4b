import HostArduino.Bus.Refusal

namespace HostArduino.bus

/-- An attach a call sets out to make. -/
structure Attach where
  pin : Pin
  freq : UInt32
  resolution : UInt8
  channel : UInt8

def Attach.run (a : Attach) (b : Bus) : Bool × Bus :=
  attachChannel b a.pin a.freq a.resolution a.channel

def Bus.firstFree (b : Bus) (pin : Pin) (freq : UInt32) (resolution : UInt8) : Option Attach :=
  (firstFreeChannel b.tables).map fun channel => { pin, freq, resolution, channel := UInt8.ofNat channel }

/-- The attach of each call that makes one: the two that are asked to, and the
    implicit ones of `analogWrite` and `tone`. -/
def Bus.attaching (b : Bus) : Call → Option Attach
  | .ledcAttach pin freq resolution => b.firstFree pin freq resolution
  | .ledcAttachChannel pin freq resolution channel => some { pin, freq, resolution, channel }
  | .analogWrite pin _ =>
    if b.tables.OnLedc pin then none else b.firstFree pin b.tables.write_hz b.tables.write_bits
  | .tone pin frequency _ => if b.tables.tone_pin = none then b.firstFree pin frequency 10 else none
  | _ => none

/-- What a call adds to the log. -/
def Bus.reported (b : Bus) (call : Call) : List Effect :=
  (b.apply call).log.drop b.log.length

/-- A slot with nothing of an earlier life in it. -/
def AnalogOut.Clean (slot : AnalogOut) : Prop :=
  slot.duty = 0 ∧ slot.inverted = false

/-- An attach that succeeds on a channel no other pin carries leaves a clean slot,
    and every attach event of the call shows one. -/
def Bus.AttachesClean (b : Bus) (call : Call) : Prop :=
  ∀ a ∈ b.attaching call, (a.run b).1 = true →
    (∀ q, q ≠ a.pin → ¬b.tables.Carries a.channel.toNat q) →
    ((a.run b).2.tables.out a.pin).Clean ∧
      ∀ slot, .report .kAnalogAttach slot ∈ b.reported call → slot.Clean

/-- What the attach demands of its arguments and of the state. -/
def Attach.Admitted (a : Attach) (b : Bus) : Prop :=
  a.channel.toNat < kLedcChannelCount ∧ Usable a.freq a.resolution ∧ ¬b.tables.OnLedc a.pin

/-- A call that attaches a pin to a free channel finds the pin neither showing a
    DAC value other than 0 nor with its output left inverted. -/
def Bus.StartsClean (b : Bus) (call : Call) : Prop :=
  ∀ a ∈ b.attaching call, a.Admitted b → (∀ q, ¬b.tables.Carries a.channel.toNat q) →
    ((b.tables.out a.pin).dac = true → (b.tables.out a.pin).duty = 0) ∧
      (b.tables.out a.pin).inverted = false

theorem Attach.run_eq_true_iff (a : Attach) (b : Bus) : (a.run b).1 = true ↔ a.Admitted b :=
  attachChannel_eq_true_iff b a.pin a.freq a.resolution a.channel

theorem ledcAttach_eq_firstFree (b : Bus) (pin : Pin) (freq : UInt32) (resolution : UInt8) :
    ledcAttach b pin freq resolution = (b.firstFree pin freq resolution).elim (false, b) (·.run b) := by
  unfold ledcAttach Bus.firstFree
  cases firstFreeChannel b.tables <;> rfl

/-- After its attach a call only plays or writes. -/
theorem Bus.apply_of_attaching {b : Bus} {call : Call} {a : Attach} (ha : b.attaching call = some a)
    (hrun : (a.run b).1 = true) :
    Acts [(false, .kAnalogWrite), (true, .kAnalogTone)] true (a.run b).2 (b.apply call) := by
  cases call with
  | ledcAttach pin freq resolution =>
    have hfirst : b.firstFree pin freq resolution = some a := ha
    rw [apply, ledcAttach_eq_firstFree, hfirst]
    exact .refl
  | ledcAttachChannel pin freq resolution channel =>
    cases ha
    exact .refl
  | analogWrite pin value =>
    simp only [attaching] at ha
    split at ha
    · cases ha
    · rename_i hpin
      have hattach : bus.ledcAttach b pin b.tables.write_hz b.tables.write_bits = a.run b := by
        rw [ledcAttach_eq_firstFree, ha]
        rfl
      rw [apply, bus.analogWrite, if_neg (mt ledcSlot_isSome.mp hpin)]
      simp only [hattach, hrun, Bool.not_true, Bool.false_eq_true, if_false]
      exact (writeDuty_acts _ pin _).mono (by simp) nofun
  | tone pin frequency duration =>
    simp only [attaching] at ha
    split at ha
    · rename_i hsilent
      have hattach : bus.ledcAttach b pin frequency 10 = a.run b := by
        rw [ledcAttach_eq_firstFree, ha]
        rfl
      rw [apply, bus.tone, hsilent]
      simp only [hattach, hrun, Bool.not_true, Bool.false_eq_true, if_false]
      exact (Relation.ReflTransGen.single (.defaults _ _ (some pin) rfl)).trans
        ((playTone_acts _ pin frequency duration).mono (by simp) nofun)
    · cases ha
  | _ => cases ha

theorem ledcAttach_refused_of_firstFree {b : Bus} {pin : Pin} {freq : UInt32} {resolution : UInt8}
    (ha : ∀ a ∈ b.firstFree pin freq resolution, (a.run b).1 = false) :
    (ledcAttach b pin freq resolution).1 = false := by
  rw [ledcAttach_eq_firstFree]
  cases hfirst : b.firstFree pin freq resolution with
  | none => rfl
  | some a => exact ha a hfirst

/-- A call that attaches nothing has no attach to report. -/
theorem Bus.apply_of_not_attaching {b : Bus} {call : Call}
    (ha : ∀ a ∈ b.attaching call, (a.run b).1 = false) (hreset : call ≠ .resetAnalogState) :
    ∃ moves, Acts moves true b (b.apply call) ∧ .kAnalogAttach ∉ moves.map Prod.snd := by
  have hsame : b.apply call = b → ∃ moves, Acts moves true b (b.apply call) ∧
      .kAnalogAttach ∉ moves.map Prod.snd := by
    intro h
    rw [h]
    exact ⟨[], .refl, by simp⟩
  have hlisted : .kAnalogAttach ∉ call.moves.map Prod.snd → ∃ moves, Acts moves true b (b.apply call) ∧
      .kAnalogAttach ∉ moves.map Prod.snd := by
    intro h
    exact ⟨call.moves, (b.apply_acts call hreset).mono (List.Subset.refl _) fun _ => rfl, h⟩
  cases call with
  | ledcAttach pin freq resolution =>
    exact hsame (ledcAttach_of_refused (ledcAttach_refused_of_firstFree ha))
  | ledcAttachChannel pin freq resolution channel => exact hsame (attachChannel_of_refused (ha _ rfl))
  | analogWrite pin value =>
    by_cases hpin : b.tables.OnLedc pin
    · refine ⟨[(false, .kAnalogWrite)], ?_, by simp⟩
      rw [apply, bus.analogWrite, if_pos (ledcSlot_isSome.mpr hpin)]
      exact (writeDuty_acts b pin _).mono (by simp) nofun
    · simp only [attaching, if_neg hpin] at ha
      exact hsame (analogWrite_of_refused ⟨hpin, ledcAttach_refused_of_firstFree ha⟩)
  | tone pin frequency duration =>
    cases hplaying : b.tables.tone_pin with
    | none =>
      simp only [attaching, hplaying, if_true] at ha
      exact hsame (tone_of_refused (.inr ⟨hplaying, ledcAttach_refused_of_firstFree ha⟩))
    | some playing =>
      by_cases hother : playing = pin
      · refine ⟨[(false, .kAnalogWrite), (true, .kAnalogTone)], ?_, by simp⟩
        rw [apply, bus.tone, hplaying]
        simp only [hother, ne_eq, not_true, if_false]
        exact (playTone_acts b pin frequency duration).mono (by simp) nofun
      · exact hsame (tone_of_refused (.inl ⟨playing, hplaying, hother⟩))
  | resetAnalogState => exact absurd rfl hreset
  | ledcWrite | ledcWriteChannel | ledcWriteTone | ledcWriteNote | ledcDetach | ledcChangeFrequency
  | ledcOutputInvert | ledcFade | ledcFadeWithInterrupt | ledcFadeWithInterruptArg | ledcFadeGamma
  | ledcFadeGammaWithInterrupt | ledcFadeGammaWithInterruptArg | analogWriteFrequencyPin
  | analogWriteFrequency | analogWriteResolutionPin | analogWriteResolution | dacWrite | dacDisable
  | noTone =>
    exact hlisted (by simp [Call.moves])

/-- The log after steps that attach nothing shows no new attach. -/
theorem Acts.no_attach {moves : List (Bool × AnalogWriteEvent)} {sets : Bool} {b b' : Bus}
    (h : Acts moves sets b b') (hmoves : .kAnalogAttach ∉ moves.map Prod.snd) :
    ∃ more, b'.log = b.log ++ more ∧ ∀ slot, .report .kAnalogAttach slot ∉ more := by
  obtain ⟨more, hlog, hmore⟩ := h.log_append
  exact ⟨more, hlog, fun slot hslot => hmoves (hmore _ slot hslot)⟩

/-- Every attach event a call reports is that of its attach, with the slot as the
    attach left it. -/
theorem Bus.reported_attach {b : Bus} {call : Call} {slot : AnalogOut}
    (hslot : .report .kAnalogAttach slot ∈ b.reported call) :
    ∃ a ∈ b.attaching call, (a.run b).1 = true ∧ slot = (a.run b).2.tables.out a.pin := by
  by_cases hattaching : ∃ a ∈ b.attaching call, (a.run b).1 = true
  · obtain ⟨a, ha, hrun⟩ := hattaching
    refine ⟨a, ha, hrun, ?_⟩
    obtain ⟨more, hlog, hmore⟩ := (apply_of_attaching ha hrun).no_attach (by simp)
    obtain ⟨freq, resolution, hafter⟩ := attachChannel_success hrun
    have hafter : (a.run b).2 = _ := hafter
    rw [hafter, commit_eq, List.append_assoc] at hlog
    rw [reported, hlog, List.drop_left] at hslot
    obtain hfirst | hrest := List.mem_append.mp hslot
    · split at hfirst
      · obtain ⟨-, rfl⟩ := Effect.report.inj (List.mem_singleton.mp hfirst)
        rw [hafter, commit_out, Function.update_self]
      · cases hfirst
    · exact absurd hrest (hmore slot)
  · have ha : ∀ a ∈ b.attaching call, (a.run b).1 = false := fun a ha =>
      Bool.eq_false_iff.mpr fun hrun => hattaching ⟨a, ha, hrun⟩
    have hnone : ∃ more, (b.apply call).log = b.log ++ more ∧
        ∀ slot, .report .kAnalogAttach slot ∉ more := by
      by_cases hreset : call = .resetAnalogState
      · subst hreset
        exact ⟨[], by simp [apply, resetAnalogState], by simp⟩
      · obtain ⟨moves, hacts, hmoves⟩ := apply_of_not_attaching ha hreset
        exact hacts.no_attach hmoves
    obtain ⟨more, hlog, hmore⟩ := hnone
    rw [reported, hlog, List.drop_left] at hslot
    exact absurd hslot (hmore slot)

/-- An attach leaves the duty and the inversion of its pin as it found them. -/
theorem Attach.run_clean_iff {a : Attach} {b : Bus} (hrun : (a.run b).1 = true) :
    ((a.run b).2.tables.out a.pin).Clean ↔ (b.tables.out a.pin).Clean := by
  obtain ⟨freq, resolution, hafter⟩ := attachChannel_success hrun
  have hafter : (a.run b).2 = _ := hafter
  rw [hafter, commit_out, Function.update_self]
  exact Iff.rfl

/-- A pin off LEDC shows a duty only as a DAC pin. -/
theorem AnalogTables.WellFormed.clean_iff {t : AnalogTables} (hwf : t.WellFormed) {pin : Pin}
    (hpin : ¬t.OnLedc pin) :
    (t.out pin).Clean ↔
      ((t.out pin).dac = true → (t.out pin).duty = 0) ∧ (t.out pin).inverted = false := by
  refine and_congr_left fun _ => ⟨fun h _ => h, fun h => ?_⟩
  cases hdac : (t.out pin).dac with
  | true => exact h hdac
  | false =>
    have hdetached : (t.out pin).attached = false :=
      Bool.eq_false_iff.mpr fun hattached => hpin ⟨hattached, hdac⟩
    exact ((hwf pin).detached hdetached).2.1

theorem attachesClean_iff {b : Bus} (hwf : b.tables.WellFormed) (call : Call) :
    b.AttachesClean call ↔ b.StartsClean call := by
  constructor
  · intro h a ha hadmitted hfree
    have hrun := (a.run_eq_true_iff b).mpr hadmitted
    have hclean := (h a ha hrun fun q _ => hfree q).1
    exact (hwf.clean_iff hadmitted.2.2).mp ((Attach.run_clean_iff hrun).mp hclean)
  · intro h a ha hrun hothers
    have hadmitted := (a.run_eq_true_iff b).mp hrun
    have hfree : ∀ q, ¬b.tables.Carries a.channel.toNat q := by
      intro q hq
      by_cases hqa : q = a.pin
      · exact hadmitted.2.2 (hqa ▸ hq.1)
      · exact hothers q hqa hq
    have hclean : ((a.run b).2.tables.out a.pin).Clean :=
      (Attach.run_clean_iff hrun).mpr ((hwf.clean_iff hadmitted.2.2).mpr (h a ha hadmitted hfree))
    refine ⟨hclean, fun slot hslot => ?_⟩
    obtain ⟨a', ha', -, rfl⟩ := Bus.reported_attach hslot
    obtain rfl : a = a' := Option.mem_unique ha ha'
    exact hclean

/-- Every attach of a run to a channel no other pin carries starts clean, in its
    slot and in its event, exactly when the run never makes one on a pin that
    shows a DAC value other than 0 or was left inverted. -/
theorem run_attachesClean_iff (analog_write_hook : Bool) (calls : List Call) :
    machine.Meets Bus.AttachesClean (Bus.initial analog_write_hook) calls ↔
      machine.Meets Bus.StartsClean (Bus.initial analog_write_hook) calls := by
  refine machine.meets_congr (I := fun b => b.tables.WellFormed) ?_ ?_ reset_wellFormed
  · intro b call b' hwf happly
    obtain rfl : b.apply call = b' := Option.some.inj happly
    exact Bus.run_keeps_wellFormed hwf [call]
  · exact fun b call hwf => attachesClean_iff hwf call

/-- A pin driven by the DAC and then attached to LEDC: the attach shows the DAC's
    value as its duty. -/
theorem run_not_attachesClean :
    ¬ machine.Meets Bus.AttachesClean (Bus.initial true) [.dacWrite 25 200, .ledcAttach 25 1000 8] := by
  rintro ⟨-, hrest⟩
  obtain ⟨hclean, -⟩ := hrest _ rfl
  have hduty := (hclean _ rfl (by decide +kernel) (by decide +kernel)).1.1
  exact absurd hduty (by decide +kernel)

/-- A pin off LEDC whose output is still inverted. -/
def AnalogTables.LeftInverted (t : AnalogTables) (pin : Pin) : Prop :=
  ¬t.OnLedc pin ∧ (t.out pin).inverted = true

/-- Only a DAC write leaves a pin inverted that was not so already. -/
theorem Move.leftInverted_of {t : AnalogTables} {pin : Pin} {retunes : Bool} {event : AnalogWriteEvent}
    {slot : AnalogOut} (hmove : Move t pin retunes event slot) (hdac : event ≠ .kAnalogDac)
    (hslot : ¬(slot.attached = true ∧ slot.dac = false) ∧ slot.inverted = true) : t.LeftInverted pin := by
  by_cases hdetach : event = .kAnalogDetach
  · subst hdetach
    cases hmove with
    | detach hslot' => exact absurd hslot.2 Bool.false_ne_true
    | dacDisable hpin => exact ⟨fun honLedc => absurd honLedc.2 (by simp [hpin]), hslot.2⟩
  · exact absurd (hmove.onLedc hdetach hdac) hslot.1

/-- A pin left inverted stays so until it is attached, or the DAC takes it anew. -/
theorem Move.leftInverted {t : AnalogTables} {pin : Pin} {retunes : Bool} {event : AnalogWriteEvent}
    {slot : AnalogOut} (hmove : Move t pin retunes event slot) (hattach : event ≠ .kAnalogAttach)
    (hdac : event ≠ .kAnalogDac) (hleft : t.LeftInverted pin) :
    ¬(slot.attached = true ∧ slot.dac = false) ∧ slot.inverted = true := by
  obtain ⟨hpin, hinverted⟩ := hleft
  cases hmove with
  | attach hchannel hdetached hsettings => exact absurd rfl hattach
  | duty duty hslot => exact absurd (ledcSlot_eq_some.mp hslot).2 hpin
  | tone hslot hfreq => exact absurd (ledcSlot_eq_some.mp hslot).2 hpin
  | config hslot hfreq hpos hmax => exact absurd (ledcSlot_eq_some.mp hslot).2 hpin
  | invert inverted hslot => exact absurd (ledcSlot_eq_some.mp hslot).2 hpin
  | detach hslot => exact absurd (ledcSlot_eq_some.mp hslot).2 hpin
  | dac value => exact absurd rfl hdac
  | dacDisable hdac => exact ⟨by simp, hinverted⟩

section LeftInverted

variable {moves : List (Bool × AnalogWriteEvent)} {sets : Bool} {b b' : Bus} {pin : Pin}

theorem leftInverted_commit_self {event : AnalogWriteEvent} {slot : AnalogOut} :
    (b.commit pin event slot).tables.LeftInverted pin ↔
      ¬(slot.attached = true ∧ slot.dac = false) ∧ slot.inverted = true := by
  rw [AnalogTables.LeftInverted, onLedc_commit_self, commit_out, Function.update_self]

theorem leftInverted_commit_of_ne {q : Pin} (hq : q ≠ pin) (event : AnalogWriteEvent) (slot : AnalogOut) :
    (b.commit pin event slot).tables.LeftInverted q ↔ b.tables.LeftInverted q := by
  rw [AnalogTables.LeftInverted, onLedc_commit_of_ne hq, commit_out, Function.update_of_ne hq]
  exact Iff.rfl

theorem Acts.leftInverted_of (h : Acts moves sets b b') (hmoves : ∀ m ∈ moves, m.2 ≠ .kAnalogDac)
    (hleft : b'.tables.LeftInverted pin) : b.tables.LeftInverted pin := by
  refine h.invariant (P := fun c => c.tables.LeftInverted pin → b.tables.LeftInverted pin)
    (fun c c' hact hc hleft => ?_) id hleft
  cases hact with
  | commit hmove hmem =>
    rename_i moved retunes event slot
    by_cases hmoved : pin = moved
    · subst hmoved
      exact hc (hmove.leftInverted_of (hmoves _ hmem) (leftInverted_commit_self.mp hleft))
    · exact hc ((leftInverted_commit_of_ne hmoved event slot).mp hleft)
  | callback fn => exact hc hleft
  | defaults bits hz tone hsets => exact hc hleft

/-- A call that attaches nothing keeps a pin left inverted. -/
theorem Acts.leftInverted (h : Acts moves sets b b')
    (hmoves : ∀ m ∈ moves, m.2 ≠ .kAnalogAttach ∧ m.2 ≠ .kAnalogDac)
    (hleft : b.tables.LeftInverted pin) : b'.tables.LeftInverted pin := by
  refine h.invariant (P := fun c => c.tables.LeftInverted pin) (fun c c' hact hc => ?_) hleft
  cases hact with
  | commit hmove hmem =>
    rename_i moved retunes event slot
    by_cases hmoved : pin = moved
    · subst hmoved
      exact leftInverted_commit_self.mpr (hmove.leftInverted (hmoves _ hmem).1 (hmoves _ hmem).2 hc)
    · exact (leftInverted_commit_of_ne hmoved event slot).mpr hc
  | callback fn => exact hc
  | defaults bits hz tone hsets => exact hc

/-- A call that may attach it either does, or leaves it as it was. -/
theorem Acts.leftInverted_or_onLedc (h : Acts moves sets b b')
    (hmoves : ∀ m ∈ moves, m.2 ≠ .kAnalogDetach ∧ m.2 ≠ .kAnalogDac)
    (hleft : b.tables.LeftInverted pin) : b'.tables.LeftInverted pin ∨ b'.tables.OnLedc pin := by
  refine h.invariant (P := fun c => c.tables.LeftInverted pin ∨ c.tables.OnLedc pin)
    (fun c c' hact hc => ?_) (.inl hleft)
  cases hact with
  | commit hmove hmem =>
    rename_i moved retunes event slot
    by_cases hmoved : pin = moved
    · subst hmoved
      exact .inr (onLedc_commit_self.mpr (hmove.onLedc (hmoves _ hmem).1 (hmoves _ hmem).2))
    · rwa [leftInverted_commit_of_ne hmoved, onLedc_commit_of_ne hmoved]
  | callback fn => exact hc
  | defaults bits hz tone hsets => exact hc

end LeftInverted

/-- What one call does to a pin left inverted. -/
theorem Bus.apply_leftInverted_iff (b : Bus) (call : Call) (pin : Pin) :
    (b.apply call).tables.LeftInverted pin ↔
      ((∃ value, call = .dacWrite pin value) ∧ b.tables.OnLedc pin ∧ (b.tables.out pin).inverted = true) ∨
      b.tables.LeftInverted pin ∧ ¬(call = .resetAnalogState ∨ (b.apply call).tables.OnLedc pin) := by
  by_cases hreset : call = .resetAnalogState
  · subst hreset
    simp [AnalogTables.LeftInverted, apply, resetAnalogState, AnalogTables.reset]
  by_cases hdac : ∃ moved value, call = .dacWrite moved value
  · obtain ⟨moved, value, rfl⟩ := hdac
    by_cases hmoved : pin = moved
    · subst hmoved
      simp only [apply, bus.dacWrite, leftInverted_commit_self, onLedc_commit_self]
      by_cases hpin : b.tables.OnLedc pin <;> simp [AnalogTables.LeftInverted, hpin]
    · simp only [apply, bus.dacWrite, leftInverted_commit_of_ne hmoved, onLedc_commit_of_ne hmoved]
      simp +contextual [AnalogTables.LeftInverted, Ne.symm hmoved]
  · have hmoves : (∀ m ∈ call.moves, m.2 ≠ .kAnalogDac) ∧
        ((∀ m ∈ call.moves, m.2 ≠ .kAnalogAttach) ∨ ∀ m ∈ call.moves, m.2 ≠ .kAnalogDetach) := by
      cases call <;> simp_all [Call.moves]
    have hacts := b.apply_acts call hreset
    constructor
    · intro hleft
      exact .inr ⟨hacts.leftInverted_of hmoves.1 hleft, fun h => h.elim hreset hleft.1⟩
    · rintro (⟨⟨value, hcall⟩, -⟩ | ⟨hleft, hnot⟩)
      · exact absurd ⟨pin, value, hcall⟩ hdac
      · obtain hattach | hdetach := hmoves.2
        · exact hacts.leftInverted (fun m hm => ⟨hattach m hm, hmoves.1 m hm⟩) hleft
        · refine (hacts.leftInverted_or_onLedc (fun m hm => ⟨hdetach m hm, hmoves.1 m hm⟩) hleft).resolve_right ?_
          exact fun h => hnot (.inr h)

/-- How a pin comes to be left inverted: `dacWrite` took it from LEDC with its
    output inverted, and since then it was neither attached nor reset. -/
theorem run_leftInverted_iff (analog_write_hook : Bool) (calls : List Call) (pin : Pin) :
    ((Bus.initial analog_write_hook).run calls).tables.LeftInverted pin ↔
      ∃ before call after, calls = before ++ call :: after ∧
        ((∃ value, call = .dacWrite pin value) ∧
          ((Bus.initial analog_write_hook).run before).tables.OnLedc pin ∧
          (((Bus.initial analog_write_hook).run before).tables.out pin).inverted = true) ∧
        machine.Meets (fun b call => ¬(call = .resetAnalogState ∨ (b.apply call).tables.OnLedc pin))
          ((Bus.initial analog_write_hook).run (before ++ [call])) after := by
  apply Lib.EventMachine.latch_iff (F := fun b : Bus => b.tables.LeftInverted pin)
    fun b call => b.apply_leftInverted_iff call pin
  simp [AnalogTables.LeftInverted, Bus.initial, AnalogTables.reset]

end HostArduino.bus
