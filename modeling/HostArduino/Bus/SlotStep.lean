import HostArduino.Bus.Output
import Mathlib.Logic.Relation

open Relation (ReflTransGen)

namespace HostArduino.bus

/-- The frequency and resolution an attach to `channel` ends up with: those of
    the pin that holds the channel, or else arguments that passed the checks. -/
inductive AttachSettings (t : AnalogTables) (channel : UInt8) : UInt32 → UInt8 → Prop where
  | adopted {owner : Pin} (howner : channelOwner t channel.toNat = some owner) :
      AttachSettings t channel (t.out owner).frequency (t.out owner).resolution
  | requested {freq : UInt32} {resolution : UInt8} (hfree : channelOwner t channel.toNat = none)
      (hfreq : freq ≠ 0) (hpos : resolution ≠ 0) (hmax : resolution ≤ kLedcMaxResolution) :
      AttachSettings t channel freq resolution

/-- Everything a call can do to one slot, with the event that reports it. The flag
    tells the two moves that give an attached pin a new frequency and resolution. -/
inductive Move (t : AnalogTables) (pin : Pin) : Bool → AnalogWriteEvent → AnalogOut → Prop where
  | attach {freq : UInt32} {resolution channel : UInt8} (hchannel : channel.toNat < kLedcChannelCount)
      (hdetached : ledcSlot t pin = none) (hsettings : AttachSettings t channel freq resolution) :
      Move t pin false .kAnalogAttach
        { t.out pin with channel, frequency := freq, resolution, attached := true, dac := false }
  | duty (duty : UInt32) (hslot : ledcSlot t pin = some (t.out pin)) :
      Move t pin false .kAnalogWrite { t.out pin with duty }
  | tone {freq : UInt32} (hslot : ledcSlot t pin = some (t.out pin)) (hfreq : freq ≠ 0) :
      Move t pin true .kAnalogTone { t.out pin with frequency := freq, resolution := 10, duty := 0x1FF }
  | config {freq : UInt32} {resolution : UInt8} (hslot : ledcSlot t pin = some (t.out pin))
      (hfreq : freq ≠ 0) (hpos : resolution ≠ 0) (hmax : resolution ≤ kLedcMaxResolution) :
      Move t pin true .kAnalogConfig { t.out pin with frequency := freq, resolution }
  | invert (inverted : Bool) (hslot : ledcSlot t pin = some (t.out pin)) :
      Move t pin false .kAnalogConfig { t.out pin with inverted }
  | detach (hslot : ledcSlot t pin = some (t.out pin)) :
      Move t pin false .kAnalogDetach
        { t.out pin with attached := false, channel := kNoLedcChannel, duty := 0, inverted := false }
  | dac (value : UInt8) :
      Move t pin false .kAnalogDac
        { t.out pin with
          channel := kNoLedcChannel, frequency := 0, resolution := 8, duty := value.toUInt32,
          attached := true, dac := true }
  | dacDisable (hdac : (t.out pin).dac = true) :
      Move t pin false .kAnalogDetach { t.out pin with attached := false, dac := false, duty := 0 }

/-- One observable step of the bus: a slot committed with its report, a fade's
    callback, or the defaults and the tone pin changed with no slot touched. -/
inductive SlotStep : Bool → Bus → Bus → Prop where
  | commit {b : Bus} {pin : Pin} {retunes : Bool} {event : AnalogWriteEvent} {slot : AnalogOut}
      (hmove : Move b.tables pin retunes event slot) : SlotStep retunes b (b.commit pin event slot)
  | callback {b : Bus} (fn : Nat) : SlotStep false b { b with log := b.log ++ [.userFunc fn] }
  | defaults {b : Bus} (write_bits : UInt8) (write_hz : UInt32) (tone_pin : Option Pin) :
      SlotStep false b { b with tables := { b.tables with write_bits, write_hz, tone_pin } }

/-- Steps in sequence none of which retunes an attached pin. -/
abbrev QuietSteps : Bus → Bus → Prop := ReflTransGen (SlotStep false)

abbrev SlotSteps : Bus → Bus → Prop := ReflTransGen fun b b' => ∃ retunes, SlotStep retunes b b'

/-- A slot step of a call whose moves, and whether it sets a default or the tone
    pin, are known: what the call never does, none of its steps does. -/
inductive Act (moves : List (Bool × AnalogWriteEvent)) (sets : Bool) : Bus → Bus → Prop where
  | commit {b : Bus} {pin : Pin} {retunes : Bool} {event : AnalogWriteEvent} {slot : AnalogOut}
      (hmove : Move b.tables pin retunes event slot) (hmem : (retunes, event) ∈ moves) :
      Act moves sets b (b.commit pin event slot)
  | callback {b : Bus} (fn : Nat) : Act moves sets b { b with log := b.log ++ [.userFunc fn] }
  | defaults {b : Bus} (write_bits : UInt8) (write_hz : UInt32) (tone_pin : Option Pin)
      (hsets : sets = true) :
      Act moves sets b { b with tables := { b.tables with write_bits, write_hz, tone_pin } }

abbrev Acts (moves : List (Bool × AnalogWriteEvent)) (sets : Bool) : Bus → Bus → Prop :=
  ReflTransGen (Act moves sets)

section Acts

variable {moves more : List (Bool × AnalogWriteEvent)} {sets : Bool} {b b' : Bus}

theorem Act.slotStep (h : Act moves sets b b') : ∃ retunes, SlotStep retunes b b' := by
  cases h with
  | commit hmove hmem => exact ⟨_, .commit hmove⟩
  | callback fn => exact ⟨false, .callback fn⟩
  | defaults bits hz tone hsets => exact ⟨false, .defaults bits hz tone⟩

theorem Acts.slotSteps (h : Acts moves sets b b') : SlotSteps b b' :=
  h.lift id fun _ _ hact => hact.slotStep

/-- A call none of whose moves retunes is quiet. -/
theorem Acts.quietSteps (h : Acts moves sets b b') (hmoves : ∀ m ∈ moves, m.1 = false) :
    QuietSteps b b' := by
  refine h.lift id fun _ _ hact => ?_
  cases hact with
  | commit hmove hmem =>
    obtain rfl := hmoves _ hmem
    exact .commit hmove
  | callback fn => exact .callback fn
  | defaults bits hz tone hsets => exact .defaults bits hz tone

theorem Acts.mono {sets' : Bool} (h : Acts moves sets b b') (hmoves : moves ⊆ more)
    (hsets : sets = true → sets' = true) : Acts more sets' b b' := by
  refine h.lift id fun _ _ hact => ?_
  cases hact with
  | commit hmove hmem => exact .commit hmove (hmoves hmem)
  | callback fn => exact .callback fn
  | defaults bits hz tone hset => exact .defaults bits hz tone (hsets hset)

/-- The rule for one call: what each of its steps preserves, the call preserves. -/
theorem Acts.invariant {P : Bus → Prop} (hact : ∀ c c', Act moves sets c c' → P c → P c')
    (h : Acts moves sets b b') (hb : P b) : P b' := by
  induction h with
  | refl => exact hb
  | tail _ hlast ih => exact hact _ _ hlast ih

/-- A call that sets nothing keeps the defaults and the tone pin. -/
theorem Acts.globals (h : Acts moves false b b') :
    b'.tables.write_bits = b.tables.write_bits ∧ b'.tables.write_hz = b.tables.write_hz ∧
      b'.tables.tone_pin = b.tables.tone_pin := by
  refine h.invariant (P := fun c => c.tables.write_bits = b.tables.write_bits ∧
    c.tables.write_hz = b.tables.write_hz ∧ c.tables.tone_pin = b.tables.tone_pin)
    (fun c c' hact hc => ?_) ⟨rfl, rfl, rfl⟩
  cases hact with
  | commit hmove hmem =>
    rw [commit_eq]
    exact hc
  | callback fn => exact hc
  | defaults bits hz tone hsets => cases hsets

/-- A call only adds to the log, and reports only the events it is listed with. -/
theorem Acts.log_append (h : Acts moves sets b b') :
    ∃ more, b'.log = b.log ++ more ∧
      ∀ event slot, Effect.report event slot ∈ more → event ∈ moves.map Prod.snd := by
  refine h.invariant (P := fun c => ∃ more, c.log = b.log ++ more ∧
    ∀ event slot, Effect.report event slot ∈ more → event ∈ moves.map Prod.snd)
    (fun c c' hact hc => ?_) ⟨[], by simp, nofun⟩
  obtain ⟨more, hlog, hmore⟩ := hc
  cases hact with
  | commit hmove hmem =>
    rename_i pin retunes event slot
    refine ⟨more ++ if c.analog_write_hook then [.report event slot] else [], ?_, ?_⟩
    · rw [commit_eq, ← List.append_assoc, ← hlog]
    · intro ev out hout
      obtain hold | hnew := List.mem_append.mp hout
      · exact hmore ev out hold
      · split at hnew
        · cases List.mem_singleton.mp hnew
          exact List.mem_map_of_mem hmem
        · cases hnew
  | callback fn =>
    refine ⟨more ++ [.userFunc fn], by simp [hlog], fun ev out hout => ?_⟩
    obtain hold | hnew := List.mem_append.mp hout
    · exact hmore ev out hold
    · cases List.mem_singleton.mp hnew
  | defaults bits hz tone hsets => exact ⟨more, hlog, hmore⟩

end Acts

theorem attachChannel_acts (b : Bus) (pin : Pin) (freq : UInt32) (resolution channel : UInt8) :
    Acts [(false, .kAnalogAttach)] false b (attachChannel b pin freq resolution channel).2 := by
  unfold attachChannel
  split
  · exact .refl
  · rename_i hchannel
    split
    · exact .refl
    · rename_i hargs
      split
      · exact .refl
      · rename_i hslot
        obtain ⟨hfreq, hpos, hmax⟩ : freq ≠ 0 ∧ resolution ≠ 0 ∧ resolution ≤ kLedcMaxResolution := by
          simpa only [not_or, UInt8.not_lt, gt_iff_lt] using hargs
        refine .single (.commit (.attach (by omega) (by simpa using hslot) ?_) (by simp))
        cases howner : channelOwner b.tables channel.toNat with
        | none => exact .requested howner hfreq hpos hmax
        | some owner => exact .adopted howner

theorem writeDuty_acts (b : Bus) (pin : Pin) (duty : UInt32) :
    Acts [(false, .kAnalogWrite)] false b (writeDuty b pin duty).2 := by
  unfold writeDuty
  split
  · exact .refl
  · rename_i slot hslot
    obtain rfl := (ledcSlot_eq_some.mp hslot).1
    exact .single (.commit (.duty _ hslot) (by simp))

theorem ledcAttach_acts (b : Bus) (pin : Pin) (freq : UInt32) (resolution : UInt8) :
    Acts [(false, .kAnalogAttach)] false b (ledcAttach b pin freq resolution).2 := by
  unfold ledcAttach
  split
  · exact .refl
  · exact attachChannel_acts b pin freq resolution _

theorem ledcWriteChannel_acts (b : Bus) (channel : UInt8) (duty : UInt32) :
    Acts [(false, .kAnalogWrite)] false b (ledcWriteChannel b channel duty).2 := by
  unfold ledcWriteChannel
  split
  · exact .refl
  · have hloop : ∀ (pins : List Pin) (r : Bool × Bus), Acts [(false, .kAnalogWrite)] false b r.2 →
        Acts [(false, .kAnalogWrite)] false b (pins.foldl (ledcWriteChannelStep channel duty) r).2 := by
      intro pins
      induction pins with
      | nil => exact fun r hr => hr
      | cons pin pins ih =>
        intro r hr
        refine ih _ ?_
        unfold ledcWriteChannelStep
        split
        · exact hr
        · split
          · exact hr.trans (writeDuty_acts r.2 pin duty)
          · exact hr
    exact hloop _ (false, b) .refl

/-- Silence is the duty write it is reported as. -/
theorem ledcWriteTone_zero (b : Bus) (pin : Pin) :
    (ledcWriteTone b pin 0).2 = (writeDuty b pin 0).2 := by
  unfold ledcWriteTone
  split
  · rename_i hslot
    simp [writeDuty, hslot]
  · rfl

theorem ledcWriteTone_acts (b : Bus) (pin : Pin) (freq : UInt32) :
    Acts [(false, .kAnalogWrite), (true, .kAnalogTone)] false b (ledcWriteTone b pin freq).2 := by
  unfold ledcWriteTone
  split
  · exact .refl
  · rename_i slot hslot
    obtain rfl := (ledcSlot_eq_some.mp hslot).1
    split
    · exact (writeDuty_acts b pin 0).mono (by simp) id
    · rename_i hfreq
      exact .single (.commit (.tone hslot hfreq) (by simp))

theorem ledcWriteNote_acts (b : Bus) (pin : Pin) (note : note_t) (octave : UInt8) :
    Acts [(false, .kAnalogWrite), (true, .kAnalogTone)] false b (ledcWriteNote b pin note octave).2 := by
  unfold ledcWriteNote
  split
  · exact .refl
  · exact ledcWriteTone_acts b pin _

theorem ledcDetach_acts (b : Bus) (pin : Pin) :
    Acts [(false, .kAnalogDetach)] false b (ledcDetach b pin).2 := by
  unfold ledcDetach
  split
  · exact .refl
  · rename_i slot hslot
    obtain rfl := (ledcSlot_eq_some.mp hslot).1
    exact .single (.commit (.detach hslot) (by simp))

theorem ledcChangeFrequency_acts (b : Bus) (pin : Pin) (freq : UInt32) (resolution : UInt8) :
    Acts [(true, .kAnalogConfig)] false b (ledcChangeFrequency b pin freq resolution).2 := by
  unfold ledcChangeFrequency
  split
  · exact .refl
  · rename_i slot hslot
    obtain rfl := (ledcSlot_eq_some.mp hslot).1
    split
    · exact .refl
    · rename_i hargs
      obtain ⟨hfreq, hpos, hmax⟩ : freq ≠ 0 ∧ resolution ≠ 0 ∧ resolution ≤ kLedcMaxResolution := by
        simpa only [not_or, UInt8.not_lt, gt_iff_lt] using hargs
      exact .single (.commit (.config hslot hfreq hpos hmax) (by simp))

theorem ledcOutputInvert_acts (b : Bus) (pin : Pin) (out_invert : Bool) :
    Acts [(false, .kAnalogConfig)] false b (ledcOutputInvert b pin out_invert).2 := by
  unfold ledcOutputInvert
  split
  · exact .refl
  · rename_i slot hslot
    obtain rfl := (ledcSlot_eq_some.mp hslot).1
    exact .single (.commit (.invert _ hslot) (by simp))

theorem runUserFunc_acts (b : Bus) (userFunc : Option Nat) :
    Acts [(false, .kAnalogWrite)] false b (runUserFunc b userFunc) := by
  cases userFunc with
  | none => exact .refl
  | some fn => exact .single (.callback fn)

theorem ledcFadeImpl_acts (b : Bus) (pin : Pin) (start_duty target_duty : UInt32)
    (userFunc : Option Nat) :
    Acts [(false, .kAnalogWrite)] false b (ledcFadeImpl b pin start_duty target_duty userFunc).2 := by
  have hstart := writeDuty_acts b pin start_duty
  unfold ledcFadeImpl
  simp only
  split
  · exact hstart
  · exact (hstart.trans (writeDuty_acts _ pin target_duty)).trans (runUserFunc_acts _ userFunc)

theorem analogWrite_acts (b : Bus) (pin : Pin) (value : Int32) :
    Acts [(false, .kAnalogAttach), (false, .kAnalogWrite)] false b (analogWrite b pin value) := by
  have hattach : Acts [(false, .kAnalogAttach), (false, .kAnalogWrite)] false b
      (ledcAttach b pin b.tables.write_hz b.tables.write_bits).2 :=
    (ledcAttach_acts b pin _ _).mono (by simp) id
  have hwrite : ∀ c, Acts [(false, .kAnalogAttach), (false, .kAnalogWrite)] false c
      (writeDuty c pin value.toUInt32).2 :=
    fun c => (writeDuty_acts c pin _).mono (by simp) id
  unfold analogWrite
  simp only
  split
  · exact hwrite b
  · split
    · exact hattach
    · exact hattach.trans (hwrite _)

theorem analogWriteFrequencyPin_acts (b : Bus) (pin : Pin) (freq : UInt32) :
    Acts [(true, .kAnalogConfig)] true b (analogWriteFrequencyPin b pin freq) := by
  have hchange : Acts [(true, .kAnalogConfig)] true b
      (ledcChangeFrequency b pin freq b.tables.write_bits).2 :=
    (ledcChangeFrequency_acts b pin freq _).mono (by simp) nofun
  unfold analogWriteFrequencyPin
  simp only
  split
  · split
    · exact hchange
    · exact hchange.tail (.defaults _ freq _ rfl)
  · exact .single (.defaults _ freq _ rfl)

theorem analogWriteResolutionPin_acts (b : Bus) (pin : Pin) (bits : UInt8) :
    Acts [(true, .kAnalogConfig)] true b (analogWriteResolutionPin b pin bits) := by
  have hchange : Acts [(true, .kAnalogConfig)] true b
      (ledcChangeFrequency b pin b.tables.write_hz bits).2 :=
    (ledcChangeFrequency_acts b pin _ bits).mono (by simp) nofun
  unfold analogWriteResolutionPin
  simp only
  split
  · split
    · exact hchange
    · exact hchange.tail (.defaults bits _ _ rfl)
  · exact .single (.defaults bits _ _ rfl)

theorem dacDisable_acts (b : Bus) (pin : Pin) :
    Acts [(false, .kAnalogDetach)] false b (dacDisable b pin).2 := by
  unfold dacDisable
  split
  · exact .refl
  · rename_i hdac
    exact .single (.commit (.dacDisable (by simpa using hdac)) (by simp))

theorem playTone_acts (b : Bus) (pin : Pin) (frequency : UInt32) (duration : UInt64) :
    Acts [(false, .kAnalogWrite), (true, .kAnalogTone)] false b (playTone b pin frequency duration) := by
  have htone := ledcWriteTone_acts b pin frequency
  unfold playTone
  simp only
  split
  · exact htone.trans (ledcWriteTone_acts _ pin 0)
  · exact htone

theorem tone_acts (b : Bus) (pin : Pin) (frequency : UInt32) (duration : UInt64) :
    Acts [(false, .kAnalogAttach), (false, .kAnalogWrite), (true, .kAnalogTone)] true b
      (tone b pin frequency duration) := by
  have hattach : Acts [(false, .kAnalogAttach), (false, .kAnalogWrite), (true, .kAnalogTone)] true b
      (ledcAttach b pin frequency 10).2 :=
    (ledcAttach_acts b pin frequency 10).mono (by simp) nofun
  have hplay : ∀ c, Acts [(false, .kAnalogAttach), (false, .kAnalogWrite), (true, .kAnalogTone)] true c
      (playTone c pin frequency duration) :=
    fun c => (playTone_acts c pin frequency duration).mono (by simp) nofun
  unfold tone
  split
  · split
    · exact .refl
    · exact hplay b
  · simp only
    split
    · exact hattach
    · exact (hattach.tail (.defaults _ _ (some pin) rfl)).trans (hplay _)

theorem noTone_acts (b : Bus) (pin : Pin) :
    Acts [(false, .kAnalogWrite), (false, .kAnalogDetach)] true b (noTone b pin) := by
  unfold noTone
  split
  · exact .refl
  · simp only [ledcWriteTone_zero]
    have hsilence : Acts [(false, .kAnalogWrite), (false, .kAnalogDetach)] true b
        (writeDuty b pin 0).2 :=
      (writeDuty_acts b pin 0).mono (by simp) nofun
    have hdetach : Acts [(false, .kAnalogWrite), (false, .kAnalogDetach)] true (writeDuty b pin 0).2
        (ledcDetach (writeDuty b pin 0).2 pin).2 :=
      (ledcDetach_acts _ pin).mono (by simp) nofun
    exact (hsilence.trans hdetach).tail (.defaults _ _ none rfl)

/-- The moves of a call: the events it may report, and whether it reports them
    for new settings of an attached pin. -/
def Call.moves : Call → List (Bool × AnalogWriteEvent)
  | .ledcAttach .. | .ledcAttachChannel .. => [(false, .kAnalogAttach)]
  | .ledcWrite .. | .ledcWriteChannel .. | .ledcFade .. | .ledcFadeWithInterrupt ..
  | .ledcFadeWithInterruptArg .. | .ledcFadeGamma .. | .ledcFadeGammaWithInterrupt ..
  | .ledcFadeGammaWithInterruptArg .. => [(false, .kAnalogWrite)]
  | .ledcWriteTone .. | .ledcWriteNote .. => [(false, .kAnalogWrite), (true, .kAnalogTone)]
  | .ledcDetach .. | .dacDisable .. => [(false, .kAnalogDetach)]
  | .ledcChangeFrequency .. | .analogWriteFrequencyPin .. | .analogWriteResolutionPin .. =>
    [(true, .kAnalogConfig)]
  | .ledcOutputInvert .. => [(false, .kAnalogConfig)]
  | .analogWrite .. => [(false, .kAnalogAttach), (false, .kAnalogWrite)]
  | .dacWrite .. => [(false, .kAnalogDac)]
  | .tone .. => [(false, .kAnalogAttach), (false, .kAnalogWrite), (true, .kAnalogTone)]
  | .noTone .. => [(false, .kAnalogWrite), (false, .kAnalogDetach)]
  | .analogWriteFrequency .. | .analogWriteResolution .. | .resetAnalogState => []

/-- The calls that set a default of `analogWrite`, or the tone pin. -/
def Call.sets : Call → Bool
  | .analogWriteFrequencyPin .. | .analogWriteFrequency .. | .analogWriteResolutionPin ..
  | .analogWriteResolution .. | .tone .. | .noTone .. => true
  | _ => false

/-- Every call but `resetAnalogState` is a sequence of slot steps, and makes only
    the moves it is listed with. -/
theorem Bus.apply_acts (b : Bus) (call : Call) (hreset : call ≠ .resetAnalogState) :
    Acts call.moves call.sets b (b.apply call) := by
  cases call with
  | ledcAttach pin freq resolution => exact ledcAttach_acts b pin freq resolution
  | ledcAttachChannel pin freq resolution channel =>
    exact attachChannel_acts b pin freq resolution channel
  | ledcWrite pin duty => exact writeDuty_acts b pin duty
  | ledcWriteChannel channel duty => exact ledcWriteChannel_acts b channel duty
  | ledcWriteTone pin freq => exact ledcWriteTone_acts b pin freq
  | ledcWriteNote pin note octave => exact ledcWriteNote_acts b pin note octave
  | ledcDetach pin => exact ledcDetach_acts b pin
  | ledcChangeFrequency pin freq resolution => exact ledcChangeFrequency_acts b pin freq resolution
  | ledcOutputInvert pin out_invert => exact ledcOutputInvert_acts b pin out_invert
  | ledcFade pin start target ms => exact ledcFadeImpl_acts b pin start target none
  | ledcFadeWithInterrupt pin start target ms fn => cases fn <;> exact ledcFadeImpl_acts b pin start target _
  | ledcFadeWithInterruptArg pin start target ms fn => exact ledcFadeImpl_acts b pin start target fn
  | ledcFadeGamma pin start target ms => exact ledcFadeImpl_acts b pin start target none
  | ledcFadeGammaWithInterrupt pin start target ms fn =>
    cases fn <;> exact ledcFadeImpl_acts b pin start target _
  | ledcFadeGammaWithInterruptArg pin start target ms fn => exact ledcFadeImpl_acts b pin start target fn
  | analogWrite pin value => exact analogWrite_acts b pin value
  | analogWriteFrequencyPin pin freq => exact analogWriteFrequencyPin_acts b pin freq
  | analogWriteFrequency freq => exact .single (.defaults _ freq _ rfl)
  | analogWriteResolutionPin pin bits => exact analogWriteResolutionPin_acts b pin bits
  | analogWriteResolution bits => exact .single (.defaults bits _ _ rfl)
  | dacWrite pin value => exact .single (.commit (.dac value) (by simp [Call.moves]))
  | dacDisable pin => exact dacDisable_acts b pin
  | tone pin frequency duration => exact tone_acts b pin frequency duration
  | noTone pin => exact noTone_acts b pin
  | resetAnalogState => exact absurd rfl hreset

theorem Bus.apply_globals (b : Bus) {call : Call} (hsets : call.sets = false)
    (hreset : call ≠ .resetAnalogState) :
    (b.apply call).tables.write_bits = b.tables.write_bits ∧
      (b.apply call).tables.write_hz = b.tables.write_hz ∧
      (b.apply call).tables.tone_pin = b.tables.tone_pin :=
  (hsets ▸ b.apply_acts call hreset : Acts call.moves false b (b.apply call)).globals

/-- Whatever a slot step preserves, each call but `resetAnalogState` preserves. -/
theorem Bus.apply_steps (b : Bus) (call : Call) (hreset : call ≠ .resetAnalogState) :
    SlotSteps b (b.apply call) :=
  (b.apply_acts call hreset).slotSteps

theorem slotSteps_invariant {P : Bus → Prop} (hstep : ∀ retunes b b', SlotStep retunes b b' → P b → P b')
    {b b' : Bus} (hsteps : SlotSteps b b') (hb : P b) : P b' := by
  induction hsteps with
  | refl => exact hb
  | tail _ hlast ih =>
    obtain ⟨retunes, hlast⟩ := hlast
    exact hstep retunes _ _ hlast ih

/-- The invariant rule of the bus: a property that one slot step and a reset
    preserve holds after any sequence of calls. -/
theorem Bus.run_invariant {P : Bus → Prop} (hstep : ∀ retunes b b', SlotStep retunes b b' → P b → P b')
    (hreset : ∀ b, P b → P (resetAnalogState b)) {b : Bus} (hb : P b) (calls : List Call) :
    P (b.run calls) := by
  refine machine.run_invariant (fun b call b' hP happly => ?_) hb (machine_run b calls)
  obtain rfl : b.apply call = b' := Option.some.inj happly
  by_cases hcall : call = .resetAnalogState
  · subst hcall
    exact hreset b hP
  · exact slotSteps_invariant hstep (b.apply_steps call hcall) hP

end HostArduino.bus
