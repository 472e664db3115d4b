import HostArduino.Interrupt.HostInterrupt

namespace HostArduino.interrupt

open bus Lib

variable {Fn Ptr : Type} {t : InterruptTable Fn Ptr}

section Depth

/-- Code after which no pin's depth is larger than before. -/
def Unwinds (code : Code Fn Ptr) : Prop :=
  ∀ t pin, ((code t).1.slot pin).depth ≤ (t.slot pin).depth

variable {first second hook enter body exit : Code Fn Ptr}

theorem Unwinds.andThen (hfirst : Unwinds first) (hsecond : Unwinds second) :
    Unwinds (first.andThen second) := by
  intro t pin
  exact UInt8.le_trans (hsecond (first t).1 pin) (hfirst t pin)

theorem unwinds_report (event : InterruptEvent) (pin : Pin) (hhook : Unwinds hook) :
    Unwinds (report event pin hook) := by
  intro t other
  exact hhook t other

theorem unwinds_invoke (callee : Option (Callee Fn Ptr)) (hbody : Unwinds body) :
    Unwinds (invoke callee body) := by
  intro t pin
  cases callee with
  | none => exact UInt8.le_refl _
  | some callee => exact hbody t pin

theorem modify_slot_self (pin : Pin) (f : InterruptSlot Fn Ptr → InterruptSlot Fn Ptr)
    (hpin : ∀ slot, (f slot).pin = slot.pin) : (t.modify pin f hpin).slot pin = f (t.slot pin) := by
  simp [InterruptTable.modify]

theorem modify_slot_ne {pin other : Pin} (hne : other ≠ pin)
    (f : InterruptSlot Fn Ptr → InterruptSlot Fn Ptr) (hpin : ∀ slot, (f slot).pin = slot.pin) :
    (t.modify pin f hpin).slot other = t.slot other := by
  simp [InterruptTable.modify, hne]

/-- A write that leaves the depth alone. -/
theorem modify_depth (pin other : Pin) {f : InterruptSlot Fn Ptr → InterruptSlot Fn Ptr}
    (hpin : ∀ slot, (f slot).pin = slot.pin) (hdepth : (f (t.slot pin)).depth = (t.slot pin).depth) :
    ((t.modify pin f hpin).slot other).depth = (t.slot other).depth := by
  by_cases hother : other = pin
  · subst hother
    rw [modify_slot_self, hdepth]
  · rw [modify_slot_ne hother]

theorem unwinds_attach (pin : Pin) (handler handler_arg : Option Fn) (arg : Option Ptr) (mode : Int)
    (hhook : Unwinds hook) : Unwinds (attach pin handler handler_arg arg mode hook) := by
  intro t other
  unfold attach
  split
  · refine UInt8.le_trans (unwinds_report _ pin hhook _ other) ?_
    rw [modify_depth]
    · exact UInt8.le_refl _
    · rfl
  · exact UInt8.le_refl _

theorem unwinds_detach (pin : Pin) (hhook : Unwinds hook) : Unwinds (detach pin hook) := by
  intro t other
  unfold detach
  split
  · refine UInt8.le_trans (unwinds_report _ pin hhook _ other) ?_
    rw [modify_depth]
    · exact UInt8.le_refl _
    · rfl
  · exact UInt8.le_refl _

theorem unwinds_resetInterrupts : Unwinds (resetInterrupts : Code Fn Ptr) := by
  intro t pin
  rw [UInt8.le_iff_toNat_le]
  exact Nat.zero_le _

/-- The count goes up by one, and nothing in between leaves it larger, so counting down
    brings it back. At 255 it wraps to 0 on the way in, and stays there. -/
theorem unwound_depth {before inside : UInt8} (h : inside ≤ before + 1) :
    (if 0 < inside then inside - 1 else inside) ≤ before := by
  rw [UInt8.le_iff_toNat_le] at h ⊢
  have hwrap : (before + 1).toNat = (before.toNat + 1) % 256 := by
    rw [UInt8.toNat_add]
    rfl
  have hbound : before.toNat < 256 := before.toNat_lt
  by_cases hpos : 0 < inside
  · have hnat : 0 < inside.toNat := UInt8.lt_iff_toNat_lt.mp hpos
    rw [if_pos hpos, UInt8.toNat_sub_of_le inside 1 (UInt8.le_iff_toNat_le.mpr hnat)]
    change inside.toNat - 1 ≤ before.toNat
    omega
  · have hzero : inside.toNat = 0 := by
      have hnat := fun h => hpos (UInt8.lt_iff_toNat_lt.mpr h)
      change ¬0 < inside.toNat at hnat
      omega
    rw [if_neg hpos, hzero]
    exact Nat.zero_le _

theorem countIn_depth (pin other : Pin) (t : InterruptTable Fn Ptr) :
    (((countIn pin) t).1.slot other).depth =
      if other = pin then (t.slot other).depth + 1 else (t.slot other).depth := by
  by_cases hother : other = pin
  · subst hother
    simp [countIn, modify_slot_self]
  · simp [countIn, modify_slot_ne hother, hother]

theorem countOut_depth (pin other : Pin) (t : InterruptTable Fn Ptr) :
    (((countOut pin) t).1.slot other).depth =
      if other = pin then
        (if 0 < (t.slot other).depth then (t.slot other).depth - 1 else (t.slot other).depth)
      else (t.slot other).depth := by
  by_cases hother : other = pin
  · subst hother
    simp [countOut, modify_slot_self]
  · simp [countOut, modify_slot_ne hother, hother]

/-- What runs between counting in and counting out leaves no depth larger. -/
theorem unwinds_counted (pin : Pin) (hbody : Unwinds body) :
    Unwinds ((countIn pin).andThen (body.andThen (countOut pin))) := by
  intro t other
  have hinside := hbody ((countIn pin) t).1 other
  rw [countIn_depth] at hinside
  change (((countOut pin) (body ((countIn pin) t).1).1).1.slot other).depth ≤ (t.slot other).depth
  rw [countOut_depth]
  by_cases hother : other = pin
  · rw [if_pos hother] at hinside ⊢
    exact unwound_depth hinside
  · rw [if_neg hother] at hinside ⊢
    exact hinside

theorem unwinds_invocation (pin : Pin) (callee : Option (Callee Fn Ptr)) (henter : Unwinds enter)
    (hbody : Unwinds body) (hexit : Unwinds exit) : Unwinds (invocation pin callee enter body exit) := by
  have hinside := (unwinds_report .kInterruptEnter pin henter).andThen (unwinds_invoke callee hbody)
  have hcall := (unwinds_counted pin hinside).andThen (unwinds_report .kInterruptExit pin hexit)
  intro t other
  exact hcall t other

theorem unwinds_triggerInterrupt (pin : Int) (henter : Unwinds enter) (hbody : Unwinds body)
    (hexit : Unwinds exit) : Unwinds fun t => (triggerInterrupt pin enter body exit t).1 := by
  intro t other
  change ((triggerInterrupt pin enter body exit t).1.1.slot other).depth ≤ (t.slot other).depth
  obtain ⟨hnothing, -⟩ | ⟨tracked, callee, -, -, -, hcall⟩ := triggerInterrupt_cases pin enter body exit t
  · rw [hnothing]
    exact UInt8.le_refl _
  · rw [hcall]
    exact unwinds_invocation tracked (some callee) henter hbody hexit t other

theorem Program.unwinds (program : Program Fn Ptr) : Unwinds program.run := by
  induction program with
  | done =>
    intro t pin
    exact UInt8.le_refl _
  | attachInterrupt pin handler mode hook rest hhook hrest =>
    exact (unwinds_attach pin handler none none mode hhook).andThen hrest
  | attachInterruptArg pin handler arg mode hook rest hhook hrest =>
    exact (unwinds_attach pin none handler arg mode hhook).andThen hrest
  | detachInterrupt pin hook rest hhook hrest => exact (unwinds_detach pin hhook).andThen hrest
  | triggerInterrupt pin enter body exit rest henter hbody hexit hrest =>
    exact (unwinds_triggerInterrupt pin henter hbody hexit).andThen hrest
  | resetInterrupts rest hrest => exact unwinds_resetInterrupts.andThen hrest

end Depth

section Trace

/-- An Enter or an Exit, by the pin of the slot that is reported. -/
def Entry.bracket : Entry Fn Ptr → Option (Bracket Pin)
  | .report .kInterruptEnter slot => some (.opens slot.pin)
  | .report .kInterruptExit slot => some (.closes slot.pin)
  | _ => none

def brackets (log : List (Entry Fn Ptr)) : List (Bracket Pin) :=
  log.filterMap Entry.bracket

theorem brackets_append (before after : List (Entry Fn Ptr)) :
    brackets (before ++ after) = brackets before ++ brackets after := by
  simp [brackets]

theorem brackets_enter (slot : InterruptSlot Fn Ptr) (log : List (Entry Fn Ptr)) :
    brackets (.report .kInterruptEnter slot :: log) = .opens slot.pin :: brackets log := rfl

theorem brackets_exit (slot : InterruptSlot Fn Ptr) (log : List (Entry Fn Ptr)) :
    brackets (.report .kInterruptExit slot :: log) = .closes slot.pin :: brackets log := rfl

theorem brackets_invoke (callee : Callee Fn Ptr) (log : List (Entry Fn Ptr)) :
    brackets (.invoke callee :: log) = brackets log := rfl

def Entry.isEnter : Entry Fn Ptr → Bool
  | .report .kInterruptEnter _ => true
  | _ => false

def Entry.isInvoke : Entry Fn Ptr → Bool
  | .invoke _ => true
  | _ => false

/-- Code whose Enter and Exit events nest, with one handler called for each Enter. -/
structure Nests (code : Code Fn Ptr) : Prop where
  balanced : ∀ t, Bracket.Balanced (brackets (code t).2)
  handlers : ∀ t, (code t).2.countP Entry.isInvoke = (code t).2.countP Entry.isEnter

variable {first second hook enter body exit : Code Fn Ptr}

theorem Nests.andThen (hfirst : Nests first) (hsecond : Nests second) : Nests (first.andThen second) := by
  refine ⟨fun t => ?_, fun t => ?_⟩
  · change Bracket.Balanced (brackets ((first t).2 ++ (second (first t).1).2))
    rw [brackets_append]
    exact (hfirst.balanced t).append (hsecond.balanced _)
  · change ((first t).2 ++ (second (first t).1).2).countP Entry.isInvoke =
      ((first t).2 ++ (second (first t).1).2).countP Entry.isEnter
    rw [List.countP_append, List.countP_append, hfirst.handlers t, hsecond.handlers]

theorem nests_of_silent {code : Code Fn Ptr} (hsilent : ∀ t, (code t).2 = []) : Nests code := by
  refine ⟨fun t => ?_, fun t => ?_⟩
  · rw [hsilent t]
    exact Bracket.balanced_nil
  · rw [hsilent t]
    rfl

/-- The reports of an attach and a detach stand outside the nesting. -/
theorem nests_report {event : InterruptEvent} (pin : Pin) (hhook : Nests hook)
    (hevent : event = .kInterruptAttach ∨ event = .kInterruptDetach) : Nests (report event pin hook) := by
  obtain rfl | rfl := hevent
  · exact ⟨fun t => hhook.balanced t, fun t => hhook.handlers t⟩
  · exact ⟨fun t => hhook.balanced t, fun t => hhook.handlers t⟩

theorem nests_attach (pin : Pin) (handler handler_arg : Option Fn) (arg : Option Ptr) (mode : Int)
    (hhook : Nests hook) : Nests (attach pin handler handler_arg arg mode hook) := by
  have hreport := nests_report pin hhook (.inl rfl)
  unfold attach
  by_cases h : handler.isSome = true ∨ handler_arg.isSome = true
  · simp only [h, dite_true]
    exact ⟨fun t => hreport.balanced _, fun t => hreport.handlers _⟩
  · simp only [h, dite_false]
    exact nests_of_silent fun t => rfl

theorem nests_detach (pin : Pin) (hhook : Nests hook) : Nests (detach pin hook) := by
  have hreport := nests_report pin hhook (.inr rfl)
  refine ⟨fun t => ?_, fun t => ?_⟩
  · unfold detach
    split
    · exact hreport.balanced _
    · exact Bracket.balanced_nil
  · unfold detach
    split
    · exact hreport.handlers _
    · rfl

/-- What is told and done in an invocation, in order: the Enter of the pin and the hook's
    code, the handler and its code, the Exit of the pin and the hook's code. -/
theorem invocation_log (pin : Pin) (callee : Callee Fn Ptr) (enter body exit : Code Fn Ptr)
    (t : InterruptTable Fn Ptr) :
    ∃ t₁ t₂ t₃ : InterruptTable Fn Ptr,
      (invocation pin (some callee) enter body exit t).2 =
        .report .kInterruptEnter (t₁.slot pin) :: ((enter t₁).2 ++ .invoke callee ::
          ((body t₂).2 ++ .report .kInterruptExit (t₃.slot pin) :: (exit t₃).2)) :=
  ⟨_, _, _, rfl⟩

theorem nests_invocation (pin : Pin) (callee : Callee Fn Ptr) (henter : Nests enter) (hbody : Nests body)
    (hexit : Nests exit) : Nests (invocation pin (some callee) enter body exit) := by
  refine ⟨fun t => ?_, fun t => ?_⟩
  · obtain ⟨t₁, t₂, t₃, hlog⟩ := invocation_log pin callee enter body exit t
    have hinside := ((henter.balanced t₁).append (hbody.balanced t₂)).wrap pin
    have hall := hinside.append (hexit.balanced t₃)
    rw [hlog, brackets_enter, brackets_append, brackets_invoke, brackets_append, brackets_exit, t₁.pins, t₃.pins]
    simpa using hall
  · obtain ⟨t₁, t₂, t₃, hlog⟩ := invocation_log pin callee enter body exit t
    have h₁ := henter.handlers t₁
    have h₂ := hbody.handlers t₂
    have h₃ := hexit.handlers t₃
    rw [hlog]
    simp only [List.countP_cons, List.countP_append, Entry.isInvoke, Entry.isEnter]
    simp only [if_true, Bool.false_eq_true, if_false]
    omega

theorem nests_triggerInterrupt (pin : Int) (henter : Nests enter) (hbody : Nests body)
    (hexit : Nests exit) : Nests fun t => (triggerInterrupt pin enter body exit t).1 := by
  refine ⟨fun t => ?_, fun t => ?_⟩
  · obtain ⟨hnothing, -⟩ | ⟨tracked, callee, -, -, -, hcall⟩ := triggerInterrupt_cases pin enter body exit t
    · rw [hnothing]
      exact Bracket.balanced_nil
    · rw [hcall]
      exact (nests_invocation tracked callee henter hbody hexit).balanced t
  · obtain ⟨hnothing, -⟩ | ⟨tracked, callee, -, -, -, hcall⟩ := triggerInterrupt_cases pin enter body exit t
    · rw [hnothing]
      rfl
    · rw [hcall]
      exact (nests_invocation tracked callee henter hbody hexit).handlers t

theorem Program.nests (program : Program Fn Ptr) : Nests program.run := by
  induction program with
  | done => exact nests_of_silent fun t => rfl
  | attachInterrupt pin handler mode hook rest hhook hrest =>
    exact (nests_attach pin handler none none mode hhook).andThen hrest
  | attachInterruptArg pin handler arg mode hook rest hhook hrest =>
    exact (nests_attach pin none handler arg mode hhook).andThen hrest
  | detachInterrupt pin hook rest hhook hrest => exact (nests_detach pin hhook).andThen hrest
  | triggerInterrupt pin enter body exit rest henter hbody hexit hrest =>
    exact (nests_triggerInterrupt pin henter hbody hexit).andThen hrest
  | resetInterrupts rest hrest => exact (nests_of_silent fun t => rfl).andThen hrest

end Trace

/-- Whatever finite code the handlers and the hook run, on whatever table: a trigger
    leaves no pin's depth larger than it was; code that begins with every depth at 0
    ends so; its Enter and Exit events nest, with as many handlers called as there are
    Enters; and a trigger that returns true has called one handler between its Enter and
    its Exit, the one that the pin had registered when the call was made. -/
theorem interrupts_nest (Fn Ptr : Type) :
    (∀ (pin : Int) (enter body exit : Program Fn Ptr) (t : InterruptTable Fn Ptr) (other : Pin),
      ((triggerInterrupt pin enter.run body.run exit.run t).1.1.slot other).depth ≤ (t.slot other).depth) ∧
    (∀ (program : Program Fn Ptr) (t : InterruptTable Fn Ptr), (∀ pin, (t.slot pin).depth = 0) →
      ∀ pin, ((program.run t).1.slot pin).depth = 0) ∧
    (∀ (program : Program Fn Ptr) (t : InterruptTable Fn Ptr),
      Bracket.Balanced (brackets (program.run t).2) ∧
        (program.run t).2.countP Entry.isInvoke = (program.run t).2.countP Entry.isEnter) ∧
    (∀ (pin : Int) (enter body exit : Program Fn Ptr) (t : InterruptTable Fn Ptr),
      (triggerInterrupt pin enter.run body.run exit.run t).2 = true →
        ∃ tracked callee, inRange pin = some tracked ∧ (t.slot tracked).callee = some callee ∧
          ∃ t₁ t₂ t₃ : InterruptTable Fn Ptr,
            (triggerInterrupt pin enter.run body.run exit.run t).1.2 =
              .report .kInterruptEnter (t₁.slot tracked) :: ((enter.run t₁).2 ++ .invoke callee ::
                ((body.run t₂).2 ++ .report .kInterruptExit (t₃.slot tracked) :: (exit.run t₃).2))) := by
  refine ⟨?_, ?_, ?_, ?_⟩
  · intro pin enter body exit t other
    exact unwinds_triggerInterrupt pin enter.unwinds body.unwinds exit.unwinds t other
  · intro program t hzero pin
    have hle := program.unwinds t pin
    rw [hzero pin, UInt8.le_iff_toNat_le] at hle
    exact UInt8.toNat_inj.mp (Nat.le_zero.mp hle)
  · intro program t
    exact ⟨program.nests.balanced t, program.nests.handlers t⟩
  · intro pin enter body exit t hreturns
    obtain ⟨hnothing, -⟩ | ⟨tracked, callee, hrange, -, hcallee, hcall⟩ :=
      triggerInterrupt_cases pin enter.run body.run exit.run t
    · rw [hnothing] at hreturns
      cases hreturns
    · rw [hcall]
      exact ⟨tracked, callee, hrange, hcallee, invocation_log tracked callee enter.run body.run exit.run t⟩

end HostArduino.interrupt
