import HostArduino.Interrupt.Invocation

namespace HostArduino.interrupt

open bus Lib

variable {Fn Ptr : Type}

def Code.done : Code Fn Ptr := fun t => (t, [])

/-- Code that never clears the table, whatever its handlers and hooks do. -/
def Program.NoReset : Program Fn Ptr → Prop
  | .done => True
  | .attachInterrupt _ _ _ hook rest => hook.NoReset ∧ rest.NoReset
  | .attachInterruptArg _ _ _ _ hook rest => hook.NoReset ∧ rest.NoReset
  | .detachInterrupt _ hook rest => hook.NoReset ∧ rest.NoReset
  | .triggerInterrupt _ enter body exit rest =>
    enter.NoReset ∧ body.NoReset ∧ exit.NoReset ∧ rest.NoReset
  | .resetInterrupts _ => False

/-- No trigger of an attached pin is made while 255 calls on that pin are active.
    `active` are the pins of the calls that are, the innermost first. -/
def Program.Shallow : Program Fn Ptr → List Pin → InterruptTable Fn Ptr → Prop
  | .done, _, _ => True
  | .attachInterrupt pin handler mode hook rest, active, t =>
    (handler.isSome = true →
        hook.Shallow active (interrupt.attachInterrupt pin handler mode .done t).1) ∧
      rest.Shallow active (interrupt.attachInterrupt pin handler mode hook.run t).1
  | .attachInterruptArg pin handler arg mode hook rest, active, t =>
    (handler.isSome = true →
        hook.Shallow active (interrupt.attachInterruptArg pin handler arg mode .done t).1) ∧
      rest.Shallow active (interrupt.attachInterruptArg pin handler arg mode hook.run t).1
  | .detachInterrupt pin hook rest, active, t =>
    ((t.slot pin).attached = true → hook.Shallow active (interrupt.detachInterrupt pin .done t).1) ∧
      rest.Shallow active (interrupt.detachInterrupt pin hook.run t).1
  | .triggerInterrupt pin enter body exit rest, active, t =>
    (∀ tracked, inRange pin = some tracked → (t.slot tracked).attached = true →
      let t₁ := (countIn tracked t).1
      let t₂ := (enter.run t₁).1
      let t₃ := (countOut tracked (body.run t₂).1).1
      active.count tracked < 255 ∧ enter.Shallow (tracked :: active) t₁ ∧
        body.Shallow (tracked :: active) t₂ ∧ exit.Shallow active t₃) ∧
      rest.Shallow active (interrupt.triggerInterrupt pin enter.run body.run exit.run t).1.1
  | .resetInterrupts rest, active, _ => rest.Shallow active .reset

/-- Every Enter and every Exit shows, as the depth of its slot, how many calls on its
    pin are active then: those of `active` and those the log has opened and not closed,
    the one entering among them and the one exiting not. -/
def DepthShown (active : List Pin) (log : List (Entry Fn Ptr)) : Prop :=
  ∀ pre event slot post, log = pre ++ .report event slot :: post →
    event = .kInterruptEnter ∨ event = .kInterruptExit →
    ∀ now, Bracket.follow active (brackets (pre ++ [.report event slot])) = some now →
      slot.depth.toNat = now.count slot.pin

/-- The depths of the table are the numbers of active calls. -/
def Counted (t : InterruptTable Fn Ptr) (active : List Pin) : Prop :=
  ∀ pin, (t.slot pin).depth.toNat = active.count pin

section Shown

variable {active : List Pin} {log before after : List (Entry Fn Ptr)}

theorem depthShown_nil : DepthShown active ([] : List (Entry Fn Ptr)) := by
  intro pre event slot post hlog
  simp at hlog

theorem depthShown_cons (entry : Entry Fn Ptr) :
    DepthShown active (entry :: log) ↔
      (∀ event slot, entry = .report event slot → event = .kInterruptEnter ∨ event = .kInterruptExit →
        ∀ now, Bracket.follow active (brackets [entry]) = some now → slot.depth.toNat = now.count slot.pin) ∧
      ∀ now, Bracket.follow active (brackets [entry]) = some now → DepthShown now log := by
  constructor
  · intro h
    refine ⟨?_, ?_⟩
    · rintro event slot rfl hevent now hnow
      exact h [] event slot log rfl hevent now hnow
    · rintro now hnow pre event slot post rfl hevent later hlater
      refine h (entry :: pre) event slot post rfl hevent later ?_
      rw [List.cons_append, ← List.singleton_append, brackets_append, Bracket.follow_append, hnow]
      exact hlater
  · rintro ⟨hhead, htail⟩ pre event slot post hlog hevent now hnow
    cases pre with
    | nil =>
      obtain ⟨rfl, rfl⟩ := List.cons.inj hlog
      exact hhead event slot rfl hevent now hnow
    | cons first pre =>
      obtain ⟨rfl, rfl⟩ := List.cons.inj hlog
      rw [List.cons_append, ← List.singleton_append, brackets_append, Bracket.follow_append] at hnow
      obtain ⟨middle, hmiddle, hrest⟩ := Option.bind_eq_some_iff.mp hnow
      exact htail middle hmiddle pre event slot post rfl hevent now hrest

theorem depthShown_event {event : InterruptEvent} {slot : InterruptSlot Fn Ptr} {now : List Pin}
    (hevent : event = .kInterruptEnter ∨ event = .kInterruptExit)
    (hfollow : Bracket.follow active (brackets [Entry.report event slot]) = some now) :
    DepthShown active (.report event slot :: log) ↔
      slot.depth.toNat = now.count slot.pin ∧ DepthShown now log := by
  rw [depthShown_cons, hfollow]
  simp only [Option.some.injEq, forall_eq', Entry.report.injEq]
  refine and_congr_left fun _ => ⟨fun h => h event slot ⟨rfl, rfl⟩ hevent, ?_⟩
  rintro hdepth event' slot' ⟨rfl, rfl⟩ -
  exact hdepth

theorem depthShown_enter {slot : InterruptSlot Fn Ptr} {pin : Pin} (hpin : slot.pin = pin) :
    DepthShown active (.report .kInterruptEnter slot :: log) ↔
      slot.depth.toNat = (pin :: active).count pin ∧ DepthShown (pin :: active) log := by
  subst hpin
  exact depthShown_event (.inl rfl) rfl

theorem depthShown_exit {slot : InterruptSlot Fn Ptr} {pin : Pin} (hpin : slot.pin = pin) :
    DepthShown (pin :: active) (.report .kInterruptExit slot :: log) ↔
      slot.depth.toNat = active.count pin ∧ DepthShown active log := by
  subst hpin
  apply depthShown_event (.inr rfl)
  simp [brackets, Entry.bracket, Bracket.follow]

/-- Attaches, detaches and handler calls stand outside the count. -/
theorem depthShown_silent {entry : Entry Fn Ptr} (hentry : entry.bracket = none) :
    DepthShown active (entry :: log) ↔ DepthShown active log := by
  have hfollow : Bracket.follow active (brackets [entry]) = some active := by
    simp [brackets, hentry, Bracket.follow]
  rw [depthShown_cons, hfollow]
  simp only [Option.some.injEq, forall_eq']
  refine and_iff_right ?_
  rintro event slot rfl (rfl | rfl)
  · cases hentry
  · cases hentry

theorem depthShown_append_of_follow {now : List Pin}
    (hfollow : Bracket.follow active (brackets before) = some now) :
    DepthShown active (before ++ after) ↔ DepthShown active before ∧ DepthShown now after := by
  induction before generalizing active with
  | nil =>
    obtain rfl : active = now := Option.some.inj hfollow
    simp [depthShown_nil]
  | cons entry before ih =>
    rw [← List.singleton_append, brackets_append, Bracket.follow_append] at hfollow
    obtain ⟨middle, hmiddle, hrest⟩ := Option.bind_eq_some_iff.mp hfollow
    rw [List.cons_append, depthShown_cons, depthShown_cons, and_assoc]
    refine and_congr_right fun _ => ?_
    simp only [hmiddle, Option.some.injEq, forall_eq']
    exact ih hrest

theorem depthShown_append (hbalanced : Bracket.Balanced (brackets before)) :
    DepthShown active (before ++ after) ↔ DepthShown active before ∧ DepthShown active after :=
  depthShown_append_of_follow (hbalanced active)

end Shown

/-- Run from a table that counts the active calls, the code shows their number at each
    event exactly when the condition holds, and then leaves the table counting them. -/
structure Tracks (code : Code Fn Ptr) (shallow : List Pin → InterruptTable Fn Ptr → Prop) : Prop where
  shown : ∀ active t, Counted t active → (DepthShown active (code t).2 ↔ shallow active t)
  counted : ∀ active t, Counted t active → shallow active t → Counted (code t).1 active

section Tracks

variable {first second hook enter body exit : Code Fn Ptr}
  {shallow shallow' within : List Pin → InterruptTable Fn Ptr → Prop}

theorem Tracks.congr (h : Tracks first shallow) (hiff : ∀ active t, shallow active t ↔ shallow' active t) :
    Tracks first shallow' where
  shown active t hcounted := (h.shown active t hcounted).trans (hiff active t)
  counted active t hcounted hshallow := h.counted active t hcounted ((hiff active t).mpr hshallow)

theorem tracks_done : Tracks (Code.done : Code Fn Ptr) fun _ _ => True where
  shown _ _ _ := iff_of_true depthShown_nil trivial
  counted _ _ hcounted _ := hcounted

theorem Tracks.andThen (hfirst : Tracks first shallow) (hsecond : Tracks second shallow')
    (hnests : Nests first) :
    Tracks (first.andThen second) fun active t => shallow active t ∧ shallow' active (first t).1 where
  shown active t hcounted := by
    change DepthShown active ((first t).2 ++ (second (first t).1).2) ↔ _
    rw [depthShown_append (hnests.balanced t), hfirst.shown active t hcounted]
    refine and_congr_right fun hshallow => ?_
    exact hsecond.shown active _ (hfirst.counted active t hcounted hshallow)
  counted active t hcounted hshallow :=
    hsecond.counted active _ (hfirst.counted active t hcounted hshallow.1) hshallow.2

theorem Counted.modify {t : InterruptTable Fn Ptr} {active : List Pin} (h : Counted t active) (pin : Pin)
    {f : InterruptSlot Fn Ptr → InterruptSlot Fn Ptr} (hpin : ∀ slot, (f slot).pin = slot.pin)
    (hdepth : (f (t.slot pin)).depth = (t.slot pin).depth) : Counted (t.modify pin f hpin) active := by
  intro other
  rw [modify_depth pin other hpin hdepth]
  exact h other

theorem tracks_report {event : InterruptEvent} (pin : Pin) (hhook : Tracks hook within)
    (hevent : event = .kInterruptAttach ∨ event = .kInterruptDetach) :
    Tracks (report event pin hook) within where
  shown active t hcounted := by
    refine Iff.trans ?_ (hhook.shown active t hcounted)
    obtain rfl | rfl := hevent
    · exact depthShown_silent rfl
    · exact depthShown_silent rfl
  counted active t hcounted hshallow := hhook.counted active t hcounted hshallow

/-- Code that changes a table no count depends on and then reports it, or else does
    nothing at all. `quiet` is the same code with a hook that does nothing. -/
theorem tracks_registration (event : InterruptEvent) {code quiet : Code Fn Ptr} (pin : Pin)
    {reports : InterruptTable Fn Ptr → Prop}
    (hhook : Tracks hook within) (hevent : event = .kInterruptAttach ∨ event = .kInterruptDetach)
    (hcode : ∀ t, reports t → code t = report event pin hook (quiet t).1)
    (hnothing : ∀ t, ¬reports t → code t = (t, []))
    (hquiet : ∀ t active, Counted t active → Counted (quiet t).1 active) :
    Tracks code fun active t => reports t → within active (quiet t).1 := by
  have hreport := tracks_report pin hhook hevent
  refine ⟨fun active t hcounted => ?_, fun active t hcounted hshallow => ?_⟩
  · by_cases h : reports t
    · rw [hcode t h, hreport.shown active _ (hquiet t active hcounted)]
      exact (true_imp_iff.symm.trans (imp_congr_left (iff_true_intro h).symm))
    · rw [hnothing t h]
      exact iff_of_true depthShown_nil fun hreports => absurd hreports h
  · by_cases h : reports t
    · rw [hcode t h]
      exact hreport.counted active _ (hquiet t active hcounted) (hshallow h)
    · rw [hnothing t h]
      exact hcounted

theorem report_done (event : InterruptEvent) (pin : Pin) (t : InterruptTable Fn Ptr) :
    (report event pin .done t).1 = t := rfl

theorem tracks_attach (pin : Pin) (handler handler_arg : Option Fn) (arg : Option Ptr) (mode : Int)
    (hhook : Tracks hook within) :
    Tracks (attach pin handler handler_arg arg mode hook) fun active t =>
      handler.isSome = true ∨ handler_arg.isSome = true →
        within active (attach pin handler handler_arg arg mode .done t).1 := by
  apply tracks_registration .kInterruptAttach pin hhook (.inl rfl)
  · intro t h
    simp only [attach, h, dite_true]
    rfl
  · intro t h
    simp only [attach, h, dite_false]
  · intro t active hcounted
    unfold attach
    split
    · rw [report_done]
      exact hcounted.modify pin _ rfl
    · exact hcounted

theorem tracks_detach (pin : Pin) (hhook : Tracks hook within) :
    Tracks (detach pin hook) fun active t =>
      (t.slot pin).attached = true → within active (detach pin .done t).1 := by
  apply tracks_registration .kInterruptDetach pin hhook (.inr rfl)
  · intro t h
    simp only [detach, h, if_true]
    rfl
  · intro t h
    exact if_neg h
  · intro t active hcounted
    unfold detach
    split
    · rw [report_done]
      exact hcounted.modify pin _ rfl
    · exact hcounted

/-- Counting in keeps the table counting as long as the 8 bits have room for the call. -/
theorem Counted.countIn {t : InterruptTable Fn Ptr} {active : List Pin} (h : Counted t active) {pin : Pin}
    (hroom : active.count pin < 255) : Counted (countIn pin t).1 (pin :: active) := by
  intro other
  rw [countIn_depth]
  by_cases hother : other = pin
  · subst hother
    have hdepth := h other
    rw [if_pos rfl, List.count_cons_self, UInt8.toNat_add, hdepth]
    change (active.count other + 1) % 256 = _
    omega
  · rw [if_neg hother, List.count_cons_of_ne (Ne.symm hother)]
    exact h other

/-- The 256th call on a pin wraps its depth to 0. -/
theorem countIn_wraps {t : InterruptTable Fn Ptr} {active : List Pin} (h : Counted t active) {pin : Pin}
    (hfull : ¬active.count pin < 255) :
    (((countIn pin t).1.slot pin).depth).toNat ≠ (pin :: active).count pin := by
  have hdepth := h pin
  have hbound := (t.slot pin).depth.toNat_lt
  rw [countIn_depth, if_pos rfl, List.count_cons_self, UInt8.toNat_add, hdepth]
  change (active.count pin + 1) % 256 ≠ _
  omega

theorem Counted.countOut {t : InterruptTable Fn Ptr} {active : List Pin} {pin : Pin}
    (h : Counted t (pin :: active)) : Counted (countOut pin t).1 active := by
  intro other
  have hdepth := h other
  rw [countOut_depth]
  by_cases hother : other = pin
  · subst hother
    rw [List.count_cons_self] at hdepth
    have hpos : 0 < (t.slot other).depth := by
      rw [UInt8.lt_iff_toNat_lt, hdepth]
      exact Nat.succ_pos _
    rw [if_pos rfl, if_pos hpos, UInt8.toNat_sub_of_le _ _ (UInt8.le_iff_toNat_le.mpr ?_), hdepth]
    · rfl
    · rw [hdepth]
      exact Nat.succ_le_succ (Nat.zero_le _)
  · rw [List.count_cons_of_ne (Ne.symm hother)] at hdepth
    rw [if_neg hother]
    exact hdepth

/-- An invocation shows its own count when there is room for it, and never when there
    is not. What its hook and its handler do is one level deeper, up to its Exit. -/
theorem tracks_invocation (pin : Pin) (callee : Callee Fn Ptr)
    {shallow_enter shallow_body shallow_exit : List Pin → InterruptTable Fn Ptr → Prop}
    (henter : Tracks enter shallow_enter) (hbody : Tracks body shallow_body)
    (hexit : Tracks exit shallow_exit) (hnests_enter : Nests enter) (hnests_body : Nests body) :
    Tracks (invocation pin (some callee) enter body exit) fun active t =>
      let t₁ := (countIn pin t).1
      let t₂ := (enter t₁).1
      let t₃ := (countOut pin (body t₂).1).1
      active.count pin < 255 ∧ shallow_enter (pin :: active) t₁ ∧ shallow_body (pin :: active) t₂ ∧
        shallow_exit active t₃ := by
  refine ⟨fun active t hcounted => ?_, fun active t hcounted hshallow => ?_⟩
  · have hlog : (invocation pin (some callee) enter body exit t).2 =
        .report .kInterruptEnter ((countIn pin t).1.slot pin) :: ((enter (countIn pin t).1).2 ++
          .invoke callee :: ((body (enter (countIn pin t).1).1).2 ++
            .report .kInterruptExit ((countOut pin (body (enter (countIn pin t).1).1).1).1.slot pin) ::
              (exit (countOut pin (body (enter (countIn pin t).1).1).1).1).2)) := rfl
    have hpin : ∀ t' : InterruptTable Fn Ptr, (t'.slot pin).pin = pin := fun t' => t'.pins pin
    rw [hlog, depthShown_enter (hpin _), depthShown_append (hnests_enter.balanced _),
      depthShown_silent rfl, depthShown_append (hnests_body.balanced _), depthShown_exit (hpin _)]
    by_cases hroom : active.count pin < 255
    · have hin := hcounted.countIn hroom
      refine and_congr (iff_of_true (hin pin) hroom) ?_
      rw [henter.shown _ _ hin]
      refine and_congr_right fun hshallow_enter => ?_
      have hentered := henter.counted _ _ hin hshallow_enter
      rw [hbody.shown _ _ hentered]
      refine and_congr_right fun hshallow_body => ?_
      have hout := (hbody.counted _ _ hentered hshallow_body).countOut
      rw [hexit.shown _ _ hout]
      exact and_iff_right (hout pin)
    · exact iff_of_false (fun h => countIn_wraps hcounted hroom h.1) fun h => hroom h.1
  · obtain ⟨hroom, hshallow_enter, hshallow_body, hshallow_exit⟩ := hshallow
    have hentered := henter.counted _ _ (hcounted.countIn hroom) hshallow_enter
    have hout := (hbody.counted _ _ hentered hshallow_body).countOut
    exact hexit.counted _ _ hout hshallow_exit

theorem tracks_triggerInterrupt (pin : Int)
    {shallow_enter shallow_body shallow_exit : List Pin → InterruptTable Fn Ptr → Prop}
    (henter : Tracks enter shallow_enter) (hbody : Tracks body shallow_body)
    (hexit : Tracks exit shallow_exit) (hnests_enter : Nests enter) (hnests_body : Nests body) :
    Tracks (fun t => (triggerInterrupt pin enter body exit t).1) fun active t =>
      ∀ tracked, inRange pin = some tracked → (t.slot tracked).attached = true →
        let t₁ := (countIn tracked t).1
        let t₂ := (enter t₁).1
        let t₃ := (countOut tracked (body t₂).1).1
        active.count tracked < 255 ∧ shallow_enter (tracked :: active) t₁ ∧
          shallow_body (tracked :: active) t₂ ∧ shallow_exit active t₃ := by
  have hinvocation := fun tracked callee =>
    tracks_invocation tracked callee henter hbody hexit hnests_enter hnests_body
  refine ⟨fun active t hcounted => ?_, fun active t hcounted hshallow => ?_⟩
  · obtain ⟨hresult, hnothing⟩ | ⟨tracked, callee, hrange, hattached, -, hcall⟩ :=
      triggerInterrupt_cases pin enter body exit t
    · rw [hresult]
      refine iff_of_true depthShown_nil fun tracked hrange hattached => ?_
      rw [hnothing tracked hrange] at hattached
      cases hattached
    · rw [hcall, (hinvocation tracked callee).shown active t hcounted]
      refine ⟨fun hshallow other hother _ => ?_, fun hshallow => hshallow tracked hrange hattached⟩
      obtain rfl : tracked = other := Option.some.inj (hrange.symm.trans hother)
      exact hshallow
  · obtain ⟨hresult, -⟩ | ⟨tracked, callee, hrange, hattached, -, hcall⟩ :=
      triggerInterrupt_cases pin enter body exit t
    · rw [hresult]
      exact hcounted
    · rw [hcall]
      exact (hinvocation tracked callee).counted active t hcounted (hshallow tracked hrange hattached)

end Tracks

theorem Program.tracks (program : Program Fn Ptr) (hreset : program.NoReset) :
    Tracks program.run program.Shallow := by
  induction program with
  | done => exact tracks_done
  | attachInterrupt pin handler mode hook rest hhook hrest =>
    have hnests := nests_attach pin handler none none mode hook.nests
    have hattach := tracks_attach pin handler none none mode (hhook hreset.1)
    refine (hattach.andThen (hrest hreset.2) hnests).congr fun active t => ?_
    refine and_congr (imp_congr_left ?_) Iff.rfl
    simp
  | attachInterruptArg pin handler arg mode hook rest hhook hrest =>
    have hnests := nests_attach pin none handler arg mode hook.nests
    have hattach := tracks_attach pin none handler arg mode (hhook hreset.1)
    refine (hattach.andThen (hrest hreset.2) hnests).congr fun active t => ?_
    refine and_congr (imp_congr_left ?_) Iff.rfl
    simp
  | detachInterrupt pin hook rest hhook hrest =>
    exact (tracks_detach pin (hhook hreset.1)).andThen (hrest hreset.2) (nests_detach pin hook.nests)
  | triggerInterrupt pin enter body exit rest henter hbody hexit hrest =>
    obtain ⟨hreset_enter, hreset_body, hreset_exit, hreset_rest⟩ := hreset
    exact (tracks_triggerInterrupt pin (henter hreset_enter) (hbody hreset_body) (hexit hreset_exit)
      enter.nests body.nests).andThen (hrest hreset_rest)
      (nests_triggerInterrupt pin enter.nests body.nests exit.nests)
  | resetInterrupts rest hrest => exact hreset.elim

section SelfTrigger

/-- A handler that triggers its own pin again, `n` calls deep. -/
def selfTrigger (pin : Pin) : Nat → Program Fn Ptr
  | 0 => .done
  | n + 1 => .triggerInterrupt pin.val .done (selfTrigger pin n) .done .done

theorem inRange_val (pin : Pin) : inRange pin.val = some pin := by
  have hrange : 0 ≤ (pin.val : Int) ∧ (pin.val : Int).toNat < kGpioPinCount :=
    ⟨Int.natCast_nonneg _, pin.isLt⟩
  exact dif_pos hrange

theorem selfTrigger_noReset (pin : Pin) (n : Nat) : (selfTrigger pin n : Program Fn Ptr).NoReset := by
  induction n with
  | zero => trivial
  | succ n ih => exact ⟨trivial, ih, trivial, trivial⟩

theorem countIn_attached (pin : Pin) (t : InterruptTable Fn Ptr) :
    ((countIn pin t).1.slot pin).attached = (t.slot pin).attached := by
  simp [countIn, modify_slot_self]

theorem selfTrigger_shallow_iff (pin : Pin) (n : Nat) (active : List Pin) (t : InterruptTable Fn Ptr)
    (hattached : (t.slot pin).attached = true) :
    (selfTrigger pin n).Shallow active t ↔ n = 0 ∨ active.count pin + n ≤ 255 := by
  induction n generalizing t active with
  | zero => exact iff_of_true trivial (.inl rfl)
  | succ n ih =>
    have hinner := ih (pin :: active) (countIn pin t).1 ((countIn_attached pin t).trans hattached)
    rw [List.count_cons_self] at hinner
    have hcall : (selfTrigger pin (n + 1)).Shallow active t ↔
        active.count pin < 255 ∧ (selfTrigger pin n).Shallow (pin :: active) (countIn pin t).1 := by
      constructor
      · rintro ⟨htrigger, -⟩
        obtain ⟨hroom, -, hbody, -⟩ := htrigger pin (inRange_val pin) hattached
        exact ⟨hroom, hbody⟩
      · rintro ⟨hroom, hbody⟩
        refine ⟨fun tracked htracked _ => ?_, trivial⟩
        obtain rfl : pin = tracked := Option.some.inj ((inRange_val pin).symm.trans htracked)
        exact ⟨hroom, trivial, hbody, trivial⟩
    rw [hcall, hinner]
    omega

/-- Attaches a handler that triggers its own pin, and triggers it. -/
def nested (pin : Pin) (n : Nat) : Program Unit Unit :=
  .attachInterrupt pin (some ()) RISING .done (selfTrigger pin n)

theorem nested_noReset (pin : Pin) (n : Nat) : (nested pin n).NoReset :=
  ⟨trivial, selfTrigger_noReset pin n⟩

theorem nested_shallow_iff (pin : Pin) (n : Nat) : (nested pin n).Shallow [] .reset ↔ n ≤ 255 := by
  have hattached : ((interrupt.attachInterrupt pin (some ()) RISING .done
      (.reset : InterruptTable Unit Unit)).1.slot pin).attached = true := by
    have hhandler : (some ()).isSome = true ∨ (none : Option Unit).isSome = true := .inl rfl
    simp only [interrupt.attachInterrupt, attach, hhandler, dite_true, report_done, modify_slot_self]
  have hnested : (nested pin n).Shallow [] .reset ↔ n = 0 ∨ [].count pin + n ≤ 255 :=
    (and_iff_right fun _ => trivial).trans (selfTrigger_shallow_iff pin n [] _ hattached)
  rw [hnested, List.count_nil]
  omega

end SelfTrigger

/-- Code that does not clear the table, run when no call is active, shows at every Enter
    how many calls on the pin are active, this one included, and at every Exit how many
    still are, exactly when none of its calls is the 256th active one on its pin. -/
theorem depths_shown_iff (program : Program Fn Ptr) (t : InterruptTable Fn Ptr)
    (hreset : program.NoReset) (hzero : ∀ pin, (t.slot pin).depth = 0) :
    DepthShown [] (program.run t).2 ↔ program.Shallow [] t := by
  refine (program.tracks hreset).shown [] t fun pin => ?_
  rw [hzero pin]
  rfl

theorem depths_shown_nested : DepthShown [] ((nested 4 255).run .reset).2 := by
  have hiff := depths_shown_iff (nested 4 255) .reset (nested_noReset 4 255) fun _ => rfl
  rw [hiff, nested_shallow_iff]

/-- Of 256 calls of one handler inside each other, not every one is shown at its own depth. -/
theorem depth_wraps :
    (nested 4 256).NoReset ∧
      (∀ pin, ((InterruptTable.reset : InterruptTable Unit Unit).slot pin).depth = 0) ∧
      ¬DepthShown [] ((nested 4 256).run .reset).2 := by
  refine ⟨nested_noReset 4 256, fun _ => rfl, fun hshown => ?_⟩
  have htracks := (nested 4 256).tracks (nested_noReset 4 256)
  have hshallow := (htracks.shown [] .reset fun _ => rfl).mp hshown
  rw [nested_shallow_iff] at hshallow
  omega

end HostArduino.interrupt
