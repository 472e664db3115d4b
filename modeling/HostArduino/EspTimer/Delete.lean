import HostArduino.EspTimer.Timer

namespace HostArduino.esp_timer

open Lib.CondVar

/-- How far `~Timer` has come: what it has stored, whether it has notified, and whether
    it has found a thread to join. -/
inductive Destructor where
  | alive
  | stopRequested
  | stopped
  | notified
  | join
  | deleted
  deriving DecidableEq, Repr

structure DeletionState where
  state : TimerState
  destructor : Destructor
  deriving DecidableEq, Repr

def DeletionState.create (clock : Nat) : DeletionState where
  state := esp_timer_create clock
  destructor := .alive

/-- The next step of `esp_timer_delete`, none of which takes the lock. -/
def DeletionState.esp_timer_delete (s : DeletionState) : Option DeletionState :=
  match s.destructor with
  | .alive =>
    some { state := { s.state with timer := { s.state.timer with stop_requested := true } }
           destructor := .stopRequested }
  | .stopRequested =>
    some { state := { s.state with timer := { s.state.timer with running := false } }
           destructor := .stopped }
  | .stopped => some { state := s.state.goto s.state.thread.notify, destructor := .notified }
  | .notified => some { s with destructor := if s.state.thread = .unstarted then .deleted else .join }
  | .join => if s.state.thread = .exited then some { s with destructor := .deleted } else none
  | .deleted => none

inductive DeletionEvent where
  | timer (e : TimerEvent)
  | esp_timer_delete
  deriving DecidableEq, Repr

def DeletionState.step (s : DeletionState) : DeletionEvent → Option DeletionState
  | .timer e =>
    if s.destructor = .deleted then none
    else (s.state.step e).map fun state => { s with state := state }
  | .esp_timer_delete => s.esp_timer_delete

def deletionMachine : Lib.EventMachine DeletionState DeletionEvent where
  step := DeletionState.step

/-- The destructor joins a thread that is blocked for good: the wait has no time limit
    and no call is left that would notify. -/
def Deadlocked (s : DeletionState) : Prop :=
  s.destructor = .join ∧ s.state.thread = .wait .idle .blocked ∧ s.state.notifying = 0

instance (s : DeletionState) : Decidable (Deadlocked s) :=
  inferInstanceAs (Decidable (_ ∧ _ ∧ _))

/-- The destructor does not notify between the thread's test of its predicate and its blocking. -/
def NotifiesOutsideWindow (s : DeletionState) : DeletionEvent → Prop
  | .esp_timer_delete => s.destructor = .stopped → s.state.thread ≠ .wait .idle .block
  | .timer _ => True

/-- The thread cannot block in the idle wait any more. -/
def CannotBlock (thread : RunLoop) : Prop :=
  ∀ stage, thread = .wait .idle stage → stage.Awake

theorem cannotBlock_of_ne {thread : RunLoop} (hne : ∀ stage, thread ≠ .wait .idle stage) :
    CannotBlock thread := fun stage hthread => absurd hthread (hne stage)

structure Heard (s : DeletionState) : Prop where
  requested : s.destructor ≠ .alive → s.state.timer.stop_requested = true
  awake : s.destructor = .notified ∨ s.destructor = .join → CannotBlock s.state.thread

variable {s s' : TimerState}

theorem Moves.cannotBlock {a b : RunLoop} (hmoves : Moves s a b) (hstop : s.timer.stop_requested = true)
    (h : CannotBlock a) : CannotBlock b := by
  cases hmoves with
  | idle =>
    intro stage hthread
    cases hthread
    exact .inl rfl
  | @stage w stage stage' hnext =>
    intro stage'' hthread
    cases hthread
    have hpredicate : Wait.predicate s.timer .idle = true := by
      simp [Wait.predicate, hstop]
    rw [hpredicate] at hnext
    exact (h stage rfl).next hnext
  | _ => exact cannotBlock_of_ne nofun

theorem Stirs.cannotBlock {a b : RunLoop} (hstirs : Stirs a b) (h : CannotBlock a) : CannotBlock b := by
  cases hstirs with
  | wake =>
    intro stage hthread
    cases hthread
    exact .inr rfl
  | expire => exact cannotBlock_of_ne nofun
  | none => exact h

theorem cannotBlock_ensure_thread {thread : RunLoop} (h : CannotBlock thread) :
    CannotBlock (ensure_thread thread) := by
  cases thread with
  | unstarted => exact cannotBlock_of_ne nofun
  | _ => exact h

theorem cannotBlock_finished {periodic : Bool} {period : UInt64} :
    CannotBlock (s.finished periodic period).thread := by
  unfold TimerState.finished
  split <;> exact cannotBlock_of_ne nofun

theorem cannotBlock_call (call : TimerCall) (h : CannotBlock s.thread) :
    CannotBlock (s.call call).thread := by
  cases call with
  | esp_timer_start_once timeout_us => exact cannotBlock_ensure_thread h
  | esp_timer_start_periodic period_us =>
    by_cases hzero : period_us = 0
    · simpa [TimerState.call, TimerState.esp_timer_start_periodic, hzero] using h
    · simp only [TimerState.call, TimerState.esp_timer_start_periodic, hzero, if_false]
      exact cannotBlock_ensure_thread h
  | esp_timer_stop => exact h

/-- A thread that is asked to stop and awake does not block again. -/
theorem cannotBlock_step {e : TimerEvent} (hstep : TimerStep s e s')
    (hstop : s.timer.stop_requested = true) (h : CannotBlock s.thread) : CannotBlock s'.thread := by
  cases hstep with
  | advance us => exact h
  | run_loop hrun =>
    cases hrun with
    | moves hmoves => exact hmoves.cannotBlock hstop h
    | decides => exact cannotBlock_of_ne nofun
    | begins => exact cannotBlock_of_ne nofun
    | finishes => exact cannotBlock_finished
  | stirs hother hstirs => exact hstirs.cannotBlock h
  | call call hlock => exact cannotBlock_call call h

/-- Only the destructor writes `stop_requested`. -/
theorem stop_requested_step {e : TimerEvent} (hstep : TimerStep s e s') :
    s'.timer.stop_requested = s.timer.stop_requested := by
  cases hstep with
  | advance us => rfl
  | run_loop hrun =>
    cases hrun with
    | finishes =>
      unfold TimerState.finished
      split <;> rfl
    | _ => rfl
  | stirs => rfl
  | call call =>
    cases call with
    | esp_timer_start_periodic period_us =>
      simp only [TimerState.call, TimerState.esp_timer_start_periodic]
      split <;> rfl
    | _ => rfl

theorem cannotBlock_notify {thread : RunLoop} (hwindow : thread ≠ .wait .idle .block) :
    CannotBlock thread.notify := by
  intro stage hthread
  cases thread with
  | wait w before =>
    obtain ⟨rfl, rfl⟩ : w = .idle ∧ before.notify = stage := by
      simpa [RunLoop.notify] using hthread
    refine Stage.awake_notify ?_
    rintro rfl
    exact hwindow rfl
  | _ => cases hthread

theorem heard_delete {s s' : DeletionState} (h : Heard s)
    (hwindow : NotifiesOutsideWindow s .esp_timer_delete) (hstep : s.esp_timer_delete = some s') :
    Heard s' := by
  unfold DeletionState.esp_timer_delete at hstep
  cases hdestructor : s.destructor with
  | alive =>
    simp only [hdestructor, Option.some.injEq] at hstep
    subst hstep
    exact ⟨fun _ => rfl, by rintro (h | h) <;> cases h⟩
  | stopRequested =>
    simp only [hdestructor, Option.some.injEq] at hstep
    subst hstep
    refine ⟨fun _ => h.requested ?_, by rintro (h | h) <;> cases h⟩
    rw [hdestructor]
    nofun
  | stopped =>
    simp only [hdestructor, Option.some.injEq] at hstep
    subst hstep
    refine ⟨fun _ => h.requested ?_, fun _ => cannotBlock_notify (hwindow hdestructor)⟩
    rw [hdestructor]
    nofun
  | notified =>
    simp only [hdestructor, Option.some.injEq] at hstep
    subst hstep
    refine ⟨fun _ => h.requested ?_, fun _ => h.awake (.inl hdestructor)⟩
    rw [hdestructor]
    nofun
  | join =>
    simp only [hdestructor] at hstep
    split at hstep
    · obtain rfl := Option.some.inj hstep
      refine ⟨fun _ => h.requested ?_, by rintro (h | h) <;> cases h⟩
      rw [hdestructor]
      nofun
    · cases hstep
  | deleted => simp [hdestructor] at hstep

theorem heard_step {s s' : DeletionState} (e : DeletionEvent) (h : Heard s)
    (hwindow : NotifiesOutsideWindow s e) (hstep : s.step e = some s') : Heard s' := by
  cases e with
  | esp_timer_delete => exact heard_delete h hwindow hstep
  | timer e =>
    simp only [DeletionState.step] at hstep
    split at hstep
    · cases hstep
    · obtain ⟨state, htimer, rfl⟩ := Option.map_eq_some_iff.mp hstep
      have htimer := TimerState.timer_step htimer
      refine ⟨fun hbegun => ?_, fun hlate => ?_⟩
      · exact (stop_requested_step htimer).trans (h.requested hbegun)
      · have hbegun : s.destructor ≠ .alive := by
          change s.destructor = .notified ∨ s.destructor = .join at hlate
          obtain hlate | hlate := hlate
          · rw [hlate]
            nofun
          · rw [hlate]
            nofun
        exact cannotBlock_step htimer (h.requested hbegun) (h.awake hlate)

/-- In every run in which the destructor notifies outside the window, from the creation
    of the timer on and whatever was called before, the destructor never joins a thread
    that is blocked for good. -/
theorem delete_never_deadlocks (clock : Nat) (events : List DeletionEvent)
    (hmeets : deletionMachine.Meets NotifiesOutsideWindow (.create clock) events) :
    ∀ s ∈ deletionMachine.visited (.create clock) events, ¬Deadlocked s := by
  have hheard : ∀ s ∈ deletionMachine.visited (.create clock) events, Heard s := by
    refine Lib.EventMachine.visited_of_meets ?_ ?_ hmeets
    · intro s e s' h hguard hstep
      exact heard_step e h hguard hstep
    · refine ⟨fun hbegun => absurd rfl hbegun, ?_⟩
      rintro (h | h) <;> cases h
  rintro s hs ⟨hjoin, hblocked, -⟩
  have hawake := (hheard s hs).awake (.inr hjoin) .blocked hblocked
  exact hawake.ne_blocked rfl

/-- A timer that is stopped and then deleted while its thread is blocked. -/
theorem delete_never_deadlocks_blocked :
    ∃ s ∈ deletionMachine.visited (.create 0)
        [.timer (.call (.esp_timer_start_once 5)), .timer .notify_all, .timer (.call .esp_timer_stop),
          .timer .notify_all, .timer .run_loop, .timer .run_loop, .timer .run_loop, .timer .run_loop,
          .timer .run_loop, .esp_timer_delete, .esp_timer_delete, .esp_timer_delete, .esp_timer_delete],
      s.destructor = .join ∧ s.state.notifying = 0 ∧ ¬Deadlocked s := by
  refine ⟨?state, ?mem, ?join, ?quiet, delete_never_deadlocks 0 _ ?meets ?state ?mem⟩
  case mem =>
    refine Lib.EventMachine.mem_visited_iff.mpr ⟨_, List.prefix_refl _, ?_⟩
    rfl
  case join => rfl
  case quiet => rfl
  case meets =>
    refine .cons trivial rfl (.cons trivial rfl (.cons trivial rfl (.cons trivial rfl (.cons trivial rfl
      (.cons trivial rfl (.cons trivial rfl (.cons trivial rfl (.cons trivial rfl (.cons nofun rfl
        (.cons nofun rfl (.cons ?_ rfl (.cons nofun rfl trivial))))))))))))
    intro _
    nofun

/-- A timer that is stopped and then deleted just before its thread blocks. -/
theorem delete_deadlocks :
    ∃ s ∈ deletionMachine.visited (.create 0)
        [.timer (.call (.esp_timer_start_once 5)), .timer .notify_all, .timer (.call .esp_timer_stop),
          .timer .notify_all, .timer .run_loop, .timer .run_loop, .timer .run_loop, .timer .run_loop,
          .esp_timer_delete, .esp_timer_delete, .esp_timer_delete, .timer .run_loop, .esp_timer_delete],
      Deadlocked s := by
  refine ⟨?state, ?mem, ?deadlocked⟩
  case mem =>
    refine Lib.EventMachine.mem_visited_iff.mpr ⟨_, List.prefix_refl _, ?_⟩
    rfl
  case deadlocked => exact ⟨rfl, rfl, rfl⟩

/-- Wherever the destructor notifies inside the window, with no other notification
    outstanding, the thread's next step blocks it for good. -/
theorem deadlock_of_window {s : DeletionState} (hdestructor : s.destructor = .stopped)
    (hwindow : s.state.thread = .wait .idle .block) (hnotifying : s.state.notifying = 0) :
    ∃ s', deletionMachine.run s [.esp_timer_delete, .timer .run_loop, .esp_timer_delete] = some s' ∧
      Deadlocked s' := by
  obtain ⟨⟨timer, thread, clock, notifying, log⟩, destructor⟩ := s
  obtain rfl : destructor = .stopped := hdestructor
  obtain rfl : thread = .wait .idle .block := hwindow
  obtain rfl : notifying = 0 := hnotifying
  let notified : DeletionState := ⟨⟨timer, .wait .idle .block, clock, 0, log⟩, .notified⟩
  let blocked : DeletionState := ⟨⟨timer, .wait .idle .blocked, clock, 0, log⟩, .notified⟩
  let joined : DeletionState := ⟨⟨timer, .wait .idle .blocked, clock, 0, log⟩, .join⟩
  refine ⟨joined, ?_, rfl, rfl, rfl⟩
  apply Lib.EventMachine.run_cons_eq_some.mpr
  refine ⟨notified, rfl, ?_⟩
  apply Lib.EventMachine.run_cons_eq_some.mpr
  refine ⟨blocked, rfl, ?_⟩
  apply Lib.EventMachine.run_cons_eq_some.mpr
  exact ⟨joined, rfl, rfl⟩

/-- From there on only a new call or a spurious wake-up changes anything but the clock. -/
theorem deadlocked_step {s s' : DeletionState} {e : DeletionEvent} (h : Deadlocked s)
    (hwake : e ≠ .timer .wake) (hcall : ∀ call, e ≠ .timer (.call call)) (hstep : s.step e = some s') :
    Deadlocked s' := by
  obtain ⟨hjoin, hblocked, hnotifying⟩ := h
  cases e with
  | esp_timer_delete => simp [DeletionState.step, DeletionState.esp_timer_delete, hjoin, hblocked] at hstep
  | timer e =>
    simp only [DeletionState.step, hjoin, reduceCtorEq, if_false] at hstep
    obtain ⟨state, htimer, rfl⟩ := Option.map_eq_some_iff.mp hstep
    cases e with
    | advance us =>
      cases htimer
      exact ⟨rfl, hblocked, hnotifying⟩
    | run_loop => simp [TimerState.step, TimerState.run_loop, hblocked, Stage.next] at htimer
    | wake => exact absurd rfl hwake
    | expire => simp [TimerState.step, hblocked] at htimer
    | call call => exact absurd rfl (hcall call)
    | notify_all => simp [TimerState.step, hnotifying] at htimer

end HostArduino.esp_timer
