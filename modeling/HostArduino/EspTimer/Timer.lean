import HostArduino.Lib.CondVar
import HostArduino.Lib.EventMachine
import Mathlib.Algebra.Order.Ring.Int

namespace HostArduino.esp_timer

open Lib.CondVar

inductive esp_err_t where
  | ESP_OK
  | ESP_ERR_INVALID_ARG
  deriving DecidableEq, Repr

/-- The fields that the timer thread and the calls share. -/
structure Timer where
  running : Bool
  stop_requested : Bool
  periodic : Bool
  period_us : UInt64
  next_fire_us : UInt64
  deriving DecidableEq, Repr

def Timer.default : Timer where
  running := false
  stop_requested := false
  periodic := false
  period_us := 0
  next_fire_us := 0

/-- The two waits of `run_loop`: `cv.wait`, and `cv.wait_for` up to a target. -/
inductive Wait where
  | idle
  | timed (target : UInt64)
  deriving DecidableEq, Repr

def Wait.predicate (t : Timer) : Wait → Bool
  | .idle => t.running || t.stop_requested
  | .timed target => t.stop_requested || !t.running || t.next_fire_us != target

/-- Where the timer thread stands in `run_loop`, with the locals it still needs:
    `periodic` and `period` are what it read before it unlocked for the callback. -/
inductive RunLoop where
  | unstarted
  | entry
  | head
  | check
  | wait (w : Wait) (stage : Stage)
  | waited (w : Wait)
  | load
  | fire
  | unlocked (periodic : Bool) (period : UInt64)
  | callback (periodic : Bool) (period : UInt64)
  | relocked (periodic : Bool) (period : UInt64)
  | exited
  deriving DecidableEq, Repr

def RunLoop.holdsLock : RunLoop → Bool
  | .wait _ stage => stage.holdsLock
  | .head | .check | .waited _ | .load | .fire | .relocked _ _ => true
  | .unstarted | .entry | .unlocked _ _ | .callback _ _ | .exited => false

def RunLoop.notify : RunLoop → RunLoop
  | .wait w stage => .wait w stage.notify
  | thread => thread

def ensure_thread : RunLoop → RunLoop
  | .unstarted => .entry
  | thread => thread

/-- What has happened to the timer: a start and the deadline it set, a stop, the
    thread's decision to call back, and the beginning of that callback. -/
inductive Record where
  | started (periodic : Bool) (next_fire_us : UInt64)
  | stopped
  | decided
  | begun
  deriving DecidableEq, Repr

/-- `notifying` counts the calls that have unlocked and not notified yet. -/
structure TimerState where
  timer : Timer
  thread : RunLoop
  clock : Nat
  notifying : Nat
  log : List Record
  deriving DecidableEq, Repr

def esp_timer_create (clock : Nat) : TimerState where
  timer := .default
  thread := .unstarted
  clock := clock
  notifying := 0
  log := []

namespace TimerState

def esp_timer_get_time (s : TimerState) : Int :=
  s.clock

/-- `esp_timer_get_time() + timeout_us`, in `uint64_t`. -/
def deadline (s : TimerState) (timeout_us : UInt64) : UInt64 :=
  UInt64.ofNat s.clock + timeout_us

def esp_timer_start_once (s : TimerState) (timeout_us : UInt64) : TimerState × esp_err_t :=
  ({ s with
      timer := { s.timer with
        periodic := false, period_us := 0, next_fire_us := s.deadline timeout_us, running := true }
      thread := ensure_thread s.thread
      notifying := s.notifying + 1
      log := s.log ++ [.started false (s.deadline timeout_us)] }, .ESP_OK)

def esp_timer_start_periodic (s : TimerState) (period_us : UInt64) : TimerState × esp_err_t :=
  if period_us = 0 then (s, .ESP_ERR_INVALID_ARG)
  else
    ({ s with
        timer := { s.timer with
          periodic := true, period_us := period_us, next_fire_us := s.deadline period_us, running := true }
        thread := ensure_thread s.thread
        notifying := s.notifying + 1
        log := s.log ++ [.started true (s.deadline period_us)] }, .ESP_OK)

def esp_timer_stop (s : TimerState) : TimerState × esp_err_t :=
  ({ s with
      timer := { s.timer with running := false }
      notifying := s.notifying + 1
      log := s.log ++ [.stopped] }, .ESP_OK)

def goto (s : TimerState) (thread : RunLoop) : TimerState :=
  { s with thread := thread }

/-- Nothing is between the thread and the callback any more. -/
def decided (s : TimerState) : TimerState :=
  { s with thread := .fire, log := s.log ++ [.decided] }

def begun (s : TimerState) (periodic : Bool) (period : UInt64) : TimerState :=
  { s with thread := .callback periodic period, log := s.log ++ [.begun] }

/-- What the thread writes when it has the lock again after a callback. -/
def finished (s : TimerState) (periodic : Bool) (period : UInt64) : TimerState :=
  if periodic && s.timer.running then
    { s with thread := .head, timer := { s.timer with next_fire_us := s.deadline period } }
  else { s with thread := .head, timer := { s.timer with running := false } }

/-- `target - now` is positive, `target` read as an `int64_t`. -/
def early (s : TimerState) (target : UInt64) : Bool :=
  decide (0 < target.toInt64.toInt - s.esp_timer_get_time)

/-- One step of the timer thread in `run_loop`. It can make none while it is blocked. -/
def run_loop (s : TimerState) : Option TimerState :=
  match s.thread with
  | .unstarted => none
  | .entry => some (s.goto .head)
  | .head => some (s.goto (if s.timer.stop_requested then .exited else .check))
  | .check => some (s.goto (if !s.timer.running then .wait .idle .test else .load))
  | .wait w stage =>
    (stage.next (w.predicate s.timer)).map fun next =>
      s.goto (next.elim (.waited w) (.wait w))
  | .waited .idle => some (s.goto (if s.timer.stop_requested then .exited else .load))
  | .load =>
    if s.early s.timer.next_fire_us then some (s.goto (.wait (.timed s.timer.next_fire_us) .test))
    else some s.decided
  | .waited (.timed target) =>
    if s.timer.stop_requested then some (s.goto .exited)
    else if !s.timer.running then some (s.goto .head)
    else if s.timer.next_fire_us != target then some (s.goto .head)
    else if s.early s.timer.next_fire_us then some (s.goto .head)
    else some s.decided
  | .fire => some (s.goto (.unlocked s.timer.periodic s.timer.period_us))
  | .unlocked periodic period => some (s.begun periodic period)
  | .callback periodic period => some (s.goto (.relocked periodic period))
  | .relocked periodic period => some (s.finished periodic period)
  | .exited => none

end TimerState

inductive TimerCall where
  | esp_timer_start_once (timeout_us : UInt64)
  | esp_timer_start_periodic (period_us : UInt64)
  | esp_timer_stop
  deriving DecidableEq, Repr

def TimerState.call (s : TimerState) : TimerCall → TimerState
  | .esp_timer_start_once timeout_us => (s.esp_timer_start_once timeout_us).1
  | .esp_timer_start_periodic period_us => (s.esp_timer_start_periodic period_us).1
  | .esp_timer_stop => s.esp_timer_stop.1

/-- The events of a timer: the clock goes on, the thread makes a step, a wait wakes up
    by itself or runs out, some thread (the callback too) makes a call with the lock
    held, and a call that has unlocked notifies. -/
inductive TimerEvent where
  | advance (us : Nat)
  | run_loop
  | wake
  | expire
  | call (call : TimerCall)
  | notify_all
  deriving DecidableEq, Repr

def TimerState.step (s : TimerState) : TimerEvent → Option TimerState
  | .advance us => some { s with clock := s.clock + us }
  | .run_loop => s.run_loop
  | .wake =>
    match s.thread with
    | .wait w .blocked => some (s.goto (.wait w .woken))
    | _ => none
  | .expire =>
    match s.thread with
    | .wait (.timed target) .blocked => some (s.goto (.waited (.timed target)))
    | _ => none
  | .call call => if s.thread.holdsLock then none else some (s.call call)
  | .notify_all =>
    if s.notifying = 0 then none
    else some { s with thread := s.thread.notify, notifying := s.notifying - 1 }

def timerMachine : Lib.EventMachine TimerState TimerEvent where
  step := TimerState.step

/-- The steps that move the thread and change nothing else. -/
inductive Moves (s : TimerState) : RunLoop → RunLoop → Prop
  | entry : Moves s .entry .head
  | leave (hstop : s.timer.stop_requested = true) : Moves s .head .exited
  | look (hstop : s.timer.stop_requested = false) : Moves s .head .check
  | idle (hrunning : s.timer.running = false) : Moves s .check (.wait .idle .test)
  | busy (hrunning : s.timer.running = true) : Moves s .check .load
  | stage {w : Wait} {stage stage' : Stage}
      (hnext : stage.next (w.predicate s.timer) = some (some stage')) :
      Moves s (.wait w stage) (.wait w stage')
  | pass {w : Wait} (hpredicate : w.predicate s.timer = true) : Moves s (.wait w .test) (.waited w)
  | quit {w : Wait} (hstop : s.timer.stop_requested = true) : Moves s (.waited w) .exited
  | armed (hstop : s.timer.stop_requested = false) : Moves s (.waited .idle) .load
  | again {target : UInt64} (hstop : s.timer.stop_requested = false) :
      Moves s (.waited (.timed target)) .head
  | sleep (hearly : s.early s.timer.next_fire_us = true) :
      Moves s .load (.wait (.timed s.timer.next_fire_us) .test)
  | unlock : Moves s .fire (.unlocked s.timer.periodic s.timer.period_us)
  | relock {periodic : Bool} {period : UInt64} :
      Moves s (.callback periodic period) (.relocked periodic period)

/-- All that a step of the timer thread can do. -/
inductive RunLoopStep (s : TimerState) : TimerState → Prop
  | moves {thread : RunLoop} (h : Moves s s.thread thread) : RunLoopStep s (s.goto thread)
  | decides (hthread : s.thread = .load ∨
        s.timer.running = true ∧ ∃ target, s.thread = .waited (.timed target))
      (hdue : s.early s.timer.next_fire_us = false) : RunLoopStep s s.decided
  | begins {periodic : Bool} {period : UInt64} (hthread : s.thread = .unlocked periodic period) :
      RunLoopStep s (s.begun periodic period)
  | finishes {periodic : Bool} {period : UInt64} (hthread : s.thread = .relocked periodic period) :
      RunLoopStep s (s.finished periodic period)

variable {s s' : TimerState}

theorem RunLoopStep.goto {here there : RunLoop} (hthread : s.thread = here)
    (h : Moves s here there) : RunLoopStep s (s.goto there) := by
  refine .moves ?_
  rwa [hthread]

theorem wait_moves {w : Wait} {stage : Stage} {next : Option Stage}
    (hnext : stage.next (w.predicate s.timer) = some next) :
    Moves s (.wait w stage) (next.elim (.waited w) (.wait w)) := by
  cases next with
  | some stage' => exact .stage hnext
  | none =>
    cases stage with
    | test =>
      cases hpredicate : w.predicate s.timer with
      | true => exact .pass hpredicate
      | false => simp [Stage.next, hpredicate] at hnext
    | block => cases hnext
    | blocked => cases hnext
    | woken => cases hnext

/-- After the timed wait the thread calls back only when nothing has changed and the
    deadline has passed. -/
theorem waited_timed_step {target : UInt64} (hthread : s.thread = .waited (.timed target))
    (hstep : s.run_loop = some s') : RunLoopStep s s' := by
  simp only [TimerState.run_loop, hthread] at hstep
  cases hstop : s.timer.stop_requested with
  | true =>
    obtain rfl : s.goto .exited = s' := by simpa [hstop] using hstep
    exact .goto hthread (.quit hstop)
  | false =>
    have hagain : s.goto .head = s' → RunLoopStep s s' := by
      rintro rfl
      exact .goto hthread (.again hstop)
    rw [if_neg (by simp [hstop])] at hstep
    split at hstep
    · exact hagain (Option.some.inj hstep)
    · rename_i hrunning
      split at hstep
      · exact hagain (Option.some.inj hstep)
      · split at hstep
        · exact hagain (Option.some.inj hstep)
        · rename_i hdue
          obtain rfl := Option.some.inj hstep
          exact .decides (.inr ⟨by simpa using hrunning, target, hthread⟩) (by simpa using hdue)

theorem TimerState.run_loop_step (hstep : s.run_loop = some s') : RunLoopStep s s' := by
  cases hthread : s.thread with
  | unstarted => simp [run_loop, hthread] at hstep
  | exited => simp [run_loop, hthread] at hstep
  | entry =>
    obtain rfl : s.goto .head = s' := by simpa [run_loop, hthread] using hstep
    exact .goto hthread .entry
  | head =>
    simp only [run_loop, hthread, Option.some.injEq] at hstep
    subst hstep
    refine .goto hthread ?_
    cases hstop : s.timer.stop_requested with
    | true => exact .leave hstop
    | false => exact .look hstop
  | check =>
    simp only [run_loop, hthread, Option.some.injEq] at hstep
    subst hstep
    refine .goto hthread ?_
    cases hrunning : s.timer.running with
    | true => exact .busy hrunning
    | false => exact .idle hrunning
  | wait w stage =>
    simp only [run_loop, hthread] at hstep
    obtain ⟨next, hnext, rfl⟩ := Option.map_eq_some_iff.mp hstep
    exact .goto hthread (wait_moves hnext)
  | waited w =>
    cases w with
    | idle =>
      simp only [run_loop, hthread, Option.some.injEq] at hstep
      subst hstep
      refine .goto hthread ?_
      cases hstop : s.timer.stop_requested with
      | true => exact .quit hstop
      | false => exact .armed hstop
    | timed target => exact waited_timed_step hthread hstep
  | load =>
    simp only [run_loop, hthread] at hstep
    split at hstep
    · rename_i hearly
      obtain rfl := Option.some.inj hstep
      exact .goto hthread (.sleep hearly)
    · rename_i hdue
      obtain rfl := Option.some.inj hstep
      exact .decides (.inl hthread) (by simpa using hdue)
  | fire =>
    simp only [run_loop, hthread, Option.some.injEq] at hstep
    subst hstep
    exact .goto hthread .unlock
  | unlocked periodic period =>
    simp only [run_loop, hthread, Option.some.injEq] at hstep
    subst hstep
    exact .begins hthread
  | callback periodic period =>
    simp only [run_loop, hthread, Option.some.injEq] at hstep
    subst hstep
    exact .goto hthread .relock
  | relocked periodic period =>
    simp only [run_loop, hthread, Option.some.injEq] at hstep
    subst hstep
    exact .finishes hthread

/-- What wakes a blocked thread, or finds none to wake. -/
inductive Stirs : RunLoop → RunLoop → Prop
  | wake {w : Wait} : Stirs (.wait w .blocked) (.wait w .woken)
  | expire {target : UInt64} : Stirs (.wait (.timed target) .blocked) (.waited (.timed target))
  | none {thread : RunLoop} : Stirs thread thread

theorem stirs_notify (thread : RunLoop) : Stirs thread thread.notify := by
  cases thread with
  | wait w stage =>
    cases stage with
    | blocked => exact .wake
    | _ => exact .none
  | _ => exact .none

/-- All that an event can do. -/
inductive TimerStep (s : TimerState) : TimerEvent → TimerState → Prop
  | advance (us : Nat) : TimerStep s (.advance us) { s with clock := s.clock + us }
  | run_loop {s' : TimerState} (h : RunLoopStep s s') : TimerStep s .run_loop s'
  | stirs {e : TimerEvent} {thread : RunLoop} {notifying : Nat} (hother : e ≠ .run_loop)
      (h : Stirs s.thread thread) : TimerStep s e { s with thread := thread, notifying := notifying }
  | call (call : TimerCall) (hlock : s.thread.holdsLock = false) : TimerStep s (.call call) (s.call call)

theorem TimerState.timer_step {e : TimerEvent} (hstep : s.step e = some s') : TimerStep s e s' := by
  cases e with
  | advance us =>
    cases hstep
    exact .advance us
  | run_loop => exact .run_loop (run_loop_step hstep)
  | wake =>
    simp only [TimerState.step] at hstep
    split at hstep
    · rename_i w hthread
      cases hstep
      refine .stirs nofun ?_
      rw [hthread]
      exact .wake
    · cases hstep
  | expire =>
    simp only [TimerState.step] at hstep
    split at hstep
    · rename_i target hthread
      cases hstep
      refine .stirs nofun ?_
      rw [hthread]
      exact .expire
    · cases hstep
  | call call =>
    simp only [TimerState.step] at hstep
    split at hstep
    · cases hstep
    · rename_i hlock
      cases hstep
      exact .call call (by simpa using hlock)
  | notify_all =>
    simp only [TimerState.step] at hstep
    split at hstep
    · cases hstep
    · cases hstep
      exact .stirs nofun (stirs_notify s.thread)

end HostArduino.esp_timer
