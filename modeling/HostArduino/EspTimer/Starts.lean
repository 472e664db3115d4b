import HostArduino.EspTimer.Timer

namespace HostArduino.esp_timer

/-- How a record changes the start in force: its deadline, and whether the thread has
    decided to call back for it. -/
def Record.follow (start : Option (UInt64 × Bool)) : Record → Option (UInt64 × Bool)
  | .started _ next_fire_us => some (next_fire_us, false)
  | .stopped => none
  | .decided => start.map fun deadline => (deadline.1, true)
  | .begun => start.filter fun deadline => !deadline.2

/-- The last start, while no stop has followed it and no callback for it has begun. -/
def startInForce (log : List Record) : Option (UInt64 × Bool) :=
  log.foldl Record.follow none

theorem startInForce_concat (log : List Record) (record : Record) :
    startInForce (log ++ [record]) = record.follow (startInForce log) := by
  simp [startInForce]

/-- The timer stays running with the deadline of the start in force. -/
def StartKept (s : TimerState) : Prop :=
  ∀ deadline decided, startInForce s.log = some (deadline, decided) →
    s.timer.running = true ∧ s.timer.next_fire_us = deadline

/-- No start is in force when the thread comes back from a callback, unless the
    callback was a periodic one and leaves the start the deadline it has. -/
def NothingToLose (s : TimerState) : TimerEvent → Prop
  | .run_loop => ∀ periodic period, s.thread = .relocked periodic period →
      ∀ deadline decided, startInForce s.log = some (deadline, decided) →
        periodic = true ∧ s.deadline period = deadline
  | _ => True

variable {s s' : TimerState}

theorem startKept_of_eq (htimer : s'.timer = s.timer) (hlog : s'.log = s.log) (h : StartKept s) :
    StartKept s' := by
  unfold StartKept
  rw [htimer, hlog]
  exact h

theorem startKept_decided (h : StartKept s) : StartKept s.decided := by
  intro deadline decided hstart
  change startInForce (s.log ++ [.decided]) = _ at hstart
  rw [startInForce_concat] at hstart
  obtain ⟨start, hbefore, heq⟩ := Option.map_eq_some_iff.mp hstart
  cases heq
  exact h start.1 start.2 hbefore

theorem startKept_begun {periodic : Bool} {period : UInt64} (h : StartKept s) :
    StartKept (s.begun periodic period) := by
  intro deadline decided hstart
  change startInForce (s.log ++ [.begun]) = _ at hstart
  rw [startInForce_concat] at hstart
  exact h deadline decided (Option.filter_eq_some_iff.mp hstart).1

/-- The one step that can lose a start: the thread writes what it decided before the callback. -/
theorem startKept_finished {periodic : Bool} {period : UInt64} (h : StartKept s) :
    StartKept (s.finished periodic period) ↔
      ∀ deadline decided, startInForce s.log = some (deadline, decided) →
        periodic = true ∧ s.deadline period = deadline := by
  have hlog : (s.finished periodic period).log = s.log := by
    unfold TimerState.finished
    split <;> rfl
  unfold StartKept
  rw [hlog]
  refine forall_congr' fun deadline => forall_congr' fun decided => forall_congr' fun hstart => ?_
  obtain ⟨hrunning, -⟩ := h deadline decided hstart
  cases periodic with
  | true => simp [TimerState.finished, hrunning]
  | false => simp [TimerState.finished]

theorem startKept_call (call : TimerCall) (h : StartKept s) : StartKept (s.call call) := by
  cases call with
  | esp_timer_start_once timeout_us =>
    intro deadline decided hstart
    change startInForce (s.log ++ [.started false (s.deadline timeout_us)]) = _ at hstart
    rw [startInForce_concat] at hstart
    cases hstart
    exact ⟨rfl, rfl⟩
  | esp_timer_start_periodic period_us =>
    by_cases hzero : period_us = 0
    · have hrefused : s.call (.esp_timer_start_periodic period_us) = s := by
        simp [TimerState.call, TimerState.esp_timer_start_periodic, hzero]
      rw [hrefused]
      exact h
    · intro deadline decided hstart
      simp only [TimerState.call, TimerState.esp_timer_start_periodic, hzero, if_false] at hstart ⊢
      rw [startInForce_concat] at hstart
      cases hstart
      exact ⟨trivial, rfl⟩
  | esp_timer_stop =>
    intro deadline decided hstart
    change startInForce (s.log ++ [.stopped]) = _ at hstart
    rw [startInForce_concat] at hstart
    cases hstart

theorem startKept_run_loop (h : StartKept s) (hstep : RunLoopStep s s') :
    StartKept s' ↔ NothingToLose s .run_loop := by
  cases hstep with
  | moves hmoves =>
    refine iff_of_true (startKept_of_eq rfl rfl h) ?_
    intro periodic period hthread
    rw [hthread] at hmoves
    cases hmoves
  | decides hthread hdue =>
    refine iff_of_true (startKept_decided h) ?_
    intro periodic period hrelocked
    obtain hload | ⟨-, target, htimed⟩ := hthread
    · cases hload.symm.trans hrelocked
    · cases htimed.symm.trans hrelocked
  | begins hthread =>
    refine iff_of_true (startKept_begun h) ?_
    intro periodic period hrelocked
    cases hthread.symm.trans hrelocked
  | @finishes periodic period hthread =>
    rw [startKept_finished h]
    constructor
    · intro hlose periodic' period' hrelocked
      cases hthread.symm.trans hrelocked
      exact hlose
    · intro hlose
      exact hlose periodic period hthread

theorem nothingToLose_of_ne {e : TimerEvent} (hother : e ≠ .run_loop) : NothingToLose s e := by
  cases e with
  | run_loop => exact absurd rfl hother
  | _ => trivial

theorem startKept_step (e : TimerEvent) (h : StartKept s) (hstep : s.step e = some s') :
    StartKept s' ↔ NothingToLose s e := by
  cases TimerState.timer_step hstep with
  | advance us => exact iff_of_true (startKept_of_eq rfl rfl h) trivial
  | run_loop hrun => exact startKept_run_loop h hrun
  | stirs hother hstirs => exact iff_of_true (startKept_of_eq rfl rfl h) (nothingToLose_of_ne hother)
  | call call hlock => exact iff_of_true (startKept_call call h) trivial

/-- The thread can always come back from a callback. -/
theorem nothingToLose_of_disabled (e : TimerEvent) (hstep : s.step e = none) : NothingToLose s e := by
  cases e with
  | run_loop =>
    intro periodic period hthread
    simp [TimerState.step, TimerState.run_loop, hthread] at hstep
  | _ => trivial

/-- The runs of a timer in which no start is lost are exactly those in which the thread
    never comes back from a callback with a start in force that was made meanwhile. -/
theorem starts_kept_iff (clock : Nat) (events : List TimerEvent) :
    (∀ s ∈ timerMachine.visited (esp_timer_create clock) events, StartKept s) ↔
      timerMachine.Meets NothingToLose (esp_timer_create clock) events := by
  apply Lib.EventMachine.visited_iff_meets_of_enabled
  · intro s e s' h hstep
    exact startKept_step e h hstep
  · intro s e _ hstep
    exact nothingToLose_of_disabled e hstep
  · intro deadline decided hstart
    cases hstart

/-- A one-shot timer whose callback starts it again: the new start is forgotten. -/
theorem start_lost :
    ∃ s ∈ timerMachine.visited (esp_timer_create 0)
        [.call (.esp_timer_start_once 5), .advance 10, .run_loop, .run_loop, .run_loop, .run_loop,
          .run_loop, .run_loop, .call (.esp_timer_start_once 7), .run_loop, .run_loop],
      startInForce s.log = some (17, false) ∧ s.timer.running = false ∧ ¬StartKept s := by
  refine ⟨?state, ?mem, ?start, ?running, ?lost⟩
  case mem =>
    refine Lib.EventMachine.mem_visited_iff.mpr ⟨_, List.prefix_refl _, ?_⟩
    rfl
  case start => rfl
  case running => rfl
  case lost =>
    intro h
    cases (h 17 false rfl).1

end HostArduino.esp_timer
