import HostArduino.EspTimer.Timer

namespace HostArduino.esp_timer

variable {s s' : TimerState}

/-- The thread has decided to call back and has not begun to. -/
def RunLoop.committed : RunLoop → Nat
  | .fire | .unlocked _ _ => 1
  | _ => 0

/-- From the decision to call back until the thread has the lock again. -/
def RunLoop.inFlight : RunLoop → Bool
  | .fire | .unlocked _ _ | .callback _ _ | .relocked _ _ => true
  | _ => false

/-- The `periodic` that the thread read before the callback. -/
def RunLoop.periodic : RunLoop → Bool
  | .unlocked periodic _ | .callback periodic _ | .relocked periodic _ => periodic
  | _ => false

/-- A step that neither decides, begins nor ends a callback leaves these alone. -/
structure RunLoop.Alike (a b : RunLoop) : Prop where
  committed : a.committed = b.committed
  inFlight : a.inFlight = b.inFlight

theorem Moves.alike {a b : RunLoop} (h : Moves s a b) : a.Alike b := by
  cases h <;> exact ⟨rfl, rfl⟩

theorem Stirs.alike {a b : RunLoop} (h : Stirs a b) : a.Alike b := by
  cases h <;> exact ⟨rfl, rfl⟩

theorem RunLoop.alike_ensure_thread (a : RunLoop) : a.Alike (ensure_thread a) := by
  cases a <;> exact ⟨rfl, rfl⟩

/-- The thread is past a test of `running`, with the lock held since. -/
def RunLoop.sawRunning : RunLoop → Bool
  | .load | .waited .idle | .fire => true
  | _ => false

theorem RunLoop.holdsLock_of_sawRunning {a : RunLoop} (h : a.sawRunning = true) :
    a.holdsLock = true := by
  cases a with
  | wait => cases h
  | _ => first | rfl | cases h

/-- What holds of the timer and its thread between any two steps. -/
structure Armed (s : TimerState) : Prop where
  live : s.timer.stop_requested = false
  running : s.thread.sawRunning = true → s.timer.running = true
  due : s.thread = .fire → s.early s.timer.next_fire_us = false

theorem early_eq_false {target : UInt64} :
    s.early target = false ↔ target.toInt64.toInt ≤ s.esp_timer_get_time := by
  unfold TimerState.early
  rw [decide_eq_false_iff_not]
  omega

/-- A deadline that is due stays due as the clock goes on. -/
theorem early_advance {target : UInt64} (us : Nat) (hdue : s.early target = false) :
    TimerState.early { s with clock := s.clock + us } target = false := by
  rw [early_eq_false] at hdue ⊢
  refine Int.le_trans hdue ?_
  exact Int.ofNat_le.mpr (Nat.le_add_right s.clock us)

/-- A due deadline below 2^63 has passed: the cast to `int64_t` keeps its value. -/
theorem le_time_of_due {target : UInt64} (hdue : s.early target = false) (hbound : target.toNat < 2 ^ 63) :
    (target.toNat : Int) ≤ s.esp_timer_get_time := by
  have hcast : target.toInt64.toInt = target.toNat := by
    change target.toBitVec.toInt = target.toBitVec.toNat
    refine BitVec.toInt_eq_toNat_of_lt ?_
    change 2 * target.toNat < 2 ^ 64
    omega
  rw [← hcast]
  exact early_eq_false.mp hdue

theorem armed_moves {thread : RunLoop} (h : Armed s) (hmoves : Moves s s.thread thread) :
    Armed (s.goto thread) := by
  have hlive : s.timer.stop_requested = false := h.live
  refine ⟨hlive, ?_, ?_⟩
  · intro hsaw
    change thread.sawRunning = true at hsaw
    change s.timer.running = true
    generalize hthread : s.thread = before at hmoves
    cases hmoves with
    | busy hrunning => exact hrunning
    | @pass w hpredicate =>
      cases w with
      | idle => simpa [Wait.predicate, hlive] using hpredicate
      | timed target => cases hsaw
    | armed hstop =>
      refine h.running ?_
      rw [hthread]
      rfl
    | _ => cases hsaw
  · intro hfire
    change thread = .fire at hfire
    subst hfire
    generalize s.thread = before at hmoves
    cases hmoves

theorem armed_run_loop (h : Armed s) (hstep : RunLoopStep s s') : Armed s' := by
  cases hstep with
  | moves hmoves => exact armed_moves h hmoves
  | decides hthread hdue =>
    refine ⟨h.live, fun _ => ?_, fun _ => hdue⟩
    obtain hload | ⟨hrunning, -⟩ := hthread
    · refine h.running ?_
      rw [hload]
      rfl
    · exact hrunning
  | begins hthread => exact ⟨h.live, nofun, nofun⟩
  | @finishes periodic period hthread =>
    unfold TimerState.finished
    split
    · exact ⟨h.live, nofun, nofun⟩
    · exact ⟨h.live, nofun, nofun⟩

theorem RunLoop.sawRunning_ensure_thread (a : RunLoop) : (ensure_thread a).sawRunning = a.sawRunning := by
  cases a <;> rfl

/-- The calls find the thread away from the lock, and so past none of its tests. -/
theorem sawRunning_of_unlocked (hlock : s.thread.holdsLock = false) : s.thread.sawRunning = false := by
  by_contra hsaw
  have hholds := RunLoop.holdsLock_of_sawRunning (by simpa using hsaw)
  rw [hlock] at hholds
  cases hholds

/-- A thread that is past none of its tests owes nothing. -/
theorem armed_of_not_sawRunning (hlive : s.timer.stop_requested = false)
    (hsaw : s.thread.sawRunning = false) : Armed s := by
  refine ⟨hlive, fun h => ?_, fun h => ?_⟩
  · rw [hsaw] at h
    cases h
  · rw [h] at hsaw
    cases hsaw

theorem armed_call (call : TimerCall) (h : Armed s) (hlock : s.thread.holdsLock = false) :
    Armed (s.call call) := by
  have hsaw := sawRunning_of_unlocked hlock
  have hstarted := (RunLoop.sawRunning_ensure_thread s.thread).trans hsaw
  cases call with
  | esp_timer_start_once timeout_us => exact armed_of_not_sawRunning h.live hstarted
  | esp_timer_start_periodic period_us =>
    by_cases hzero : period_us = 0
    · simpa [TimerState.call, TimerState.esp_timer_start_periodic, hzero] using h
    · simp only [TimerState.call, TimerState.esp_timer_start_periodic, hzero, if_false]
      exact armed_of_not_sawRunning h.live hstarted
  | esp_timer_stop => exact armed_of_not_sawRunning h.live hsaw

theorem armed_stirs {thread : RunLoop} {notifying : Nat} (h : Armed s) (hstirs : Stirs s.thread thread) :
    Armed { s with thread := thread, notifying := notifying } := by
  generalize hthread : s.thread = before at hstirs
  cases hstirs with
  | wake => exact armed_of_not_sawRunning h.live rfl
  | expire => exact armed_of_not_sawRunning h.live rfl
  | none =>
    subst hthread
    exact ⟨h.live, h.running, h.due⟩

theorem armed_step (e : TimerEvent) (h : Armed s) (hstep : s.step e = some s') : Armed s' := by
  cases TimerState.timer_step hstep with
  | advance us => exact ⟨h.live, h.running, fun hfire => early_advance us (h.due hfire)⟩
  | run_loop hrun => exact armed_run_loop h hrun
  | stirs hother hstirs => exact armed_stirs h hstirs
  | call call hlock => exact armed_call call h hlock

section AfterStop

/-- How many callbacks have begun since a stop that no start has followed. -/
def Record.sinceStop (count : Option Nat) : Record → Option Nat
  | .started _ _ => none
  | .stopped => some (count.getD 0)
  | .decided => count
  | .begun => count.map (· + 1)

def begunSinceStop (log : List Record) : Option Nat :=
  log.foldl Record.sinceStop none

theorem begunSinceStop_concat (log : List Record) (record : Record) :
    begunSinceStop (log ++ [record]) = record.sinceStop (begunSinceStop log) := by
  simp [begunSinceStop]

theorem count_begun_le_sinceStop (before after : List Record)
    (hstart : ∀ periodic deadline, .started periodic deadline ∉ after) :
    ∃ n, begunSinceStop (before ++ .stopped :: after) = some n ∧ after.count .begun ≤ n := by
  induction after using List.reverseRecOn with
  | nil =>
    rw [begunSinceStop_concat]
    exact ⟨_, rfl, Nat.zero_le _⟩
  | append_singleton after record ih =>
    obtain ⟨n, hn, hcount⟩ := ih fun periodic deadline hmem =>
      hstart periodic deadline (List.mem_append_left _ hmem)
    rw [show before ++ .stopped :: (after ++ [record]) = (before ++ .stopped :: after) ++ [record] by simp,
      begunSinceStop_concat, hn, List.count_append]
    cases record with
    | started periodic deadline => exact absurd (by simp) (hstart periodic deadline)
    | stopped => exact ⟨n, rfl, hcount⟩
    | decided => exact ⟨n, rfl, hcount⟩
    | begun => exact ⟨n + 1, rfl, Nat.add_le_add_right hcount 1⟩

/-- After a stop only a callback that was decided before it can still begin. -/
def Quiet (s : TimerState) : Prop :=
  ∀ n, begunSinceStop s.log = some n → s.timer.running = false ∧ n + s.thread.committed ≤ 1

theorem RunLoop.committed_le (thread : RunLoop) : thread.committed ≤ 1 := by
  cases thread with
  | fire => exact Nat.le_refl 1
  | unlocked => exact Nat.le_refl 1
  | _ => exact Nat.zero_le 1

theorem quiet_of_alike (htimer : s'.timer = s.timer) (hlog : s'.log = s.log)
    (halike : s.thread.Alike s'.thread) (h : Quiet s) : Quiet s' := by
  unfold Quiet
  rw [htimer, hlog, ← halike.committed]
  exact h

/-- The thread decides to call back only when the timer runs. -/
theorem running_of_decides (harmed : Armed s)
    (hthread : s.thread = .load ∨ s.timer.running = true ∧ ∃ target, s.thread = .waited (.timed target)) :
    s.timer.running = true := by
  obtain hload | ⟨hrunning, -⟩ := hthread
  · apply harmed.running
    rw [hload]
    rfl
  · exact hrunning

theorem quiet_run_loop (h : Quiet s) (harmed : Armed s) (hstep : RunLoopStep s s') : Quiet s' := by
  cases hstep with
  | moves hmoves => exact quiet_of_alike (s := s) rfl rfl hmoves.alike h
  | decides hthread hdue =>
    intro n hn
    change begunSinceStop (s.log ++ [.decided]) = some n at hn
    rw [begunSinceStop_concat] at hn
    have hstopped := (h n hn).1
    rw [running_of_decides harmed hthread] at hstopped
    cases hstopped
  | @begins periodic period hthread =>
    intro n hn
    change begunSinceStop (s.log ++ [.begun]) = some n at hn
    rw [begunSinceStop_concat] at hn
    obtain ⟨before, hbefore, rfl⟩ := Option.map_eq_some_iff.mp hn
    obtain ⟨hstopped, hcount⟩ := h before hbefore
    rw [hthread] at hcount
    exact ⟨hstopped, hcount⟩
  | @finishes periodic period hthread =>
    have hlog : (s.finished periodic period).log = s.log := by
      unfold TimerState.finished
      split <;> rfl
    intro n hn
    rw [hlog] at hn
    obtain ⟨hstopped, hcount⟩ := h n hn
    rw [hthread] at hcount
    have hkeeps : (periodic && s.timer.running) = false := by rw [hstopped, Bool.and_false]
    unfold TimerState.finished
    rw [if_neg (by rw [hkeeps]; nofun)]
    exact ⟨rfl, hcount⟩

theorem quiet_call (call : TimerCall) (h : Quiet s) : Quiet (s.call call) := by
  cases call with
  | esp_timer_start_once timeout_us =>
    intro n hn
    change begunSinceStop (s.log ++ [.started false (s.deadline timeout_us)]) = some n at hn
    rw [begunSinceStop_concat] at hn
    cases hn
  | esp_timer_start_periodic period_us =>
    by_cases hzero : period_us = 0
    · simpa [TimerState.call, TimerState.esp_timer_start_periodic, hzero] using h
    · intro n hn
      simp only [TimerState.call, TimerState.esp_timer_start_periodic, hzero, if_false] at hn
      rw [begunSinceStop_concat] at hn
      cases hn
  | esp_timer_stop =>
    intro n hn
    change begunSinceStop (s.log ++ [.stopped]) = some n at hn
    rw [begunSinceStop_concat] at hn
    refine ⟨rfl, ?_⟩
    change n + s.thread.committed ≤ 1
    obtain rfl := Option.some.inj hn
    cases hbefore : begunSinceStop s.log with
    | none =>
      have hcommitted := s.thread.committed_le
      simpa using hcommitted
    | some before => exact (h before hbefore).2

theorem quiet_step (e : TimerEvent) (h : Quiet s) (harmed : Armed s) (hstep : s.step e = some s') :
    Quiet s' := by
  cases TimerState.timer_step hstep with
  | advance us => exact h
  | run_loop hrun => exact quiet_run_loop h harmed hrun
  | stirs hother hstirs => exact quiet_of_alike (s := s) rfl rfl hstirs.alike h
  | call call hlock => exact quiet_call call h

end AfterStop

section Once

def Record.isStartOnce : Record → Bool
  | .started periodic _ => !periodic
  | _ => false

/-- A running timer that has not been decided upon still has a callback to give. -/
def TimerState.spare (s : TimerState) : Nat :=
  if s.timer.running && !s.thread.inFlight then 1 else 0

/-- Each callback of a timer that is only ever started once was paid for by a start. -/
structure Paid (s : TimerState) : Prop where
  periodic : s.timer.periodic = false
  thread : s.thread.periodic = false
  count : s.log.count .begun + s.thread.committed + s.spare ≤ s.log.countP Record.isStartOnce

theorem Moves.periodic {a b : RunLoop} (h : Moves s a b) (ha : a.periodic = false)
    (hs : s.timer.periodic = false) : b.periodic = false := by
  cases h with
  | unlock => exact hs
  | relock => exact ha
  | _ => rfl

theorem Stirs.periodic {a b : RunLoop} (h : Stirs a b) (ha : a.periodic = false) :
    b.periodic = false := by
  cases h with
  | none => exact ha
  | _ => rfl

theorem paid_of_alike (htimer : s'.timer = s.timer) (hlog : s'.log = s.log)
    (halike : s.thread.Alike s'.thread) (hperiodic : s'.thread.periodic = false) (h : Paid s) : Paid s' := by
  refine ⟨?_, hperiodic, ?_⟩
  · rw [htimer]
    exact h.periodic
  · unfold TimerState.spare
    rw [htimer, hlog, ← halike.committed, ← halike.inFlight]
    exact h.count

theorem paid_run_loop (h : Paid s) (harmed : Armed s) (hstep : RunLoopStep s s') : Paid s' := by
  have hcount := h.count
  unfold TimerState.spare at hcount
  cases hstep with
  | moves hmoves => exact paid_of_alike (s := s) rfl rfl hmoves.alike (hmoves.periodic h.thread h.periodic) h
  | decides hthread hdue =>
    have hrunning := running_of_decides harmed hthread
    have hidle : s.thread.inFlight = false ∧ s.thread.committed = 0 := by
      obtain hload | ⟨-, target, htimed⟩ := hthread
      · rw [hload]
        exact ⟨rfl, rfl⟩
      · rw [htimed]
        exact ⟨rfl, rfl⟩
    rw [hrunning, hidle.1, hidle.2] at hcount
    refine ⟨h.periodic, rfl, ?_⟩
    simpa [TimerState.decided, TimerState.spare, RunLoop.committed, RunLoop.inFlight,
      Record.isStartOnce] using hcount
  | @begins periodic period hthread =>
    have hthreadPeriodic := h.thread
    rw [hthread] at hcount hthreadPeriodic
    refine ⟨h.periodic, hthreadPeriodic, ?_⟩
    simpa [TimerState.begun, TimerState.spare, RunLoop.committed, RunLoop.inFlight,
      Record.isStartOnce] using hcount
  | @finishes periodic period hthread =>
    have hlocal := h.thread
    rw [hthread] at hcount hlocal
    obtain rfl : periodic = false := hlocal
    refine ⟨h.periodic, rfl, ?_⟩
    simpa [TimerState.finished, TimerState.spare, RunLoop.committed, RunLoop.inFlight] using hcount

theorem RunLoop.periodic_ensure_thread (a : RunLoop) : (ensure_thread a).periodic = a.periodic := by
  cases a <;> rfl

theorem paid_start_once (timeout_us : UInt64) (h : Paid s) : Paid (s.esp_timer_start_once timeout_us).1 := by
  have hcount := h.count
  have halike := RunLoop.alike_ensure_thread s.thread
  refine ⟨rfl, (RunLoop.periodic_ensure_thread s.thread).trans h.thread, ?_⟩
  change (s.log ++ [Record.started false (s.deadline timeout_us)]).count Record.begun +
    (ensure_thread s.thread).committed + (if true && !(ensure_thread s.thread).inFlight then 1 else 0 : Nat) ≤
      (s.log ++ [Record.started false (s.deadline timeout_us)]).countP Record.isStartOnce
  rw [← halike.committed, List.count_append, List.countP_append]
  have hspare : (if true && !(ensure_thread s.thread).inFlight then 1 else 0 : Nat) ≤ 1 := by
    split
    · exact Nat.le_refl 1
    · exact Nat.zero_le 1
  have hnone : [Record.started false (s.deadline timeout_us)].count Record.begun = 0 := by simp
  have hone : [Record.started false (s.deadline timeout_us)].countP Record.isStartOnce = 1 := by
    simp [Record.isStartOnce]
  omega

theorem paid_stop (h : Paid s) : Paid s.esp_timer_stop.1 := by
  have hcount := h.count
  refine ⟨h.periodic, h.thread, ?_⟩
  have hlog : (s.log ++ [Record.stopped]).count Record.begun = s.log.count Record.begun ∧
      (s.log ++ [Record.stopped]).countP Record.isStartOnce = s.log.countP Record.isStartOnce := by
    simp [Record.isStartOnce]
  change (s.log ++ [Record.stopped]).count Record.begun + s.thread.committed + 0 ≤
    (s.log ++ [Record.stopped]).countP Record.isStartOnce
  rw [hlog.1, hlog.2]
  omega

theorem mem_log_of_step {e : TimerEvent} {record : Record} (hstep : TimerStep s e s')
    (hmem : record ∈ s.log) : record ∈ s'.log := by
  cases hstep with
  | advance us => exact hmem
  | run_loop hrun =>
    cases hrun with
    | moves => exact hmem
    | decides => exact List.mem_append_left _ hmem
    | begins => exact List.mem_append_left _ hmem
    | finishes =>
      unfold TimerState.finished
      split <;> exact hmem
  | stirs => exact hmem
  | call call =>
    cases call with
    | esp_timer_start_once => exact List.mem_append_left _ hmem
    | esp_timer_start_periodic period_us =>
      by_cases hzero : period_us = 0
      · simpa [TimerState.call, TimerState.esp_timer_start_periodic, hzero] using hmem
      · simp only [TimerState.call, TimerState.esp_timer_start_periodic, hzero, if_false]
        exact List.mem_append_left _ hmem
    | esp_timer_stop => exact List.mem_append_left _ hmem

def OnlyOnce (s : TimerState) : Prop :=
  (∀ deadline, .started true deadline ∉ s.log) → Paid s

theorem onlyOnce_step (e : TimerEvent) (h : OnlyOnce s) (harmed : Armed s) (hstep : s.step e = some s') :
    OnlyOnce s' := by
  intro honce
  have hs := TimerState.timer_step hstep
  have hpaid : Paid s := h fun deadline hmem => honce deadline (mem_log_of_step hs hmem)
  cases hs with
  | advance us => exact ⟨hpaid.periodic, hpaid.thread, hpaid.count⟩
  | run_loop hrun => exact paid_run_loop hpaid harmed hrun
  | stirs hother hstirs => exact paid_of_alike (s := s) rfl rfl hstirs.alike (hstirs.periodic hpaid.thread) hpaid
  | call call hlock =>
    cases call with
    | esp_timer_start_once timeout_us => exact paid_start_once timeout_us hpaid
    | esp_timer_start_periodic period_us =>
      by_cases hzero : period_us = 0
      · simpa [TimerState.call, TimerState.esp_timer_start_periodic, hzero] using hpaid
      · simp only [TimerState.call, TimerState.esp_timer_start_periodic, hzero, if_false] at honce
        exact absurd (List.mem_append_right _ (List.mem_singleton_self _)) (honce _)
    | esp_timer_stop => exact paid_stop hpaid

end Once

/-- In every state a timer can reach with deadlines below 2^63: a decision to call back
    stands on a running timer whose deadline has passed; since a stop that no start has
    followed at most one callback has begun; and a timer that was only ever started once
    at a time has begun no more callbacks than it has had starts. -/
theorem firing_safe (clock : Nat) (events : List TimerEvent)
    (hdeadlines : ∀ s ∈ timerMachine.visited (esp_timer_create clock) events,
      s.timer.next_fire_us.toNat < 2 ^ 63) :
    ∀ s ∈ timerMachine.visited (esp_timer_create clock) events,
      (s.thread = .fire → s.timer.running = true ∧
        (s.timer.next_fire_us.toNat : Int) ≤ s.esp_timer_get_time) ∧
      (∀ before after, s.log = before ++ .stopped :: after →
        (∀ periodic deadline, .started periodic deadline ∉ after) → after.count .begun ≤ 1) ∧
      ((∀ deadline, .started true deadline ∉ s.log) →
        s.log.count .begun ≤ s.log.countP Record.isStartOnce) := by
  have hinvariant : ∀ s ∈ timerMachine.visited (esp_timer_create clock) events,
      Armed s ∧ Quiet s ∧ OnlyOnce s := by
    refine Lib.EventMachine.visited_invariant ?_ ⟨armed_of_not_sawRunning rfl rfl, ?_, ?_⟩
    · intro s e s' ⟨harmed, hquiet, honce⟩ hstep
      exact ⟨armed_step e harmed hstep, quiet_step e hquiet harmed hstep,
        onlyOnce_step e honce harmed hstep⟩
    · intro n hn
      cases hn
    · intro _
      exact ⟨rfl, rfl, Nat.le_refl 0⟩
  intro s hs
  obtain ⟨harmed, hquiet, honce⟩ := hinvariant s hs
  refine ⟨?_, ?_, ?_⟩
  · intro hfire
    refine ⟨harmed.running ?_, le_time_of_due (harmed.due hfire) (hdeadlines s hs)⟩
    rw [hfire]
    rfl
  · intro before after hlog hstart
    obtain ⟨n, hn, hcount⟩ := count_begun_le_sinceStop before after hstart
    obtain ⟨-, hone⟩ := hquiet n (by rw [hlog, hn])
    omega
  · intro hperiodic
    have hcount := (honce hperiodic).count
    omega

/-- A one-shot timer that is stopped after the thread has unlocked for its callback. -/
theorem firing_safe_stopped :
    ∃ s ∈ timerMachine.visited (esp_timer_create 0)
        [.call (.esp_timer_start_once 5), .advance 10, .run_loop, .run_loop, .run_loop, .run_loop,
          .run_loop, .call .esp_timer_stop, .run_loop],
      s.log = [.started false 5, .decided, .stopped, .begun] ∧
        s.log.count .begun ≤ s.log.countP Record.isStartOnce := by
  refine ⟨?state, ?mem, ?log, (firing_safe 0 _ ?deadlines ?state ?mem).2.2 ?once⟩
  case mem =>
    refine Lib.EventMachine.mem_visited_iff.mpr ⟨_, List.prefix_refl _, ?_⟩
    rfl
  case log => rfl
  case deadlines => decide +kernel
  case once =>
    intro deadline hmem
    change Record.started true deadline ∈ [.started false 5, .decided, .stopped, .begun] at hmem
    simp at hmem

end HostArduino.esp_timer
