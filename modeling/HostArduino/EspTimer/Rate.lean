import HostArduino.EspTimer.Firing
import Mathlib.Tactic.Ring

namespace HostArduino.esp_timer

variable {s s' : TimerState} {p q since : Nat}

/-- The starts ask for at least `p` and at most `q` microseconds, and the clock stays that far
    away from the end of an `int64_t`. -/
def Timed (p q : Nat) (s : TimerState) : TimerEvent → Prop
  | .call (.esp_timer_start_once timeout_us) => p ≤ timeout_us.toNat ∧ timeout_us.toNat ≤ q
  | .call (.esp_timer_start_periodic period_us) =>
    period_us = 0 ∨ p ≤ period_us.toNat ∧ period_us.toNat ≤ q
  | .advance us => s.clock + us + q < 2 ^ 63
  | _ => True

/-- The period that the thread will start again with after the callback. -/
def RunLoop.period : RunLoop → Option UInt64
  | .unlocked true period | .callback true period | .relocked true period => some period
  | _ => none

/-- No callback has begun since then, and the next one will not before `p` has passed. -/
structure Paced (p q since : Nat) (s : TimerState) : Prop where
  clock : s.clock + q < 2 ^ 63
  past : since ≤ s.clock
  deadline : s.timer.next_fire_us.toNat < 2 ^ 63
  period : s.timer.periodic = true → p ≤ s.timer.period_us.toNat ∧ s.timer.period_us.toNat ≤ q
  thread : ∀ period, s.thread.period = some period → p ≤ period.toNat ∧ period.toNat ≤ q
  committed : s.thread.committed = 1 → since + p ≤ s.clock
  waiting : s.thread.inFlight = false → s.timer.running = true → since + p ≤ s.timer.next_fire_us.toNat

theorem toNat_deadline {timeout_us : UInt64} (hclock : s.clock + q < 2 ^ 63) (htimeout : timeout_us.toNat ≤ q) :
    (s.deadline timeout_us).toNat = s.clock + timeout_us.toNat := by
  rw [TimerState.deadline, UInt64.toNat_add, UInt64.toNat_ofNat']
  omega

theorem Moves.period {a b : RunLoop} (h : Moves s a b) {period : UInt64} (hperiod : b.period = some period) :
    a.period = some period ∨ s.timer.periodic = true ∧ s.timer.period_us = period := by
  cases h with
  | unlock =>
    cases hperiodic : s.timer.periodic with
    | true =>
      rw [hperiodic] at hperiod
      exact .inr ⟨rfl, Option.some.inj hperiod⟩
    | false =>
      rw [hperiodic] at hperiod
      cases hperiod
  | @relock periodic _ => cases periodic <;> exact .inl hperiod
  | _ => cases hperiod

theorem Stirs.period {a b : RunLoop} (h : Stirs a b) : a.period = b.period := by
  cases h <;> rfl

theorem RunLoop.period_ensure_thread (a : RunLoop) : (ensure_thread a).period = a.period := by
  cases a <;> rfl

theorem paced_of_alike (hclock : s'.clock = s.clock) (htimer : s'.timer = s.timer)
    (halike : s.thread.Alike s'.thread)
    (hthread : ∀ period, s'.thread.period = some period → p ≤ period.toNat ∧ period.toNat ≤ q)
    (h : Paced p q since s) : Paced p q since s' := by
  refine ⟨?_, ?_, ?_, ?_, hthread, ?_, ?_⟩
  · rw [hclock]
    exact h.clock
  · rw [hclock]
    exact h.past
  · rw [htimer]
    exact h.deadline
  · rw [htimer]
    exact h.period
  · rw [hclock, ← halike.committed]
    exact h.committed
  · rw [htimer, ← halike.inFlight]
    exact h.waiting

theorem paced_advance {us : Nat} (hclock : s.clock + us + q < 2 ^ 63) (h : Paced p q since s) :
    Paced p q since { s with clock := s.clock + us } where
  clock := hclock
  past := Nat.le_trans h.past (Nat.le_add_right _ _)
  deadline := h.deadline
  period := h.period
  thread := h.thread
  committed hcommitted := Nat.le_trans (h.committed hcommitted) (Nat.le_add_right _ _)
  waiting := h.waiting

/-- The thread decides to call back when the deadline has passed. -/
theorem paced_decided (harmed : Armed s)
    (hthread : s.thread = .load ∨ s.timer.running = true ∧ ∃ target, s.thread = .waited (.timed target))
    (hdue : s.early s.timer.next_fire_us = false) (h : Paced p q since s) : Paced p q since s.decided := by
  have hwaiting : s.thread.inFlight = false := by
    obtain hload | ⟨-, target, htimed⟩ := hthread
    · rw [hload]
      rfl
    · rw [htimed]
      rfl
  have hpassed : since + p ≤ s.clock := by
    have hdeadline := h.waiting hwaiting (running_of_decides harmed hthread)
    have htime : (s.timer.next_fire_us.toNat : Int) ≤ s.clock := le_time_of_due hdue h.deadline
    omega
  exact ⟨h.clock, h.past, h.deadline, h.period, nofun, fun _ => hpassed, nofun⟩

/-- It waits for as long again from when it is back from a callback. -/
theorem paced_finished {periodic : Bool} {period : UInt64} (hthread : s.thread = .relocked periodic period)
    (h : Paced p q since s) : Paced p q since (s.finished periodic period) := by
  unfold TimerState.finished
  split
  · rename_i hagain
    obtain ⟨rfl, -⟩ := Bool.and_eq_true_iff.mp hagain
    obtain ⟨hleast, hmost⟩ := h.thread period (by rw [hthread]; rfl)
    have hdeadline : (s.deadline period).toNat = s.clock + period.toNat := toNat_deadline h.clock hmost
    have hclock := h.clock
    have hpast := h.past
    refine ⟨h.clock, h.past, ?_, h.period, nofun, nofun, fun _ _ => ?_⟩
    · change (s.deadline period).toNat < 2 ^ 63
      omega
    · change since + p ≤ (s.deadline period).toNat
      omega
  · exact ⟨h.clock, h.past, h.deadline, h.period, nofun, nofun, fun _ => nofun⟩

/-- From a call that starts the timer it takes as long. -/
theorem paced_started {periodic : Bool} {period_us timeout_us : UInt64} {notifying : Nat} {log : List Record}
    (hperiod : periodic = true → period_us = timeout_us) (hleast : p ≤ timeout_us.toNat)
    (hmost : timeout_us.toNat ≤ q) (h : Paced p q since s) :
    Paced p q since { s with
      timer := { s.timer with periodic, period_us, next_fire_us := s.deadline timeout_us, running := true }
      thread := ensure_thread s.thread
      notifying
      log } := by
  have hdeadline : (s.deadline timeout_us).toNat = s.clock + timeout_us.toNat := toNat_deadline h.clock hmost
  have halike := s.thread.alike_ensure_thread
  have hclock := h.clock
  have hpast := h.past
  refine ⟨h.clock, h.past, ?_, fun hperiodic => ?_, ?_, ?_, fun _ _ => ?_⟩
  · change (s.deadline timeout_us).toNat < 2 ^ 63
    omega
  · change p ≤ period_us.toNat ∧ period_us.toNat ≤ q
    rw [hperiod hperiodic]
    exact ⟨hleast, hmost⟩
  · rw [s.thread.period_ensure_thread]
    exact h.thread
  · rw [← halike.committed]
    exact h.committed
  · change since + p ≤ (s.deadline timeout_us).toNat
    omega

theorem paced_stopped (h : Paced p q since s) : Paced p q since s.esp_timer_stop.1 where
  clock := h.clock
  past := h.past
  deadline := h.deadline
  period := h.period
  thread := h.thread
  committed := h.committed
  waiting _ hrunning := absurd hrunning Bool.false_ne_true

theorem paced_call {call : TimerCall} (htimed : Timed p q s (.call call)) (h : Paced p q since s) :
    Paced p q since (s.call call) := by
  cases call with
  | esp_timer_start_once timeout_us =>
    exact paced_started (fun honce => absurd honce Bool.false_ne_true) htimed.1 htimed.2 h
  | esp_timer_start_periodic period_us =>
    by_cases hzero : period_us = 0
    · simpa [TimerState.call, TimerState.esp_timer_start_periodic, hzero] using h
    · obtain ⟨hleast, hmost⟩ := htimed.resolve_left hzero
      simp only [TimerState.call, TimerState.esp_timer_start_periodic, hzero, if_false]
      exact paced_started (fun _ => rfl) hleast hmost h
  | esp_timer_stop => exact paced_stopped h

/-- When a callback begins, `p` has passed. -/
theorem paced_begun {periodic : Bool} {period : UInt64} (hthread : s.thread = .unlocked periodic period)
    (h : Paced p q since s) : since + p ≤ s.clock ∧ Paced p q s.clock (s.begun periodic period) := by
  refine ⟨h.committed (by rw [hthread]; rfl), h.clock, Nat.le_refl _, h.deadline, h.period, ?_, nofun, nofun⟩
  intro period' hperiod
  refine h.thread period' ?_
  rw [hthread]
  cases periodic with
  | true => exact hperiod
  | false => cases hperiod

theorem count_begun_append {log : List Record} {record : Record} (hother : record ≠ .begun) :
    (log ++ [record]).count .begun = log.count .begun := by
  simp [List.count_append, hother]

theorem count_begun_call (call : TimerCall) : (s.call call).log.count .begun = s.log.count .begun := by
  cases call with
  | esp_timer_start_once timeout_us => exact count_begun_append (by simp)
  | esp_timer_start_periodic period_us =>
    by_cases hzero : period_us = 0
    · simp [TimerState.call, TimerState.esp_timer_start_periodic, hzero]
    · simp only [TimerState.call, TimerState.esp_timer_start_periodic, hzero, if_false]
      exact count_begun_append (by simp)
  | esp_timer_stop => exact count_begun_append (by simp)

theorem clock_call (call : TimerCall) : (s.call call).clock = s.clock := by
  cases call with
  | esp_timer_start_periodic period_us =>
    by_cases hzero : period_us = 0 <;> simp [TimerState.call, TimerState.esp_timer_start_periodic, hzero]
  | _ => rfl

/-- A step either begins no callback or begins one that was due. -/
theorem paced_step {e : TimerEvent} (harmed : Armed s) (htimed : Timed p q s e) (hstep : s.step e = some s')
    (h : Paced p q since s) :
    (s'.log.count .begun = s.log.count .begun ∧ s.clock ≤ s'.clock ∧ Paced p q since s') ∨
      (s'.log.count .begun = s.log.count .begun + 1 ∧ s'.clock = s.clock ∧ since + p ≤ s.clock ∧
        Paced p q s.clock s') := by
  cases TimerState.timer_step hstep with
  | advance us => exact .inl ⟨rfl, Nat.le_add_right _ _, paced_advance htimed h⟩
  | run_loop hrun =>
    cases hrun with
    | @moves thread hmoves =>
      refine .inl ⟨rfl, Nat.le_refl _, paced_of_alike (s := s) rfl rfl hmoves.alike (fun period hperiod => ?_) h⟩
      obtain hbefore | ⟨hperiodic, rfl⟩ := hmoves.period hperiod
      · exact h.thread period hbefore
      · exact h.period hperiodic
    | decides hthread hdue =>
      exact .inl ⟨count_begun_append (by simp), Nat.le_refl _, paced_decided harmed hthread hdue h⟩
    | begins hthread =>
      obtain ⟨hpassed, hpaced⟩ := paced_begun hthread h
      exact .inr ⟨by simp [TimerState.begun], rfl, hpassed, hpaced⟩
    | @finishes periodic period hthread =>
      have hsame : (s.finished periodic period).log = s.log ∧ (s.finished periodic period).clock = s.clock := by
        unfold TimerState.finished
        split <;> exact ⟨rfl, rfl⟩
      refine .inl ⟨?_, ?_, paced_finished hthread h⟩
      · rw [hsame.1]
      · rw [hsame.2]
  | stirs hother hstirs =>
    refine .inl ⟨rfl, Nat.le_refl _, paced_of_alike (s := s) rfl rfl hstirs.alike (fun period hperiod => ?_) h⟩
    exact h.thread period (hstirs.period.trans hperiod)
  | call call hlock =>
    exact .inl ⟨count_begun_call call, (clock_call call).ge, paced_call htimed h⟩

/-- The callbacks since a state that a timer has been in, the first of them apart, and those
    since its beginning. -/
structure Rated (p q clock start begun : Nat) (s : TimerState) : Prop where
  armed : Armed s
  before : start ≤ s.clock ∧ begun ≤ s.log.count .begun
  paced : ∃ since, Paced p q since s ∧ clock + s.log.count .begun * p ≤ since ∧
    (begun < s.log.count .begun → start + (s.log.count .begun - begun - 1) * p ≤ since)

theorem rated_step {clock start begun : Nat} (e : TimerEvent) (h : Rated p q clock start begun s)
    (htimed : Timed p q s e) (hstep : s.step e = some s') : Rated p q clock start begun s' := by
  obtain ⟨harmed, ⟨hstart, hbegun⟩, since, hpaced, hall, hwindow⟩ := h
  have harmed' := armed_step e harmed hstep
  obtain ⟨hcount, hclock, hpaced'⟩ | ⟨hcount, hclock, hpassed, hpaced'⟩ := paced_step harmed htimed hstep hpaced
  · refine ⟨harmed', ⟨Nat.le_trans hstart hclock, ?_⟩, since, hpaced', ?_, ?_⟩
    · rwa [hcount]
    · rwa [hcount]
    · rwa [hcount]
  · refine ⟨harmed', ⟨hclock.symm ▸ hstart, by omega⟩, s.clock, hpaced', ?_, fun _ => ?_⟩
    · rw [hcount, Nat.succ_mul]
      omega
    · obtain hfirst | hlater := Nat.eq_or_lt_of_le hbegun
      · rw [hcount, ← hfirst, Nat.add_sub_cancel_left, Nat.sub_self, Nat.zero_mul]
        exact hstart
      · have hmore := hwindow hlater
        have hone : s'.log.count .begun - begun - 1 = (s.log.count .begun - begun - 1) + 1 := by omega
        rw [hone, Nat.succ_mul]
        omega

theorem rated_run {clock start begun : Nat} {events : List TimerEvent} (h : Rated p q clock start begun s)
    (hmeets : timerMachine.Meets (Timed p q) s events) (hrun : timerMachine.run s events = some s') :
    Rated p q clock start begun s' := by
  refine Lib.EventMachine.visited_of_meets ?_ h hmeets s' ?_
  · intro s e s' h htimed hstep
    exact rated_step e h htimed hstep
  · exact Lib.EventMachine.mem_visited_iff.mpr ⟨events, List.prefix_refl _, hrun⟩

theorem rated_create {clock : Nat} (hclock : clock + q < 2 ^ 63) : Rated p q clock clock 0 (esp_timer_create clock) where
  armed := armed_of_not_sawRunning rfl rfl
  before := ⟨Nat.le_refl _, Nat.le_refl _⟩
  paced := by
    refine ⟨clock, ⟨hclock, Nat.le_refl _, ?_, nofun, nofun, nofun, fun _ => nofun⟩, ?_, fun hnone => ?_⟩
    · change (0 : UInt64).toNat < 2 ^ 63
      simp
    · change clock + 0 * p ≤ clock
      simp
    · exact absurd hnone (Nat.lt_irrefl 0)

/-- However the calls interleave with the timer thread, when all starts ask for at least `p`
    microseconds no more callbacks begin than that allows: since the timer was made, and in
    any stretch of the run, where the first may have been due. -/
theorem callbacks_paced {clock : Nat} (hclock : clock + q < 2 ^ 63) {events more : List TimerEvent}
    (hmeets : timerMachine.Meets (Timed p q) (esp_timer_create clock) events)
    (hrun : timerMachine.run (esp_timer_create clock) events = some s)
    (hmeets' : timerMachine.Meets (Timed p q) s more) (hrun' : timerMachine.run s more = some s') :
    clock + s.log.count .begun * p ≤ s.clock ∧
      (s'.log.count .begun - s.log.count .begun) * p ≤ s'.clock - s.clock + p := by
  obtain ⟨harmed, -, since, hpaced, hall, -⟩ := rated_run (rated_create hclock) hmeets hrun
  have hstretch : Rated p q clock s.clock (s.log.count .begun) s :=
    ⟨harmed, ⟨Nat.le_refl _, Nat.le_refl _⟩, since, hpaced, hall, fun hnone => absurd hnone (Nat.lt_irrefl _)⟩
  obtain ⟨-, ⟨-, hbegun⟩, since', hpaced', -, hwindow⟩ := rated_run hstretch hmeets' hrun'
  have hpast := hpaced'.past
  refine ⟨Nat.le_trans hall hpaced.past, ?_⟩
  obtain hnone | hsome := Nat.eq_or_lt_of_le hbegun
  · rw [hnone, Nat.sub_self, Nat.zero_mul]
    exact Nat.zero_le _
  · have hlater := hwindow hsome
    obtain ⟨k, hk⟩ : ∃ k, s'.log.count .begun - s.log.count .begun = k + 1 :=
      ⟨s'.log.count .begun - s.log.count .begun - 1, by omega⟩
    rw [hk, Nat.add_sub_cancel] at hlater
    rw [hk, Nat.succ_mul]
    omega

/-- A periodic timer that is late begins the next callback when its period has passed again. -/
theorem callbacks_paced_late :
    ∃ s s', timerMachine.run (esp_timer_create 0)
        [.call (.esp_timer_start_periodic 10), .advance 25, .run_loop, .run_loop, .run_loop, .run_loop] = some s ∧
      timerMachine.run s [.run_loop, .run_loop, .run_loop, .run_loop, .advance 10, .run_loop, .run_loop, .run_loop,
        .run_loop, .run_loop] = some s' ∧ s'.log.count .begun = 2 ∧
      0 + s.log.count .begun * 10 ≤ s.clock ∧
        (s'.log.count .begun - s.log.count .begun) * 10 ≤ s'.clock - s.clock + 10 := by
  have hstart : (10 : UInt64) = 0 ∨ 10 ≤ (10 : UInt64).toNat ∧ (10 : UInt64).toNat ≤ 10 :=
    .inr ⟨Nat.le_refl _, Nat.le_refl _⟩
  refine ⟨?before, ?after, ?run, ?rest, ?count, callbacks_paced (q := 10) (by omega) ?meets ?run ?meets' ?rest⟩
  case run => rfl
  case rest => rfl
  case count => rfl
  case meets =>
    refine .cons hstart rfl (.cons ?_ rfl ?_)
    · change 0 + 25 + 10 < 2 ^ 63
      omega
    · exact .cons trivial rfl (.cons trivial rfl (.cons trivial rfl (.cons trivial rfl trivial)))
  case meets' =>
    refine .cons trivial rfl (.cons trivial rfl (.cons trivial rfl (.cons trivial rfl (.cons ?_ rfl ?_))))
    · change 25 + 10 + 10 < 2 ^ 63
      omega
    · exact .cons trivial rfl (.cons trivial rfl (.cons trivial rfl (.cons trivial rfl (.cons trivial rfl trivial))))

end HostArduino.esp_timer
