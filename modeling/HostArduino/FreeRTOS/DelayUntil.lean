import HostArduino.FreeRTOS.Ticks

namespace HostArduino.freertos

/-- What a call of `vTaskDelayUntil` was given, what `xTaskGetTickCount` would have read
    at it, how many milliseconds it sleeps and what it stores. -/
structure DelayCall where
  prev_wake : TickType_t
  increment : TickType_t
  tick : TickType_t
  sleeps : Nat
  next_wake : TickType_t
  deriving DecidableEq, Repr

/-- The steady clock in nanoseconds, the origin that each function keeps for itself and
    takes on its first call, and the calls of `vTaskDelayUntil` so far. -/
structure TaskClocks where
  now : Nat
  delay_t0 : Option Nat
  count_t0 : Option Nat
  calls : List DelayCall
  deriving DecidableEq, Repr

def TaskClocks.boot (now : Nat) : TaskClocks where
  now
  delay_t0 := none
  count_t0 := none
  calls := []

/-- Whole milliseconds since an origin, or 0 when it is taken now. -/
def elapsed_ms (now : Nat) (t0 : Option Nat) : Nat :=
  (now - t0.getD now) / 1000000

def xTaskGetTickCount (c : TaskClocks) : TickType_t × TaskClocks :=
  (UInt32.ofNat (elapsed_ms c.now c.count_t0), { c with count_t0 := some (c.count_t0.getD c.now) })

/-- The milliseconds of a `vTaskDelay`; zero ticks are a yield. -/
def vTaskDelay (ticks : TickType_t) : Nat :=
  ticks.toNat

/-- How long the call sleeps, what it stores behind the pointer (`none` for a null one),
    and the clocks once it goes to sleep. -/
def vTaskDelayUntil (prev_wake : Option TickType_t) (increment : TickType_t) (c : TaskClocks) :
    Nat × Option TickType_t × TaskClocks :=
  match prev_wake with
  | none => (vTaskDelay increment, none, c)
  | some prev_wake =>
    let target_ms : Int := prev_wake.toNat + increment.toNat
    let remain := target_ms - elapsed_ms c.now c.delay_t0
    let sleeps := if 0 < remain then remain.toNat else 0
    (sleeps, some (prev_wake + increment),
      { c with
        delay_t0 := some (c.delay_t0.getD c.now)
        calls := c.calls ++
          [⟨prev_wake, increment, (xTaskGetTickCount c).1, sleeps, prev_wake + increment⟩] })

/-- The tasks' calls as they begin, and the time that passes, sleeping or not. -/
inductive DelayEvent where
  | elapse (nanoseconds : Nat)
  | xTaskGetTickCount
  | vTaskDelayUntil (prev_wake : Option TickType_t) (increment : TickType_t)
  deriving DecidableEq, Repr

def TaskClocks.apply (c : TaskClocks) : DelayEvent → TaskClocks
  | .elapse nanoseconds => { c with now := c.now + nanoseconds }
  | .xTaskGetTickCount => (freertos.xTaskGetTickCount c).2
  | .vTaskDelayUntil prev_wake increment => (freertos.vTaskDelayUntil prev_wake increment c).2.2

def delayMachine : Lib.EventMachine TaskClocks DelayEvent :=
  .total TaskClocks.apply

/-- A call that was due no earlier than its last wake sleeps up to the tick it is due at,
    and stores that tick. -/
def DelayCall.OnTime (call : DelayCall) : Prop :=
  call.prev_wake ≤ call.tick →
    (call.sleeps : Int) = max 0 ((call.prev_wake.toNat : Int) + call.increment.toNat - call.tick.toNat) ∧
      call.next_wake = call.prev_wake + call.increment

/-- The two clocks agree at the call: its own milliseconds are the ticks that
    `xTaskGetTickCount` would read, or both are already past the tick it is due at. -/
def SameClock (c : TaskClocks) : DelayEvent → Prop
  | .vTaskDelayUntil (some prev_wake) increment =>
    prev_wake ≤ (xTaskGetTickCount c).1 →
      elapsed_ms c.now c.delay_t0 = (xTaskGetTickCount c).1.toNat ∨
        prev_wake.toNat + increment.toNat ≤ elapsed_ms c.now c.delay_t0 ∧
          prev_wake.toNat + increment.toNat ≤ (xTaskGetTickCount c).1.toNat
  | _ => True

/-- The call's own sleep, whatever the ticks say. -/
theorem vTaskDelayUntil_sleeps (prev_wake increment : TickType_t) (c : TaskClocks) :
    ((vTaskDelayUntil (some prev_wake) increment c).1 : Int) =
      max 0 ((prev_wake.toNat : Int) + increment.toNat - elapsed_ms c.now c.delay_t0) := by
  simp only [vTaskDelayUntil]
  split <;> omega

/-- Only a call with a pointer is recorded; for all other events the guard asks nothing. -/
theorem apply_calls (c : TaskClocks) (e : DelayEvent) :
    ((c.apply e).calls = c.calls ∧ SameClock c e) ∨ ∃ prev_wake increment,
      e = .vTaskDelayUntil (some prev_wake) increment ∧
      (c.apply e).calls = c.calls ++ [⟨prev_wake, increment, (xTaskGetTickCount c).1,
        (vTaskDelayUntil (some prev_wake) increment c).1, prev_wake + increment⟩] := by
  cases e with
  | elapse nanoseconds => exact .inl ⟨rfl, trivial⟩
  | xTaskGetTickCount => exact .inl ⟨rfl, trivial⟩
  | vTaskDelayUntil prev_wake increment =>
    cases prev_wake with
    | none => exact .inl ⟨rfl, trivial⟩
    | some prev_wake => exact .inr ⟨prev_wake, increment, rfl, rfl⟩

theorem onTime_iff_sameClock (prev_wake increment : TickType_t) (c : TaskClocks) :
    DelayCall.OnTime ⟨prev_wake, increment, (xTaskGetTickCount c).1,
        (vTaskDelayUntil (some prev_wake) increment c).1, prev_wake + increment⟩ ↔
      SameClock c (.vTaskDelayUntil (some prev_wake) increment) := by
  have hsleeps := vTaskDelayUntil_sleeps prev_wake increment c
  simp only [DelayCall.OnTime, SameClock, hsleeps, and_true]
  refine imp_congr_right fun _ => ?_
  omega

/-- In a history of tasks every call of `vTaskDelayUntil` sleeps by the ticks of
    `xTaskGetTickCount` exactly when at every call the two clocks agree, which they keep
    from origins of their own. -/
theorem vTaskDelayUntil_onTime_iff (now : Nat) (events : List DelayEvent) :
    (∀ c ∈ delayMachine.visited (.boot now) events, ∀ call ∈ c.calls, call.OnTime) ↔
      delayMachine.Meets SameClock (.boot now) events := by
  have hstep : ∀ c e c', (∀ call ∈ c.calls, call.OnTime) → delayMachine.step c e = some c' →
      ((∀ call ∈ c'.calls, call.OnTime) ↔ SameClock c e) := by
    intro c e c' hc hstep
    obtain rfl : c.apply e = c' := Option.some.inj hstep
    obtain ⟨hsame, hguard⟩ | ⟨prev_wake, increment, rfl, hcalls⟩ := apply_calls c e
    · rw [hsame]
      exact iff_of_true hc hguard
    · rw [hcalls, ← onTime_iff_sameClock]
      simp only [List.mem_append, List.mem_singleton]
      constructor
      · exact fun h => h _ (.inr rfl)
      · rintro h call (hold | rfl)
        · exact hc call hold
        · exact h
  exact Lib.EventMachine.visited_iff_meets (m := delayMachine)
    (P := fun (c : TaskClocks) => ∀ call ∈ c.calls, call.OnTime) hstep
    (fun c e _ => ⟨c.apply e, rfl⟩) (by simp [TaskClocks.boot])

/-- A loop seeded with the tick count one second into the run oversleeps by that second:
    the origin of `vTaskDelayUntil` is taken at its first call. -/
theorem vTaskDelayUntil_oversleeps :
    ∃ c ∈ delayMachine.visited (.boot 0)
        [.xTaskGetTickCount, .elapse 1000000000, .vTaskDelayUntil (some 1000) 100],
      ∃ call ∈ c.calls, call.prev_wake = 1000 ∧ call.increment = 100 ∧ call.tick = 1000 ∧
        call.sleeps = 1100 :=
  ⟨_, Lib.EventMachine.mem_visited_iff.mpr ⟨_, List.prefix_refl _, rfl⟩, _, List.mem_singleton_self _,
    rfl, rfl, rfl, rfl⟩

/-- One round of a periodic task: some work, then the sleep of `vTaskDelayUntil`. -/
def periodicRound (increment : TickType_t) (state : TickType_t × TaskClocks) (work : Nat) :
    TickType_t × TaskClocks :=
  let (sleeps, prev_wake, c) := vTaskDelayUntil (some state.1) increment (state.2.apply (.elapse work))
  (prev_wake.getD state.1, c.apply (.elapse (1000000 * sleeps)))

/-- The origins coincide, and the task is at the tick it was last due at. -/
structure InStep (state : TickType_t × TaskClocks) : Prop where
  origins : ∃ t0, state.2.delay_t0 = some t0 ∧ state.2.count_t0 = some t0 ∧ t0 ≤ state.2.now
  tick : elapsed_ms state.2.now state.2.count_t0 = state.1.toNat

/-- From coinciding origins a task whose work fits its period wakes one period after its
    last wake. -/
theorem InStep.round {state : TickType_t × TaskClocks} (h : InStep state) {increment : TickType_t}
    {work : Nat} (hwork : work + 1000000 ≤ 1000000 * increment.toNat)
    (hwrap : state.1.toNat + increment.toNat < 2 ^ 32) :
    InStep (periodicRound increment state work) ∧
      (periodicRound increment state work).1.toNat = state.1.toNat + increment.toNat := by
  obtain ⟨prev_wake, c⟩ := state
  obtain ⟨⟨t0, hdelay, hcount, hle⟩, htick⟩ := h
  simp only at hdelay hcount hle htick hwrap
  have hsleeps := vTaskDelayUntil_sleeps prev_wake increment (c.apply (.elapse work))
  have hnow : (periodicRound increment (prev_wake, c) work).2.now =
      c.now + work + 1000000 * (vTaskDelayUntil (some prev_wake) increment (c.apply (.elapse work))).1 :=
    rfl
  have hsum : (periodicRound increment (prev_wake, c) work).1.toNat =
      prev_wake.toNat + increment.toNat :=
    (UInt32.toNat_add _ _).trans (Nat.mod_eq_of_lt hwrap)
  have hdelay' : (periodicRound increment (prev_wake, c) work).2.delay_t0 = some t0 := by
    have hkept : c.delay_t0.getD (c.now + work) = t0 := by
      rw [show c.delay_t0 = some t0 from hdelay, Option.getD_some]
    exact congrArg some hkept
  have hcount' : (periodicRound increment (prev_wake, c) work).2.count_t0 = some t0 := hcount
  have helapsed : elapsed_ms (c.apply (.elapse work)).now (c.apply (.elapse work)).delay_t0 =
      (c.now + work - t0) / 1000000 := by
    simp only [elapsed_ms, TaskClocks.apply, hdelay, Option.getD_some]
  rw [helapsed] at hsleeps
  rw [elapsed_ms, hcount, Option.getD_some] at htick
  refine ⟨⟨⟨t0, hdelay', hcount', by omega⟩, ?_⟩, hsum⟩
  rw [elapsed_ms, hcount', hnow, hsum, Option.getD_some]
  omega

/-- A periodic task stays in step without drift: after any number of rounds it wakes at
    that many periods from its seed. -/
theorem InStep.rounds {state : TickType_t × TaskClocks} (h : InStep state) {increment : TickType_t}
    {works : List Nat} (hworks : ∀ work ∈ works, work + 1000000 ≤ 1000000 * increment.toNat)
    (hwrap : state.1.toNat + works.length * increment.toNat < 2 ^ 32) :
    InStep (works.foldl (periodicRound increment) state) ∧
      (works.foldl (periodicRound increment) state).1.toNat =
        state.1.toNat + works.length * increment.toNat := by
  induction works generalizing state with
  | nil => simpa using h
  | cons work works ih =>
    rw [List.length_cons, Nat.succ_mul] at hwrap ⊢
    obtain ⟨hround, hwake⟩ := h.round (hworks work List.mem_cons_self) (by omega)
    obtain ⟨hrest, hlast⟩ := ih hround (fun w hw => hworks w (List.mem_cons_of_mem work hw)) (by omega)
    refine ⟨hrest, ?_⟩
    rw [List.foldl_cons, hlast, hwake]
    omega

end HostArduino.freertos
