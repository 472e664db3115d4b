import HostArduino.FreeRTOS.Ticks

namespace HostArduino.freertos

/-- What a task's control block holds of its notifications, guarded by `notify_mutex`. -/
structure TaskControl where
  notify_value : UInt32
  deriving DecidableEq, Repr

def TaskControl.create : TaskControl where
  notify_value := 0

/-- What a call did: a give, or a take with its mode and the value it returned. -/
inductive NotifyResult where
  | gave
  | took (clear_on_exit : Bool) (v : UInt32)
  deriving DecidableEq, Repr

/-- The end of `ulTaskNotifyTake`, behind the predicate that the value is positive. -/
def TaskControl.proceed (self : TaskControl) (clear_on_exit : Bool) : Option (TaskControl × NotifyResult) :=
  if 0 < self.notify_value then
    let v := self.notify_value
    if clear_on_exit then some ({ self with notify_value := 0 }, .took clear_on_exit v)
    else some ({ self with notify_value := self.notify_value - 1 }, .took clear_on_exit v)
  else none

abbrev NotifyOutcome :=
  Lib.Outcome TaskControl (Wait Bool) NotifyResult

/-- A null handle never gets this far. -/
def xTaskNotifyGive (task : TaskControl) : NotifyOutcome :=
  .returns { task with notify_value := task.notify_value + 1 } .gave

def xTaskNotifyGiveFromISR (task : TaskControl) : NotifyOutcome :=
  xTaskNotifyGive task

def ulTaskNotifyTake (self : TaskControl) (clear_on_exit : Bool) (ticks_to_wait : TickType_t) :
    NotifyOutcome :=
  attempt self (self.proceed clear_on_exit) (.took clear_on_exit 0) clear_on_exit ticks_to_wait

/-- The calls that reach a control block: gives from any task, takes from its own. -/
inductive NotifyCall where
  | xTaskNotifyGive
  | xTaskNotifyGiveFromISR
  | ulTaskNotifyTake (clear_on_exit : Bool) (ticks_to_wait : TickType_t)
  deriving DecidableEq, Repr

def NotifyCall.enter (c : TaskControl) : NotifyCall → NotifyOutcome
  | .xTaskNotifyGive => freertos.xTaskNotifyGive c
  | .xTaskNotifyGiveFromISR => freertos.xTaskNotifyGiveFromISR c
  | .ulTaskNotifyTake clear_on_exit ticks_to_wait =>
    freertos.ulTaskNotifyTake c clear_on_exit ticks_to_wait

/-- One task's notifications. Which task makes a call plays no part in it. -/
def notifyMonitor (τ : Type*) : Lib.Monitor τ TaskControl NotifyCall (Wait Bool) NotifyResult where
  enter _ call c := call.enter c
  resume _ wait c := c.proceed wait.rest
  expire wait := wait.expire (.took wait.rest 0)

abbrev NotifyState (τ : Type*) :=
  Lib.Monitor.State τ TaskControl (Wait Bool) NotifyResult

/-- All that a call can have done to the control block when it returns. -/
inductive TaskControl.Move (c : TaskControl) : TaskControl → NotifyResult → Prop
  | gave : TaskControl.Move c { c with notify_value := c.notify_value + 1 } .gave
  | cleared (hvalue : 0 < c.notify_value) :
      TaskControl.Move c { c with notify_value := 0 } (.took true c.notify_value)
  | counted (hvalue : 0 < c.notify_value) :
      TaskControl.Move c { c with notify_value := c.notify_value - 1 } (.took false c.notify_value)
  | empty (clear_on_exit : Bool) (hvalue : c.notify_value = 0) :
      TaskControl.Move c c (.took clear_on_exit 0)

/-- The notifications that one call adds, and those that it takes away. -/
@[simp] def NotifyResult.gives : NotifyResult → Nat
  | .gave => 1
  | .took .. => 0

@[simp] def NotifyResult.takes : NotifyResult → Nat
  | .gave => 0
  | .took clear_on_exit v => if v = 0 then 0 else if clear_on_exit then v.toNat else 1

def given {τ : Type*} (log : List (τ × NotifyResult)) : Nat :=
  (log.map fun entry => entry.2.gives).sum

def taken {τ : Type*} (log : List (τ × NotifyResult)) : Nat :=
  (log.map fun entry => entry.2.takes).sum

variable {τ : Type*} {c c' : TaskControl} {r : NotifyResult}

@[simp] theorem given_concat (log : List (τ × NotifyResult)) (t : τ) (r : NotifyResult) :
    given (log ++ [(t, r)]) = given log + r.gives := by
  simp [given]

@[simp] theorem taken_concat (log : List (τ × NotifyResult)) (t : τ) (r : NotifyResult) :
    taken (log ++ [(t, r)]) = taken log + r.takes := by
  simp [taken]

theorem TaskControl.proceed_move {clear_on_exit : Bool} (h : c.proceed clear_on_exit = some (c', r)) :
    c.Move c' r := by
  unfold TaskControl.proceed at h
  split at h
  · rename_i hvalue
    cases clear_on_exit with
    | true =>
      cases h
      exact .cleared hvalue
    | false =>
      cases h
      exact .counted hvalue
  · cases h

theorem TaskControl.proceed_none {clear_on_exit : Bool} (h : c.proceed clear_on_exit = none) :
    c.notify_value = 0 := by
  by_contra hne
  have hpos : 0 < c.notify_value := UInt32.pos_iff_ne_zero.mpr hne
  cases clear_on_exit <;> simp [TaskControl.proceed, hpos] at h

theorem ulTaskNotifyTake_move {clear_on_exit : Bool} {ticks_to_wait : TickType_t}
    (h : ulTaskNotifyTake c clear_on_exit ticks_to_wait = .returns c' r) : c.Move c' r := by
  unfold ulTaskNotifyTake attempt at h
  split at h
  · rename_i hdone
    cases h
    exact TaskControl.proceed_move hdone
  · rename_i hnone
    split at h
    · cases h
      exact .empty clear_on_exit (TaskControl.proceed_none hnone)
    · cases h

/-- Whichever way a call returns, it has made one of the moves. -/
theorem move_of_returns {st : NotifyState τ} {t : τ} {e : Lib.Monitor.Event τ NotifyCall}
    (h : (notifyMonitor τ).Returns st t e c' r) : st.shared.Move c' r := by
  cases h with
  | @entered call _ _ henter =>
    cases call with
    | xTaskNotifyGive =>
      cases henter
      exact .gave
    | xTaskNotifyGiveFromISR =>
      cases henter
      exact .gave
    | ulTaskNotifyTake clear_on_exit ticks_to_wait => exact ulTaskNotifyTake_move henter
  | resumed hwaiting hresume => exact TaskControl.proceed_move hresume
  | @expired _ wait _ hwaiting hresume hexpire =>
    rw [Wait.eq_of_expire hexpire]
    exact .empty _ (TaskControl.proceed_none hresume)

/-- A move keeps the balance of what was given and what was taken, modulo 2^32. -/
theorem TaskControl.Move.balance (h : c.Move c' r) {gives takes : Nat}
    (hbalance : gives % 2 ^ 32 = (c.notify_value.toNat + takes) % 2 ^ 32) :
    (gives + r.gives) % 2 ^ 32 = (c'.notify_value.toNat + (takes + r.takes)) % 2 ^ 32 := by
  cases h with
  | gave =>
    simp only [NotifyResult.gives, NotifyResult.takes, UInt32.toNat_add, UInt32.toNat_one]
    omega
  | cleared hvalue =>
    have hne := UInt32.pos_iff_ne_zero.mp hvalue
    simp only [NotifyResult.gives, NotifyResult.takes, hne, if_false, if_true, UInt32.toNat_zero]
    omega
  | counted hvalue =>
    have hne := UInt32.pos_iff_ne_zero.mp hvalue
    have hpos := UInt32.lt_iff_toNat_lt.mp hvalue
    simp only [NotifyResult.gives, NotifyResult.takes, hne, if_false, Bool.false_eq_true, UInt32.toNat_sub,
      UInt32.toNat_one, UInt32.toNat_zero] at hpos ⊢
    omega
  | empty clear_on_exit hvalue =>
    simp only [NotifyResult.gives, NotifyResult.takes, if_true]
    omega

/-- The gives are what is still in the value and what the takes have taken. -/
def NotifyBalance (st : NotifyState τ) : Prop :=
  given st.log % 2 ^ 32 = (st.shared.notify_value.toNat + taken st.log) % 2 ^ 32

theorem NotifyBalance.step [DecidableEq τ] {st st' : NotifyState τ} {e : Lib.Monitor.Event τ NotifyCall}
    (hbalance : NotifyBalance st) (hstep : (notifyMonitor τ).step st e = some st') :
    NotifyBalance st' := by
  obtain ⟨c', r, hreturns, rfl⟩ | ⟨wait, rfl⟩ | rfl := Lib.Monitor.step_cases hstep
  · have hmove := (move_of_returns hreturns).balance hbalance
    simpa only [NotifyBalance, Lib.Monitor.State.returned, given_concat, taken_concat] using hmove
  · exact hbalance
  · exact hbalance

theorem TaskControl.Move.eq_of_took_zero {clear_on_exit : Bool} (h : c.Move c' (.took clear_on_exit 0)) :
    c.notify_value = 0 ∧ c' = c := by
  generalize hr : NotifyResult.took clear_on_exit 0 = r at h
  cases h with
  | gave => cases hr
  | cleared hvalue =>
    injection hr with _ hv
    exact absurd hv.symm (UInt32.pos_iff_ne_zero.mp hvalue)
  | counted hvalue =>
    injection hr with _ hv
    exact absurd hv.symm (UInt32.pos_iff_ne_zero.mp hvalue)
  | empty clear_on_exit hvalue => exact ⟨hvalue, rfl⟩

/-- No notification is lost, whatever the schedule: after any of its events the gives are
    what is still in the value and what the takes have taken, modulo 2^32, and a take
    returns 0 only when the value is 0 and it leaves it so. -/
theorem notifications_conserved [DecidableEq τ] (events : List (Lib.Monitor.Event τ NotifyCall)) :
    ∀ st ∈ (notifyMonitor τ).machine.visited (.initial TaskControl.create) events,
      given st.log % 2 ^ 32 = (st.shared.notify_value.toNat + taken st.log) % 2 ^ 32 ∧
      ∀ t e c' clear_on_exit, (notifyMonitor τ).Returns st t e c' (.took clear_on_exit 0) →
        st.shared.notify_value = 0 ∧ c' = st.shared := by
  have hbalance : ∀ st ∈ (notifyMonitor τ).machine.visited (.initial TaskControl.create) events,
      NotifyBalance st :=
    Lib.EventMachine.visited_invariant (fun _ _ _ h hstep => h.step hstep) rfl
  intro st hst
  exact ⟨hbalance st hst, fun t e c' clear_on_exit h => (move_of_returns h).eq_of_took_zero⟩

/-- Two gives and a take that does not clear: one is left. -/
theorem notifications_conserved_two :
    ∃ st ∈ (notifyMonitor Nat).machine.visited (.initial TaskControl.create)
        [.call 1 .xTaskNotifyGive, .call 0 (.ulTaskNotifyTake false portMAX_DELAY),
          .call 2 .xTaskNotifyGiveFromISR],
      given st.log % 2 ^ 32 = (st.shared.notify_value.toNat + taken st.log) % 2 ^ 32 ∧
        given st.log = 2 ∧ st.shared.notify_value = 1 := by
  refine ⟨?st, ?mem, (notifications_conserved _ _ ?mem).1, ?given, ?left⟩
  case mem =>
    refine Lib.EventMachine.mem_visited_iff.mpr ⟨_, List.prefix_refl _, ?_⟩
    rfl
  case given => rfl
  case left => rfl

end HostArduino.freertos
