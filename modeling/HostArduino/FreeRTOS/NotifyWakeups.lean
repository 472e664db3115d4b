import HostArduino.FreeRTOS.Notify
import HostArduino.FreeRTOS.SemaphoreWakeups

namespace HostArduino.freertos

variable {τ : Type*}

/-- The calls between tasks: a give names the task it is for, a take is about its caller. -/
inductive TaskCall (τ : Type*) where
  | xTaskNotifyGive (task : τ)
  | xTaskNotifyGiveFromISR (task : τ)
  | ulTaskNotifyTake (clear_on_exit : Bool) (ticks_to_wait : TickType_t)
  deriving DecidableEq, Repr

/-- The task whose control block a call is about. `current_task_slot` is the caller's. -/
def TaskCall.task (self : τ) : TaskCall τ → τ
  | .xTaskNotifyGive task | .xTaskNotifyGiveFromISR task => task
  | .ulTaskNotifyTake _ _ => self

def TaskCall.request : TaskCall τ → NotifyCall
  | .xTaskNotifyGive _ => .xTaskNotifyGive
  | .xTaskNotifyGiveFromISR _ => .xTaskNotifyGiveFromISR
  | .ulTaskNotifyTake clear_on_exit ticks_to_wait => .ulTaskNotifyTake clear_on_exit ticks_to_wait

variable [DecidableEq τ]

/-- The control blocks of all tasks. A waiting call and a result come with the task whose
    block they are about. -/
def tasksMonitor (τ : Type*) [DecidableEq τ] :
    Lib.Monitor τ (τ → TaskControl) (TaskCall τ) (τ × Wait Bool) (τ × NotifyResult) where
  enter t call blocks :=
    match call.request.enter (blocks (call.task t)) with
    | .returns c r => .returns (Function.update blocks (call.task t) c) (call.task t, r)
    | .blocks wait => .blocks (call.task t, wait)
  resume _ wait blocks :=
    ((blocks wait.1).proceed wait.2.rest).map fun done => (Function.update blocks wait.1 done.1, (wait.1, done.2))
  expire wait := (wait.2.expire (.took wait.2.rest 0)).map fun r => (wait.1, r)

/-- A give wakes whoever waits on its task's `notify_cv`, behind its unlock. That is the task
    itself or nobody, so one notification is all of them. -/
def taskSignals (τ : Type*) [DecidableEq τ] :
    Lib.Signalled τ (τ → TaskControl) (TaskCall τ) τ (τ × Wait Bool) (τ × NotifyResult) where
  toMonitor := tasksMonitor τ
  waitsOn wait := wait.1
  notify_one _ r :=
    match r.2 with
    | .gave => some r.1
    | .took _ _ => none
  notify_all _ := none

variable {t u : τ} {blocks blocks' : τ → TaskControl} {call : TaskCall τ} {wait : τ × Wait Bool}
  {result : τ × NotifyResult} {c c' : TaskControl} {r : NotifyResult}

omit [DecidableEq τ] in
/-- A return adds one to the value if it is a give, and nothing otherwise. -/
theorem TaskControl.Move.value_le (hmove : c.Move c' r) :
    c'.notify_value.toNat ≤ c.notify_value.toNat + r.gives := by
  cases hmove with
  | gave =>
    simp only [NotifyResult.gives, UInt32.toNat_add, UInt32.toNat_one]
    exact Nat.mod_le _ _
  | cleared hvalue => exact Nat.zero_le _
  | counted hvalue => exact Nat.le_of_succ_le (toNat_take hvalue).le
  | empty clear_on_exit hvalue => exact Nat.le_refl _

omit [DecidableEq τ] in
/-- A take that has found a value takes from it. -/
theorem TaskControl.proceed_value {clear_on_exit : Bool} (h : c.proceed clear_on_exit = some (c', r)) :
    c'.notify_value.toNat + 1 ≤ c.notify_value.toNat ∧ r.gives = 0 := by
  unfold TaskControl.proceed at h
  split at h
  · rename_i hvalue
    have hpos : 0 < c.notify_value.toNat := UInt32.lt_iff_toNat_lt.mp hvalue
    cases clear_on_exit with
    | true =>
      cases h
      exact ⟨(Nat.zero_add 1).le.trans hpos, rfl⟩
    | false =>
      cases h
      exact ⟨(toNat_take hvalue).le, rfl⟩
  · cases h

theorem NotifyCall.enter_returns {request : NotifyCall} (h : request.enter c = .returns c' r) : c.Move c' r := by
  cases request with
  | xTaskNotifyGive =>
    cases h
    exact .gave
  | xTaskNotifyGiveFromISR =>
    cases h
    exact .gave
  | ulTaskNotifyTake clear_on_exit ticks_to_wait => exact ulTaskNotifyTake_move h

theorem NotifyCall.enter_blocks {request : NotifyCall} {wait : Wait Bool} (h : request.enter c = .blocks wait) :
    c.notify_value = 0 := by
  cases request with
  | xTaskNotifyGive => cases h
  | xTaskNotifyGiveFromISR => cases h
  | ulTaskNotifyTake clear_on_exit ticks_to_wait => exact TaskControl.proceed_none (attempt_blocks h).1

/-- A call of `t` that goes to wait is a take from its own block, which it has found at zero. -/
theorem tasksMonitor_enter_blocks (h : (tasksMonitor τ).enter t call blocks = .blocks wait) :
    wait.1 = t ∧ (blocks t).notify_value = 0 := by
  simp only [tasksMonitor] at h
  split at h
  · cases h
  · rename_i request hrequest
    cases h
    cases call with
    | xTaskNotifyGive task => cases hrequest
    | xTaskNotifyGiveFromISR task => cases hrequest
    | ulTaskNotifyTake clear_on_exit ticks_to_wait => exact ⟨rfl, NotifyCall.enter_blocks hrequest⟩

theorem tasksMonitor_enter_returns (h : (tasksMonitor τ).enter t call blocks = .returns blocks' result) :
    ∃ c, (blocks result.1).Move c result.2 ∧ blocks' = Function.update blocks result.1 c := by
  simp only [tasksMonitor] at h
  split at h
  · rename_i c r hrequest
    cases h
    exact ⟨c, NotifyCall.enter_returns hrequest, rfl⟩
  · cases h

theorem tasksMonitor_resume (h : (tasksMonitor τ).resume t wait blocks = some (blocks', result)) :
    ∃ c, (blocks wait.1).proceed wait.2.rest = some (c, result.2) ∧ blocks' = Function.update blocks wait.1 c := by
  obtain ⟨⟨c, r⟩, hproceed, heq⟩ := Option.map_eq_some_iff.mp h
  cases heq
  exact ⟨c, hproceed, rfl⟩

@[simp] theorem taskSignals_waitsOn : (taskSignals τ).waitsOn wait = wait.1 := rfl

/-- A give notifies its task, and nothing else notifies anybody. -/
theorem taskSignals_notify_one (blocks : τ → TaskControl) (result : τ × NotifyResult) (u : τ) :
    (if (taskSignals τ).notify_one blocks result = some u then 1 else 0) =
      if u = result.1 then result.2.gives else 0 := by
  obtain ⟨task, r⟩ := result
  cases r with
  | gave => simp [taskSignals, eq_comm]
  | took clear_on_exit v => simp [taskSignals]

theorem taskSignals_discipline :
    (taskSignals τ).Discipline (fun task blocks => (blocks task).notify_value.toNat) fun _ => True where
  enter_returns henter u := by
    obtain ⟨c, hmove, rfl⟩ := tasksMonitor_enter_returns henter
    refine .inr ?_
    rw [taskSignals_notify_one, Function.update_apply]
    split
    · rename_i hu
      subst hu
      exact hmove.value_le
    · exact Nat.le_refl _
  enter_blocks henter := by
    obtain ⟨hown, hvalue⟩ := tasksMonitor_enter_blocks henter
    rw [taskSignals_waitsOn, hown, hvalue]
    rfl
  resume_some _ hresume := by
    obtain ⟨c, hproceed, rfl⟩ := tasksMonitor_resume hresume
    obtain ⟨hvalue, hgives⟩ := TaskControl.proceed_value hproceed
    refine ⟨rfl, Nat.lt_of_lt_of_le (Nat.succ_pos _) hvalue, fun u => ?_⟩
    rw [taskSignals_notify_one, taskSignals_waitsOn, Function.update_apply, hgives, ite_self]
    split
    · rename_i hu
      subst hu
      rwa [if_pos rfl]
    · rename_i hu
      rw [if_neg (Ne.symm hu)]
  resume_none hresume := by
    rw [taskSignals_waitsOn, TaskControl.proceed_none (Option.map_eq_none_iff.mp hresume)]
    rfl
  expire hexpire := by
    obtain ⟨r, hr, rfl⟩ := Option.map_eq_some_iff.mp hexpire
    rw [Wait.eq_of_expire hr]
    exact ⟨rfl, rfl⟩

/-- Tasks give notifications to each other and take their own, in any interleaving, and no
    wake-up is lost. Whoever waits on a control block is its own task. Where one sleeps
    although its value is positive, some task is about to notify it, and once the tasks have
    taken the few steps they can take on their own, none sleeps so. -/
theorem notify_wakeups [Fintype τ] (es : List (Lib.Signalled.Event τ (TaskCall τ))) :
    ∀ st ∈ (taskSignals τ).machine.visited (.initial fun _ => .create) es,
      (taskSignals τ).Wakes (fun _ => .create) st ∧
        ∀ t wait, st.place t = .asleep wait → wait.1 = t ∧
          (0 < (st.shared t).notify_value → ∃ u, st.place u = .notifying t) := by
  intro st hst
  have hwakes := Lib.Signalled.visited_wakes taskSignals_discipline
    (Lib.EventMachine.meets_of_forall (fun _ _ _ => Lib.Signalled.waitsToTake_of_forall fun _ => trivial) _) st hst
  have hown : ∀ t wait, (st.place t).waits = some wait → wait.1 = t :=
    Lib.Signalled.visited_waits (P := fun t wait => wait.1 = t)
      (fun henter => (tasksMonitor_enter_blocks henter).1) st hst
  refine ⟨hwakes, fun t wait hasleep => ?_⟩
  have htask : wait.1 = t := hown t wait (by rw [hasleep]; rfl)
  refine ⟨htask, fun hvalue => ?_⟩
  have hready : ((taskSignals τ).resume t wait st.shared).isSome = true := by
    rw [Option.isSome_iff_ne_none]
    intro hnone
    have hzero := TaskControl.proceed_none (Option.map_eq_none_iff.mp hnone)
    rw [htask] at hzero
    exact absurd hzero (UInt32.pos_iff_ne_zero.mp hvalue)
  obtain ⟨u, hunder⟩ := hwakes.attended t wait hasleep hready
  cases hplace : st.place u with
  | running =>
    rw [hplace] at hunder
    exact hunder.elim
  | asleep wait' =>
    rw [hplace] at hunder
    exact hunder.elim
  | woken wait' =>
    -- only the task itself could have been woken for its own value, and it sleeps
    rw [hplace] at hunder
    have hsame : u = t := (hown u wait' (by rw [hplace]; rfl)).symm.trans (Eq.trans hunder htask)
    rw [hsame, hasleep] at hplace
    cases hplace
  | notifying d =>
    rw [hplace] at hunder
    exact ⟨u, by rw [hplace, show d = t from Eq.trans hunder htask]⟩

/-- A task has been given a notification while it sleeps, and is about to be woken. -/
theorem notify_wakeups_given :
    ∃ st ∈ (taskSignals (Fin 2)).machine.visited (.initial fun _ => .create)
        [.call 0 (.ulTaskNotifyTake true portMAX_DELAY), .call 1 (.xTaskNotifyGive 0)],
      (taskSignals (Fin 2)).Wakes (fun _ => .create) st ∧ (st.shared 0).notify_value = 1 ∧
        st.place 0 = .asleep (0, ⟨true, portMAX_DELAY⟩) ∧ st.place 1 = .notifying 0 := by
  refine ⟨?state, ?mem, (notify_wakeups _ _ ?mem).1, ?value, ?sleeper, ?giver⟩
  case mem =>
    refine Lib.EventMachine.mem_visited_iff.mpr ⟨_, List.prefix_refl _, ?_⟩
    rfl
  case value => rfl
  case sleeper => rfl
  case giver => rfl

end HostArduino.freertos
