import HostArduino.FreeRTOS.Semaphore
import HostArduino.Lib.Wakeups

namespace HostArduino.freertos

variable {τ θ : Type*}

theorem toNat_take {count : UInt32} (hpos : 0 < count) : (count - 1).toNat + 1 = count.toNat := by
  have hpos' : 0 < count.toNat := UInt32.lt_iff_toNat_lt.mp hpos
  have hone : (1 : UInt32) ≤ count := UInt32.le_iff_toNat_le.mpr hpos'
  rw [UInt32.toNat_sub_of_le _ _ hone, UInt32.toNat_one]
  omega

theorem toNat_give {count max_count : UInt32} (hlt : count < max_count) :
    (count + 1).toNat = count.toNat + 1 := by
  have hlt' := UInt32.lt_iff_toNat_lt.mp hlt
  have hmax := max_count.toNat_lt
  rw [UInt32.toNat_add, UInt32.toNat_one]
  omega

variable {s s' : Semaphore θ} {self : θ} {result : SemaphoreResult}

theorem Semaphore.Take.count_le (htake : s.Take self s' result) : s'.count.toNat ≤ s.count.toNat := by
  cases htake with
  | nested hrecursive howner hheld => exact Nat.le_refl _
  | mutex hcount hmutex => exact Nat.le_of_succ_le (toNat_take hcount).le
  | counted hcount hmutex => exact Nat.le_of_succ_le (toNat_take hcount).le
  | failed => exact Nat.le_refl _

theorem Semaphore.count_eq_zero (h : s.proceed self = none) : s.count = 0 := by
  unfold Semaphore.proceed at h
  split at h
  · split at h <;> cases h
  · rename_i hcount
    exact UInt32.toNat_inj.mp (Nat.eq_zero_of_not_pos fun hpos => hcount (UInt32.lt_iff_toNat_lt.mpr hpos))

theorem Semaphore.proceed_count (h : s.proceed self = some (s', result)) :
    s'.count.toNat + 1 = s.count.toNat ∧ result = .taken := by
  unfold Semaphore.proceed at h
  split at h
  · rename_i hcount
    split at h
    · cases h
      exact ⟨toNat_take hcount, rfl⟩
    · cases h
      exact ⟨toNat_take hcount, rfl⟩
  · cases h

theorem xSemaphoreGive_ne_blocks (wait : Wait Unit) : xSemaphoreGive s ≠ .blocks wait := by
  unfold xSemaphoreGive
  split
  · nofun
  · split
    · nofun
    · split <;> nofun

variable [DecidableEq θ] {get_id : τ → θ}

/-- A give that raises the count tells one waiting task, behind its unlock. -/
def semaphoreSignals (get_id : τ → θ) :
    Lib.Signalled τ (Semaphore θ) SemaphoreCall Unit (Wait Unit) SemaphoreResult where
  toMonitor := semaphoreMonitor get_id
  waitsOn _ := ()
  notify_one s r := if r = .given ∧ ¬(s.is_recursive = true ∧ 1 < s.recursion) then some () else none
  notify_all _ := none

/-- A give that raises the count announces it. -/
theorem xSemaphoreGive_count_le (h : xSemaphoreGive s = .returns s' result) :
    s'.count.toNat ≤ s.count.toNat + if (semaphoreSignals get_id).notify_one s result = some () then 1 else 0 := by
  unfold xSemaphoreGive at h
  split at h
  · cases h
    exact Nat.le_add_right _ _
  · rename_i hnested
    have hnotify : (semaphoreSignals get_id).notify_one s .given = some () := if_pos ⟨rfl, hnested⟩
    split at h
    · cases h
      exact Nat.le_add_right _ _
    · rename_i hcount
      have hnext := (toNat_give (UInt32.not_le.mp hcount)).le
      split at h
      · cases h
        rwa [if_pos hnotify]
      · cases h
        rwa [if_pos hnotify]

theorem xSemaphoreTake_blocks {ticks_to_wait : TickType_t} {wait : Wait Unit}
    (h : xSemaphoreTake s self ticks_to_wait = .blocks wait) : s.count = 0 := by
  unfold xSemaphoreTake at h
  split at h
  · cases h
  · exact Semaphore.count_eq_zero (attempt_blocks h).1

/-- A call that goes to wait has found the count at zero. -/
theorem SemaphoreCall.enter_blocks {call : SemaphoreCall} {wait : Wait Unit}
    (h : call.enter s self = .blocks wait) : s.count = 0 := by
  cases call with
  | xSemaphoreTake ticks_to_wait => exact xSemaphoreTake_blocks h
  | xSemaphoreTakeRecursive ticks => exact xSemaphoreTake_blocks h
  | xSemaphoreGive => exact absurd h (xSemaphoreGive_ne_blocks wait)
  | xSemaphoreGiveRecursive => exact absurd h (xSemaphoreGive_ne_blocks wait)

theorem SemaphoreCall.enter_count_le {call : SemaphoreCall} (h : call.enter s self = .returns s' result) :
    s'.count.toNat ≤ s.count.toNat + if (semaphoreSignals get_id).notify_one s result = some () then 1 else 0 := by
  cases call with
  | xSemaphoreTake ticks_to_wait => exact Nat.le_add_right_of_le (xSemaphoreTake_take h).count_le
  | xSemaphoreTakeRecursive ticks => exact Nat.le_add_right_of_le (xSemaphoreTake_take h).count_le
  | xSemaphoreGive => exact xSemaphoreGive_count_le h
  | xSemaphoreGiveRecursive => exact xSemaphoreGive_count_le h

theorem semaphoreSignals_discipline :
    (semaphoreSignals get_id).Discipline (fun _ s => s.count.toNat) fun _ => True where
  enter_returns henter _ := .inr (SemaphoreCall.enter_count_le henter)
  enter_blocks henter := by
    rw [SemaphoreCall.enter_blocks henter]
    rfl
  resume_some _ hresume := by
    obtain ⟨hcount, -⟩ := Semaphore.proceed_count hresume
    refine ⟨rfl, by omega, fun c => ?_⟩
    rw [if_pos rfl, hcount]
    exact Nat.le_add_right _ _
  resume_none hresume := by
    rw [Semaphore.count_eq_zero hresume]
    rfl
  expire hexpire := by
    obtain rfl := Wait.eq_of_expire hexpire
    exact ⟨rfl, rfl⟩

/-- No wake-up of a semaphore or mutex is lost, whoever gives and takes it: whenever a task
    sleeps in a take although the count is positive, some task is on the way to take it or
    to wake a sleeper, and once the tasks have taken the few steps they can take on their
    own, nobody sleeps in front of a positive count. -/
theorem semaphore_wakeups [DecidableEq τ] [Fintype τ] (s : Semaphore θ)
    (es : List (Lib.Signalled.Event τ SemaphoreCall)) :
    ∀ st ∈ (semaphoreSignals get_id).machine.visited (.initial s) es, (semaphoreSignals get_id).Wakes s st := by
  exact Lib.Signalled.visited_wakes semaphoreSignals_discipline
    (Lib.EventMachine.meets_of_forall (fun _ _ _ => Lib.Signalled.waitsToTake_of_forall fun _ => trivial) _)

/-- A mutex has been given back, and its holder is about to wake the task that sleeps. -/
theorem semaphore_wakeups_handover :
    ∃ st ∈ (semaphoreSignals (id : Fin 2 → Fin 2)).machine.visited (.initial xSemaphoreCreateMutex)
        [.call 0 (.xSemaphoreTake 0), .call 1 (.xSemaphoreTake portMAX_DELAY), .call 0 .xSemaphoreGive],
      (semaphoreSignals (id : Fin 2 → Fin 2)).Wakes xSemaphoreCreateMutex st ∧ st.shared.count = 1 ∧
        st.place 1 = .asleep ⟨(), portMAX_DELAY⟩ ∧ st.place 0 = .notifying () := by
  refine ⟨?state, ?mem, semaphore_wakeups _ _ _ ?mem, ?free, ?sleeper, ?giver⟩
  case mem =>
    refine Lib.EventMachine.mem_visited_iff.mpr ⟨_, List.prefix_refl _, ?_⟩
    rfl
  case free => rfl
  case sleeper => rfl
  case giver => rfl

end HostArduino.freertos
