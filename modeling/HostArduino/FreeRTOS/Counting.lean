import HostArduino.FreeRTOS.MutualExclusion
import HostArduino.FreeRTOS.SemaphoreWakeups

namespace HostArduino.freertos

variable {τ θ : Type*} [DecidableEq τ]

/-- How many takes, and how many gives, of all tasks have returned `pdPASS`. -/
def permits_taken (log : List (τ × SemaphoreResult)) : Nat :=
  log.countP fun entry => entry.2 = .taken

def permits_given (log : List (τ × SemaphoreResult)) : Nat :=
  log.countP fun entry => entry.2 = .given

/-- The permits that the tasks in `T` have taken and not given back. -/
def held (log : List (τ × SemaphoreResult)) (T : Finset τ) : Nat :=
  ∑ t ∈ T, (takes log t - gives log t)

variable {log : List (τ × SemaphoreResult)} {s s' : Semaphore θ} {t : τ} {self : θ} {r : SemaphoreResult}

/-- What a task does changes the permits of a set it is in by its own. -/
theorem held_insert (log : List (τ × SemaphoreResult)) (T : Finset τ) (t : τ) :
    held log (insert t T) = (takes log t - gives log t) + held log (T.erase t) := by
  rw [held, held, ← Finset.insert_erase (Finset.mem_insert_self t T), Finset.erase_insert_eq_erase,
    Finset.sum_insert (Finset.notMem_erase t T)]

theorem held_erase_concat (T : Finset τ) :
    held (log ++ [(t, r)]) (T.erase t) = held log (T.erase t) := by
  refine Finset.sum_congr rfl fun u hu => ?_
  have hne : t ≠ u := (Finset.ne_of_mem_erase hu).symm
  cases r with
  | taken => rw [takes_taken, gives_taken, if_neg hne, Nat.add_zero]
  | given => rw [takes_given, gives_given, if_neg hne, Nat.add_zero]
  | failed => rw [takes_failed, gives_failed]

theorem held_le_insert (log : List (τ × SemaphoreResult)) (T : Finset τ) (t : τ) :
    held log T ≤ held log (insert t T) :=
  Finset.sum_le_sum_of_subset (Finset.subset_insert t T)

theorem held_failed (log : List (τ × SemaphoreResult)) (t : τ) (T : Finset τ) :
    held (log ++ [(t, .failed)]) T = held log T := by
  refine Finset.sum_congr rfl fun u _ => ?_
  rw [takes_failed, gives_failed]

/-- A semaphore that counts: what is in it and what has been taken out of it are what it
    was made with and what has been given, and no tasks hold more than is out. -/
structure Permits (max_count initial_count : Nat) (log : List (τ × SemaphoreResult)) (s : Semaphore θ) :
    Prop where
  counts : s.is_mutex = false
  flat : s.is_recursive = false
  max_eq : s.max_count.toNat = max_count
  accounts : s.count.toNat + permits_taken log = initial_count + permits_given log
  covered : ∀ T, s.count.toNat + held log T ≤ initial_count
  matched : ∀ t, gives log t ≤ takes log t

variable {max_count initial_count : Nat}

theorem Permits.failed (h : Permits max_count initial_count log s) (t : τ) :
    Permits max_count initial_count (log ++ [(t, .failed)]) s where
  counts := h.counts
  flat := h.flat
  max_eq := h.max_eq
  accounts := by simpa [permits_taken, permits_given] using h.accounts
  covered T := by
    rw [held_failed]
    exact h.covered T
  matched u := by
    rw [takes_failed, gives_failed]
    exact h.matched u

theorem Permits.take (h : Permits max_count initial_count log s) (htake : s.Take self s' r) :
    Permits max_count initial_count (log ++ [(t, r)]) s' := by
  cases htake with
  | nested hrecursive howner hheld =>
    rw [h.flat] at hrecursive
    cases hrecursive
  | mutex hcount hmutex =>
    rw [h.counts] at hmutex
    cases hmutex
  | counted hcount hmutex =>
    have hleft := toNat_take hcount
    refine ⟨h.counts, h.flat, h.max_eq, ?_, fun T => ?_, fun u => ?_⟩
    · have haccounts := h.accounts
      have htaken : permits_taken (log ++ [(t, .taken)]) = permits_taken log + 1 := by simp [permits_taken]
      have hgiven : permits_given (log ++ [(t, .taken)]) = permits_given log := by simp [permits_given]
      change (s.count - 1).toNat + _ = _
      omega
    · have hcovered := h.covered (insert t T)
      have hle := held_le_insert (log ++ [(t, .taken)]) T t
      rw [held_insert, held_erase_concat, takes_taken, gives_taken, if_pos rfl] at hle
      rw [held_insert] at hcovered
      have hmatched := h.matched t
      change (s.count - 1).toNat + _ ≤ _
      omega
    · have hmatched := h.matched u
      rw [takes_taken, gives_taken]
      omega
  | failed => exact h.failed t

/-- A task that holds a permit puts it back. -/
theorem Permits.give (h : Permits max_count initial_count log s) (hgive : s.Give s' r)
    (hholds : Holds log t) : Permits max_count initial_count (log ++ [(t, r)]) s' := by
  unfold Holds at hholds
  cases hgive with
  | nested hrecursive hnested =>
    rw [h.flat] at hrecursive
    cases hrecursive
  | mutex hfinal hcount hmutex =>
    rw [h.counts] at hmutex
    cases hmutex
  | counted hcount hmutex =>
    have hnext := toNat_give hcount
    refine ⟨h.counts, h.flat, h.max_eq, ?_, fun T => ?_, fun u => ?_⟩
    · have haccounts := h.accounts
      have htaken : permits_taken (log ++ [(t, .given)]) = permits_taken log := by simp [permits_taken]
      have hgiven : permits_given (log ++ [(t, .given)]) = permits_given log + 1 := by simp [permits_given]
      change (s.count + 1).toNat + _ = _
      omega
    · have hcovered := h.covered (insert t T)
      have hle := held_le_insert (log ++ [(t, .given)]) T t
      rw [held_insert, held_erase_concat, takes_given, gives_given, if_pos rfl] at hle
      rw [held_insert] at hcovered
      change (s.count + 1).toNat + _ ≤ _
      omega
    · have hmatched := h.matched u
      rw [takes_given, gives_given]
      split
      · rename_i heq
        subst heq
        omega
      · exact hmatched
  | failed => exact h.failed t

theorem Permits.enter [DecidableEq θ] (h : Permits max_count initial_count log s) {call : SemaphoreCall}
    (hguard : Disciplined log t call) (henter : call.enter s self = .returns s' r) :
    Permits max_count initial_count (log ++ [(t, r)]) s' := by
  cases call with
  | xSemaphoreTake ticks => exact h.take (xSemaphoreTake_take henter)
  | xSemaphoreTakeRecursive ticks => exact h.take (xSemaphoreTake_take henter)
  | xSemaphoreGive => exact h.give (xSemaphoreGive_give henter) hguard
  | xSemaphoreGiveRecursive => exact h.give (xSemaphoreGive_give henter) hguard

theorem permits_create (hmax : max_count < 2 ^ 32) (hinitial : initial_count < 2 ^ 32) :
    Permits max_count initial_count ([] : List (τ × SemaphoreResult))
      (xSemaphoreCreateCounting max_count initial_count : Semaphore θ) where
  counts := rfl
  flat := rfl
  max_eq := UInt32.toNat_ofNat_of_lt' hmax
  accounts := by
    change (UInt32.ofNat initial_count).toNat + 0 = initial_count + 0
    rw [UInt32.toNat_ofNat_of_lt' hinitial]
  covered T := by
    have hnone : held ([] : List (τ × SemaphoreResult)) T = 0 := Finset.sum_eq_zero fun _ _ => rfl
    rw [hnone]
    exact (UInt32.toNat_ofNat_of_lt' hinitial).le
  matched t := Nat.le_refl 0

/-- A counting semaphore hands out no more than it was made with: however the tasks' calls
    interleave, as long as each gives only what it holds, the tasks that hold a permit and
    the permits left are never more than the initial count together, the count is the
    initial one less all takes plus all gives, and a task that holds a permit can always
    give it back. -/
theorem counting_permits [DecidableEq θ] {get_id : τ → θ} (hmax : max_count < 2 ^ 32)
    (hinitial : initial_count ≤ max_count)
    {events : List (Lib.Monitor.Event τ SemaphoreCall)}
    (hmeets : (semaphoreMonitor get_id).machine.Meets
      (Lib.Monitor.OnCalls fun log _ t call => Disciplined log t call)
      (.initial (xSemaphoreCreateCounting max_count initial_count)) events) :
    ∀ st ∈ (semaphoreMonitor get_id).machine.visited
        (.initial (xSemaphoreCreateCounting max_count initial_count)) events,
      (∀ T : Finset τ, (∀ t ∈ T, Holds st.log t) → T.card + st.shared.count.toNat ≤ initial_count) ∧
        st.shared.count.toNat + permits_taken st.log = initial_count + permits_given st.log ∧
        ∀ t, Holds st.log t → ∃ s', xSemaphoreGive st.shared = .returns s' .given := by
  have hpermits : ∀ st ∈ (semaphoreMonitor get_id).machine.visited
      (.initial (xSemaphoreCreateCounting max_count initial_count)) events,
        Permits max_count initial_count st.log st.shared := by
    refine Lib.Monitor.visited_log (permits_create hmax (hinitial.trans_lt hmax))
      (fun _ _ _ _ _ _ h hguard => h.enter hguard)
      (fun _ _ _ _ _ _ h hresume => h.take (Semaphore.proceed_take hresume)) ?_ hmeets
    intro log s t wait r h hexpire
    obtain rfl := Wait.eq_of_expire hexpire
    exact h.failed t
  intro st hst
  have h := hpermits st hst
  refine ⟨fun T hT => ?_, h.accounts, fun t hholds => ?_⟩
  · have hcard : T.card ≤ held st.log T := by
      refine (Finset.card_eq_sum_ones T).le.trans (Finset.sum_le_sum fun t ht => ?_)
      exact Nat.sub_pos_of_lt (hT t ht)
    have hcovered := h.covered T
    omega
  · have hcovered := h.covered {t}
    have hone : 0 < held st.log {t} := by
      rw [held, Finset.sum_singleton]
      exact Nat.sub_pos_of_lt hholds
    have hroom : ¬st.shared.max_count ≤ st.shared.count := by
      rw [UInt32.le_iff_toNat_le, h.max_eq]
      omega
    have hflat : ¬(st.shared.is_recursive = true ∧ 1 < st.shared.recursion) := by
      rw [h.flat]
      exact fun hnested => Bool.false_ne_true hnested.1
    refine ⟨{ st.shared with count := st.shared.count + 1 }, ?_⟩
    rw [xSemaphoreGive, if_neg hflat, if_neg hroom, if_neg (by rw [h.counts]; exact Bool.false_ne_true)]

/-- Of three tasks two are inside; the third one waits. -/
theorem counting_permits_two :
    ∃ st ∈ (semaphoreMonitor (id : Nat → Nat)).machine.visited (.initial (xSemaphoreCreateCounting 2 2))
        [.call 0 (.xSemaphoreTake 0), .call 1 (.xSemaphoreTake 0), .call 2 (.xSemaphoreTake portMAX_DELAY)],
      (∀ T : Finset Nat, (∀ t ∈ T, Holds st.log t) → T.card + st.shared.count.toNat ≤ 2) ∧
        Holds st.log 0 ∧ Holds st.log 1 ∧ (st.waiting 2).isSome = true := by
  refine ⟨?st, ?mem, (counting_permits (by decide) (Nat.le_refl 2) ?meets _ ?mem).1, ?first, ?second, ?third⟩
  case meets =>
    refine Lib.EventMachine.meets_of_forall (fun e he st => ?_) _
    simp only [List.mem_cons, List.not_mem_nil, or_false] at he
    obtain rfl | rfl | rfl := he <;> trivial
  case mem =>
    refine Lib.EventMachine.mem_visited_iff.mpr ⟨_, List.prefix_refl _, ?_⟩
    rfl
  case first => decide
  case second => decide
  case third => rfl

end HostArduino.freertos
