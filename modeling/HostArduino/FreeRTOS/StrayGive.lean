import HostArduino.FreeRTOS.MutualExclusion

namespace HostArduino.freertos

variable {τ θ : Type*}

/-- The fields of a mutex whoever gives it: free and without an owner, or taken and owned. -/
inductive MutexFields (s : Semaphore θ) : Prop
  | free (hmutex : s.is_mutex = true) (hmax : s.max_count = 1) (hcount : s.count = 1)
      (howner : s.owner = none) (hrecursion : s.recursion = 0) : MutexFields s
  | owned (i : θ) (hmutex : s.is_mutex = true) (hmax : s.max_count = 1) (hcount : s.count = 0)
      (howner : s.owner = some i) : MutexFields s

theorem mutexFields_create {s : Semaphore θ}
    (hcreate : s = xSemaphoreCreateMutex ∨ s = xSemaphoreCreateRecursiveMutex) : MutexFields s := by
  obtain rfl | rfl := hcreate
  · exact .free rfl rfl rfl rfl rfl
  · exact .free rfl rfl rfl rfl rfl

variable {s s' : Semaphore θ} {self : θ} {r : SemaphoreResult}

theorem MutexFields.take (h : MutexFields s) (htake : s.Take self s' r) : MutexFields s' := by
  cases htake with
  | nested hrecursive howner hheld =>
    cases h with
    | free hmutex hmax hcount hnone hrecursion =>
      rw [hnone] at howner
      cases howner
    | owned u hmutex hmax hcount hu => exact .owned u hmutex hmax hcount hu
  | mutex hpos hmutex =>
    cases h with
    | free _ hmax hcount hnone hrecursion =>
      refine .owned self hmutex hmax ?_ rfl
      change s.count - 1 = 0
      rw [hcount]
      rfl
    | owned u _ hmax hcount hu =>
      rw [hcount] at hpos
      exact absurd hpos (UInt32.lt_irrefl 0)
  | counted hpos hcounted =>
    cases h with
    | free hmutex => simp [hcounted] at hmutex
    | owned u hmutex => simp [hcounted] at hmutex
  | failed => exact h

/-- A give may come from any task. -/
theorem MutexFields.give (h : MutexFields s) (hgive : s.Give s' r) : MutexFields s' := by
  cases hgive with
  | nested hrecursive hnested =>
    cases h with
    | free hmutex hmax hcount hnone hrecursion =>
      rw [hrecursion, UInt32.lt_iff_toNat_lt] at hnested
      exact absurd hnested (Nat.not_lt_zero 1)
    | owned u hmutex hmax hcount hu => exact .owned u hmutex hmax hcount hu
  | mutex hfinal hless hmutex =>
    cases h with
    | free _ hmax hcount hnone hrecursion =>
      rw [hcount, hmax] at hless
      exact absurd hless (UInt32.lt_irrefl 1)
    | owned u _ hmax hcount hu =>
      refine .free hmutex hmax ?_ rfl rfl
      change s.count + 1 = 1
      rw [hcount]
      rfl
  | counted hless hcounted =>
    cases h with
    | free hmutex => simp [hcounted] at hmutex
    | owned u hmutex => simp [hcounted] at hmutex
  | failed => exact h

def SemaphoreCall.isGive : SemaphoreCall → Bool
  | .xSemaphoreGive | .xSemaphoreGiveRecursive => true
  | .xSemaphoreTake _ | .xSemaphoreTakeRecursive _ => false

/-- A give of a free mutex fails on its full count. -/
theorem give_free (hmax : s.max_count = 1) (hcount : s.count = 1) (hrecursion : s.recursion = 0) :
    xSemaphoreGive s = .returns s .failed := by
  have hfinal : ¬(s.is_recursive = true ∧ 1 < s.recursion) := by
    rw [hrecursion]
    rintro ⟨-, hnested⟩
    exact absurd (UInt32.lt_iff_toNat_lt.mp hnested) (Nat.not_lt_zero 1)
  have hfull : s.max_count ≤ s.count := by
    rw [hmax, hcount]
    exact UInt32.le_refl 1
  unfold xSemaphoreGive
  rw [if_neg hfinal, if_pos hfull]

/-- A give of an owned mutex succeeds, and does not ask who the owner is. -/
theorem give_owned (hmutex : s.is_mutex = true) (hmax : s.max_count = 1) (hcount : s.count = 0) :
    ∃ s', xSemaphoreGive s = .returns s' .given := by
  unfold xSemaphoreGive
  by_cases hnested : s.is_recursive = true ∧ 1 < s.recursion
  · exact ⟨_, if_pos hnested⟩
  · have hroom : ¬s.max_count ≤ s.count := by
      rw [hmax, hcount, UInt32.le_iff_toNat_le]
      exact Nat.not_succ_le_zero 0
    rw [if_neg hnested, if_neg hroom, if_pos hmutex]
    exact ⟨_, rfl⟩

variable [DecidableEq θ]

theorem MutexFields.enter (h : MutexFields s) {call : SemaphoreCall}
    (henter : call.enter s self = .returns s' r) : MutexFields s' := by
  obtain htake | hgive := SemaphoreCall.enter_cases henter
  · exact h.take htake
  · exact h.give hgive

/-- The give of the thread `self` returns `pdFAIL` and leaves the mutex to its owner. -/
def Rejected (s : Semaphore θ) (self : θ) (call : SemaphoreCall) : Prop :=
  ∃ s' r, call.enter s self = .returns s' r ∧ r.returns = .pdFAIL ∧
    s'.count = s.count ∧ s'.owner = s.owner ∧ s'.recursion = s.recursion

theorem enter_give {call : SemaphoreCall} (hgive : call.isGive = true) :
    call.enter s self = xSemaphoreGive s := by
  cases call with
  | xSemaphoreGive => rfl
  | xSemaphoreGiveRecursive => rfl
  | xSemaphoreTake => cases hgive
  | xSemaphoreTakeRecursive => cases hgive

variable [DecidableEq τ] {get_id : τ → θ}

/-- Whatever the tasks call and in whatever order, the fields stay those of a mutex. -/
theorem visited_mutexFields {s₀ : Semaphore θ}
    (hcreate : s₀ = xSemaphoreCreateMutex ∨ s₀ = xSemaphoreCreateRecursiveMutex)
    (events : List (Lib.Monitor.Event τ SemaphoreCall)) :
    ∀ st ∈ (semaphoreMonitor get_id).machine.visited (.initial s₀) events, MutexFields st.shared := by
  apply Lib.Monitor.visited_log (P := fun _ s => MutexFields s) (G := fun _ _ _ _ => True)
    (mutexFields_create hcreate)
  · intro log s t call s' r h _ henter
    exact h.enter henter
  · intro log s t wait s' r h hresume
    exact h.take (Semaphore.proceed_take hresume)
  · intro log s t wait r h _
    exact h
  · apply Lib.EventMachine.meets_of_forall
    intro e _ st
    cases e <;> trivial

/-- In every reachable state of a mutex, a give is turned away exactly when no thread owns
    the mutex at all, whichever task makes it: nothing compares the caller with the owner. -/
theorem give_rejected_iff {s₀ : Semaphore θ}
    (hcreate : s₀ = xSemaphoreCreateMutex ∨ s₀ = xSemaphoreCreateRecursiveMutex)
    (events : List (Lib.Monitor.Event τ SemaphoreCall)) :
    ∀ st ∈ (semaphoreMonitor get_id).machine.visited (.initial s₀) events,
      ∀ t call, call.isGive = true →
        (Rejected st.shared (get_id t) call ↔ ∀ i, st.shared.owner ≠ some i) := by
  intro st hst t call hgive
  unfold Rejected
  rw [enter_give hgive]
  cases visited_mutexFields hcreate events st hst with
  | free hmutex hmax hcount howner hrecursion =>
    constructor
    · intro _ i hi
      rw [howner] at hi
      cases hi
    · intro _
      exact ⟨st.shared, .failed, give_free hmax hcount hrecursion, rfl, rfl, rfl, rfl⟩
  | owned i hmutex hmax hcount howner =>
    constructor
    · rintro ⟨s', r, hfails, hreturns, -⟩
      obtain ⟨s'', hgives⟩ := give_owned hmutex hmax hcount
      obtain ⟨-, rfl⟩ : s'' = s' ∧ SemaphoreResult.given = r := by
        simpa using hgives.symm.trans hfails
      cases hreturns
    · intro hnone
      exact absurd howner (hnone i)

/-- Task 1 gives the mutex that task 0 holds. -/
theorem give_rejected_held :
    ∃ st ∈ (semaphoreMonitor (id : Nat → Nat)).machine.visited (.initial xSemaphoreCreateMutex)
        [.call 0 (.xSemaphoreTake 0)],
      st.shared.owner = some 0 ∧ ¬Rejected st.shared 1 .xSemaphoreGive := by
  refine ⟨?st, ?mem, ?owner, fun hrejected =>
    (give_rejected_iff (.inl rfl) [.call 0 (.xSemaphoreTake 0)] ?st ?mem 1 .xSemaphoreGive
      rfl).mp hrejected 0 ?owner⟩
  case mem =>
    refine Lib.EventMachine.mem_visited_iff.mpr ⟨_, List.prefix_refl _, ?_⟩
    rfl
  case owner => rfl

/-- Task 1 gives the mutex that task 0 has taken: it gets `pdPASS`, and the mutex is free. -/
theorem stray_give :
    ∃ st ∈ (semaphoreMonitor (id : Nat → Nat)).machine.visited (.initial xSemaphoreCreateMutex)
        [.call 0 (.xSemaphoreTake 0)],
      st.shared.owner = some 0 ∧
        SemaphoreCall.enter st.shared 1 .xSemaphoreGive =
          .returns { st.shared with count := 1, owner := none, recursion := 0 } .given ∧
        ¬Rejected st.shared 1 .xSemaphoreGive := by
  refine ⟨?st, ?mem, ?owner, ?gives, ?passes⟩
  case mem =>
    refine Lib.EventMachine.mem_visited_iff.mpr ⟨_, List.prefix_refl _, ?_⟩
    rfl
  case owner => rfl
  case gives => rfl
  case passes =>
    rintro ⟨s', r, hgives, hreturns, -⟩
    cases hgives
    cases hreturns

omit [DecidableEq θ] in
theorem Mutex.owner_iff_holds {log : List (τ × SemaphoreResult)} (h : Mutex get_id log s)
    (hfields : MutexFields s) (i : θ) : s.owner = some i ↔ ∃ t, get_id t = i ∧ Holds log t := by
  constructor
  · intro howner
    cases h with
    | free hmutex hmax hcount hrecursion hbalance =>
      cases hfields with
      | free _ _ _ hnone =>
        rw [hnone] at howner
        cases howner
      | owned u _ _ hzero =>
        rw [hzero] at hcount
        cases hcount
    | owned t hmutex hmax hcount ht hheld hplain hrecursion hbalance =>
      refine ⟨t, Option.some.inj (ht.symm.trans howner), ?_⟩
      unfold Holds
      omega
  · rintro ⟨t, rfl, hholds⟩
    exact (h.of_holds hholds).2.1

/-- Among tasks that give only what they hold, the owner is the thread of the holder. -/
theorem visited_owner_iff_holds {s₀ : Semaphore θ}
    (hcreate : s₀ = xSemaphoreCreateMutex ∨ s₀ = xSemaphoreCreateRecursiveMutex)
    {events : List (Lib.Threads.Event τ SemaphoreCall)}
    (hmeets : (semaphoreTasks get_id).Meets (OnMutex get_id) (.initial s₀) events) :
    ∀ st ∈ (semaphoreTasks get_id).visited (.initial s₀) events,
      ∀ i, st.shared.owner = some i ↔ ∃ t, get_id t = i ∧ Holds st.log t := by
  intro st hst i
  obtain ⟨acts, hacts⟩ := Lib.Threads.visited_toState hst
  have hfields := visited_mutexFields hcreate acts _ hacts
  exact (visited_mutex hcreate hmeets st hst).1.owner_iff_holds hfields i

end HostArduino.freertos
