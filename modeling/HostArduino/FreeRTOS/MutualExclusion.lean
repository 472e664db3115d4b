import HostArduino.FreeRTOS.Semaphore
import HostArduino.Lib.Threads

namespace HostArduino.freertos

variable {τ θ : Type*} [DecidableEq τ]

/-- How often a task's take, or its give, has returned `pdPASS`. -/
def takes (log : List (τ × SemaphoreResult)) (t : τ) : Nat :=
  log.count (t, .taken)

def gives (log : List (τ × SemaphoreResult)) (t : τ) : Nat :=
  log.count (t, .given)

/-- A task holds the mutex while it has taken it more often than it has given it. -/
def Holds (log : List (τ × SemaphoreResult)) (t : τ) : Prop :=
  gives log t < takes log t

instance (log : List (τ × SemaphoreResult)) (t : τ) : Decidable (Holds log t) :=
  inferInstanceAs (Decidable (_ < _))

section

variable (log : List (τ × SemaphoreResult)) (t u : τ)

@[simp] theorem takes_taken : takes (log ++ [(t, .taken)]) u = takes log u + if t = u then 1 else 0 := by
  simp [takes, List.count_append, List.count_singleton]

@[simp] theorem takes_given : takes (log ++ [(t, .given)]) u = takes log u := by
  simp [takes, List.count_append]

@[simp] theorem takes_failed : takes (log ++ [(t, .failed)]) u = takes log u := by
  simp [takes, List.count_append]

@[simp] theorem gives_taken : gives (log ++ [(t, .taken)]) u = gives log u := by
  simp [gives, List.count_append]

@[simp] theorem gives_given : gives (log ++ [(t, .given)]) u = gives log u + if t = u then 1 else 0 := by
  simp [gives, List.count_append, List.count_singleton]

@[simp] theorem gives_failed : gives (log ++ [(t, .failed)]) u = gives log u := by
  simp [gives, List.count_append]

end

/-- What one task does leaves the takes and gives of every other one as they were. -/
theorem takes_of_ne {log : List (τ × SemaphoreResult)} {t u : τ} (hne : u ≠ t) (r : SemaphoreResult) :
    takes (log ++ [(t, r)]) u = takes log u := by
  cases r with
  | taken => rw [takes_taken, if_neg hne.symm, Nat.add_zero]
  | given => exact takes_given log t u
  | failed => exact takes_failed log t u

theorem gives_of_ne {log : List (τ × SemaphoreResult)} {t u : τ} (hne : u ≠ t) (r : SemaphoreResult) :
    gives (log ++ [(t, r)]) u = gives log u := by
  cases r with
  | taken => exact gives_taken log t u
  | given => rw [gives_given, if_neg hne.symm, Nat.add_zero]
  | failed => exact gives_failed log t u

theorem holds_of_ne {log : List (τ × SemaphoreResult)} {t u : τ} (hne : u ≠ t) (r : SemaphoreResult) :
    Holds (log ++ [(t, r)]) u ↔ Holds log u := by
  rw [Holds, Holds, takes_of_ne hne, gives_of_ne hne]

theorem balanced_of_ne {log : List (τ × SemaphoreResult)} {t u : τ} (hne : u ≠ t) (r : SemaphoreResult)
    (hbalance : takes log u = gives log u) :
    takes (log ++ [(t, r)]) u = gives (log ++ [(t, r)]) u := by
  rw [takes_of_ne hne, gives_of_ne hne, hbalance]

/-- The fields of a mutex against the takes and gives so far: nobody holds it, or `t`
    does, on the thread `owner`, and `recursion` is the number of takes that `t` has
    not given back. -/
inductive Mutex (get_id : τ → θ) (log : List (τ × SemaphoreResult)) (s : Semaphore θ) : Prop
  | free (hmutex : s.is_mutex = true) (hmax : s.max_count = 1) (hcount : s.count = 1)
      (hrecursion : s.recursion = 0) (hbalance : ∀ u, takes log u = gives log u) : Mutex get_id log s
  | owned (t : τ) (hmutex : s.is_mutex = true) (hmax : s.max_count = 1) (hcount : s.count = 0)
      (howner : s.owner = some (get_id t)) (hheld : 0 < s.recursion.toNat)
      (hplain : s.is_recursive = false → s.recursion = 1)
      (hrecursion : takes log t = gives log t + s.recursion.toNat)
      (hbalance : ∀ u, u ≠ t → takes log u = gives log u) : Mutex get_id log s

variable {get_id : τ → θ} {log : List (τ × SemaphoreResult)} {s s' : Semaphore θ} {t : τ}
  {r : SemaphoreResult}

theorem mutex_create {s₀ : Semaphore θ}
    (hcreate : s₀ = xSemaphoreCreateMutex ∨ s₀ = xSemaphoreCreateRecursiveMutex) :
    Mutex get_id [] s₀ := by
  obtain rfl | rfl := hcreate
  · exact .free rfl rfl rfl rfl fun _ => rfl
  · exact .free rfl rfl rfl rfl fun _ => rfl

theorem Mutex.failed (h : Mutex get_id log s) (t : τ) : Mutex get_id (log ++ [(t, .failed)]) s := by
  cases h with
  | free hmutex hmax hcount hrecursion hbalance =>
    exact .free hmutex hmax hcount hrecursion (by simpa using hbalance)
  | owned u hmutex hmax hcount howner hheld hplain hrecursion hbalance =>
    exact .owned u hmutex hmax hcount howner hheld hplain (by simpa using hrecursion)
      (by simpa using hbalance)

theorem eq_of_holds {u : τ} (hbalance : ∀ v, v ≠ u → takes log v = gives log v) (hholds : Holds log t) :
    t = u := by
  by_contra hne
  have hnone := hbalance t hne
  unfold Holds at hholds
  omega

/-- Whoever holds the mutex is its owner, as often as `recursion` says, and the only one. -/
theorem Mutex.of_holds (h : Mutex get_id log s) (hholds : Holds log t) :
    s.count = 0 ∧ s.owner = some (get_id t) ∧ takes log t = gives log t + s.recursion.toNat ∧
      ∀ u, Holds log u → u = t := by
  cases h with
  | free hmutex hmax hcount hrecursion hbalance =>
    have hnone := hbalance t
    unfold Holds at hholds
    omega
  | owned u hmutex hmax hcount hu hheld hplain hrecursion hbalance =>
    obtain rfl := eq_of_holds hbalance hholds
    exact ⟨hcount, hu, hrecursion, fun v hv => eq_of_holds hbalance hv⟩

/-- A take keeps the invariant as long as no other task holds the mutex on the caller's
    thread id, and a nested one does not wrap the counter. -/
theorem Mutex.take (h : Mutex get_id log s) (htake : s.Take (get_id t) s' r)
    (hself : s.is_recursive = true → ∀ u, Holds log u → get_id u = get_id t → u = t)
    (hbound : s.is_recursive = true → s.owner = some (get_id t) → s.recursion.toNat + 1 < 2 ^ 32) :
    Mutex get_id (log ++ [(t, r)]) s' := by
  cases htake with
  | nested hrecursive howner hpos =>
    have hnext : (s.recursion + 1).toNat = s.recursion.toNat + 1 := by
      have hfits := hbound hrecursive howner
      rw [UInt32.toNat_add]
      exact Nat.mod_eq_of_lt hfits
    cases h with
    | free hmutex hmax hcount hrecursion hbalance =>
      rw [hrecursion] at hpos
      exact absurd hpos (by decide)
    | owned u hmutex hmax hcount hu hheld hplain hrecursion hbalance =>
      have hholds : Holds log u := by
        unfold Holds
        omega
      obtain rfl : u = t := hself hrecursive u hholds (Option.some.inj (hu.symm.trans howner))
      refine .owned u hmutex hmax hcount howner ?_ ?_ ?_ ?_
      · change 0 < (s.recursion + 1).toNat
        omega
      · intro hplain
        rw [hrecursive] at hplain
        cases hplain
      · change takes _ u = gives _ u + (s.recursion + 1).toNat
        rw [takes_taken, gives_taken, if_pos rfl, hnext]
        omega
      · exact fun v hv => balanced_of_ne hv _ (hbalance v hv)
  | mutex hpos hmutex =>
    cases h with
    | free hmutex hmax hcount hrecursion hbalance =>
      refine .owned t hmutex hmax ?_ rfl Nat.one_pos (fun _ => rfl) ?_ ?_
      · change s.count - 1 = 0
        rw [hcount]
        rfl
      · rw [takes_taken, gives_taken, if_pos rfl, hbalance t]
        rfl
      · exact fun u hu => balanced_of_ne hu _ (hbalance u)
    | owned u hmutex hmax hcount hu hheld hplain hrecursion hbalance =>
      rw [hcount] at hpos
      exact absurd hpos (by decide)
  | counted hpos hcounted =>
    cases h with
    | free hmutex => simp [hcounted] at hmutex
    | owned u hmutex => simp [hcounted] at hmutex
  | failed => exact h.failed t

/-- A give that is not nested finds the counter at 1. -/
theorem recursion_of_final (hfinal : s.is_recursive = true → s.recursion ≤ 1)
    (hplain : s.is_recursive = false → s.recursion = 1) (hheld : 0 < s.recursion.toNat) :
    s.recursion.toNat = 1 := by
  have hone : (1 : UInt32).toNat = 1 := rfl
  cases hrecursive : s.is_recursive with
  | true =>
    have hle := UInt32.le_iff_toNat_le.mp (hfinal hrecursive)
    omega
  | false => rw [hplain hrecursive, hone]

/-- A give by the holder undoes one take, and the last one frees the mutex. -/
theorem Mutex.give (h : Mutex get_id log s) (hgive : s.Give s' r) (hholds : Holds log t) :
    Mutex get_id (log ++ [(t, r)]) s' := by
  obtain ⟨hzero, -⟩ := h.of_holds hholds
  cases h with
  | free hmutex hmax hcount hrecursion hbalance =>
    rw [hcount] at hzero
    cases hzero
  | owned u hmutex hmax hcount hu hheld hplain hrecursion hbalance =>
    obtain rfl : t = u := eq_of_holds hbalance hholds
    cases hgive with
    | nested hrecursive hnested =>
      have hprev : (s.recursion - 1).toNat = s.recursion.toNat - 1 :=
        UInt32.toNat_sub_of_le _ _ (UInt32.le_of_lt hnested)
      have hmore : 1 < s.recursion.toNat := UInt32.lt_iff_toNat_lt.mp hnested
      refine .owned t hmutex hmax hcount hu ?_ ?_ ?_ ?_
      · change 0 < (s.recursion - 1).toNat
        omega
      · intro hplain
        rw [hrecursive] at hplain
        cases hplain
      · change takes _ t = gives _ t + (s.recursion - 1).toNat
        rw [takes_given, gives_given, if_pos rfl, hprev]
        omega
      · exact fun v hv => balanced_of_ne hv _ (hbalance v hv)
    | mutex hfinal hless hmutex =>
      have hlast := recursion_of_final hfinal hplain hheld
      refine .free hmutex hmax ?_ rfl ?_
      · change s.count + 1 = 1
        rw [hcount]
        rfl
      · intro v
        by_cases hv : v = t
        · subst hv
          rw [takes_given, gives_given, if_pos rfl]
          omega
        · exact balanced_of_ne hv _ (hbalance v hv)
    | counted hless hcounted => simp [hcounted] at hmutex
    | failed =>
      exact (Mutex.owned t hmutex hmax hcount hu hheld hplain hrecursion hbalance).failed t

/-- The callers' side: a task gives only while it holds the mutex. -/
def Disciplined (log : List (τ × SemaphoreResult)) (t : τ) : SemaphoreCall → Prop
  | .xSemaphoreGive | .xSemaphoreGiveRecursive => Holds log t
  | .xSemaphoreTake _ | .xSemaphoreTakeRecursive _ => True

/-- No nested take finds the `recursion` counter at its largest value. -/
def Bounded (s : Semaphore θ) (self : θ) : SemaphoreCall → Prop
  | .xSemaphoreTake _ | .xSemaphoreTakeRecursive _ =>
    s.is_recursive = true → s.owner = some self → s.recursion.toNat + 1 < 2 ^ 32
  | .xSemaphoreGive | .xSemaphoreGiveRecursive => True

/-- A task is not started on the thread id of one that has ended and still holds a
    recursive mutex. -/
def Unclaimed (get_id : τ → θ) (s : Semaphore θ) (t : τ) : Prop :=
  s.is_recursive = true → s.owner ≠ some (get_id t)

/-- No other task runs on the thread id of one that holds a recursive mutex. -/
def Unshared (get_id : τ → θ) (log : List (τ × SemaphoreResult)) (s : Semaphore θ)
    (running : θ → Option τ) : Prop :=
  s.is_recursive = true → ∀ u t, Holds log u → running (get_id u) = some t → u = t

variable {running : θ → Option τ}

theorem Unshared.create (s₀ : Semaphore θ) : Unshared get_id [] s₀ fun _ => (none : Option τ) :=
  fun _ _ _ hholds _ => absurd hholds (Nat.lt_irrefl 0)

theorem Unshared.starts [DecidableEq θ] (h : Unshared get_id log s running) (hmutex : Mutex get_id log s)
    (hunclaimed : Unclaimed get_id s t) :
    Unshared get_id log s (Function.update running (get_id t) (some t)) := by
  intro hrecursive u v hholds hrunning
  have hother : get_id u ≠ get_id t := by
    intro hsame
    exact hunclaimed hrecursive (hsame ▸ (hmutex.of_holds hholds).2.1)
  rw [Function.update_of_ne hother] at hrunning
  exact h hrecursive u v hholds hrunning

theorem Unshared.ends [DecidableEq θ] (h : Unshared get_id log s running) (t : τ) :
    Unshared get_id log s (Function.update running (get_id t) none) := by
  intro hrecursive u v hholds hrunning
  by_cases hsame : get_id u = get_id t
  · rw [hsame, Function.update_self] at hrunning
    cases hrunning
  · rw [Function.update_of_ne hsame] at hrunning
    exact h hrecursive u v hholds hrunning

/-- What a running task does makes no other task hold the mutex. -/
theorem Unshared.acts (h : Unshared get_id log s running) (hself : running (get_id t) = some t)
    (hrecursive : s'.is_recursive = s.is_recursive) (r : SemaphoreResult) :
    Unshared get_id (log ++ [(t, r)]) s' running := by
  intro hrec u v hholds hrunning
  by_cases hne : u = t
  · subst hne
    exact Option.some.inj (hself.symm.trans hrunning)
  · exact h (hrecursive ▸ hrec) u v ((holds_of_ne hne r).mp hholds) hrunning

/-- A running task that has the thread id of a holder is that holder. -/
theorem Unshared.eq_of_running (h : Unshared get_id log s running) (hself : running (get_id t) = some t) :
    s.is_recursive = true → ∀ u, Holds log u → get_id u = get_id t → u = t :=
  fun hrecursive u hholds hsame => h hrecursive u t hholds (hsame ▸ hself)

theorem Mutex.enter [DecidableEq θ] (h : Mutex get_id log s) {call : SemaphoreCall}
    (hself : s.is_recursive = true → ∀ u, Holds log u → get_id u = get_id t → u = t)
    (hguard : Disciplined log t call ∧ Bounded s (get_id t) call)
    (henter : call.enter s (get_id t) = .returns s' r) : Mutex get_id (log ++ [(t, r)]) s' := by
  cases call with
  | xSemaphoreTake => exact h.take (xSemaphoreTake_take henter) hself hguard.2
  | xSemaphoreTakeRecursive => exact h.take (xSemaphoreTake_take henter) hself hguard.2
  | xSemaphoreGive => exact h.give (xSemaphoreGive_give henter) hguard.1
  | xSemaphoreGiveRecursive => exact h.give (xSemaphoreGive_give henter) hguard.1

/-- A take that has waited finds the mutex free, so it is not a nested one. -/
theorem Mutex.resume (h : Mutex get_id log s)
    (hself : s.is_recursive = true → ∀ u, Holds log u → get_id u = get_id t → u = t)
    (hresume : s.proceed (get_id t) = some (s', r)) : Mutex get_id (log ++ [(t, r)]) s' := by
  have hpos : 0 < s.count := by
    by_contra hzero
    simp [Semaphore.proceed, hzero] at hresume
  refine h.take (Semaphore.proceed_take hresume) hself ?_
  cases h with
  | free hmutex hmax hcount hrecursion hbalance =>
    intro _ _
    rw [hrecursion]
    decide
  | owned u hmutex hmax hcount hu hheld hplain hrecursion hbalance =>
    rw [hcount] at hpos
    exact absurd hpos (by decide)

/-- A take that succeeds leaves every other task's gives matching its takes. -/
theorem Mutex.balanced_of_taken (h : Mutex get_id log s) (htake : s.Take (get_id t) s' .taken)
    (hself : s.is_recursive = true → ∀ u, Holds log u → get_id u = get_id t → u = t) {u : τ}
    (hne : u ≠ t) : takes log u = gives log u := by
  cases h with
  | free hmutex hmax hcount hrecursion hbalance => exact hbalance u
  | owned v hmutex hmax hcount hv hheld hplain hrecursion hbalance =>
    cases htake with
    | nested hrecursive howner hpos =>
      have hholds : Holds log v := by
        unfold Holds
        omega
      obtain rfl : v = t := hself hrecursive v hholds (Option.some.inj (hv.symm.trans howner))
      exact hbalance u hne
    | mutex hpos hmutex =>
      rw [hcount] at hpos
      exact absurd hpos (by decide)
    | counted hpos hcounted => simp [hcounted] at hmutex

theorem Mutex.count_eq_one_iff (h : Mutex get_id log s) : s.count = 1 ↔ ∀ t, ¬Holds log t := by
  constructor
  · intro hcount t hholds
    rw [(h.of_holds hholds).1] at hcount
    cases hcount
  · intro hnone
    cases h with
    | free hmutex hmax hcount hrecursion hbalance => exact hcount
    | owned u hmutex hmax hcount hu hheld hplain hrecursion hbalance =>
      have hholds : Holds log u := by
        unfold Holds
        omega
      exact absurd hholds (hnone u)

variable [DecidableEq θ]

omit [DecidableEq τ] in
/-- A call that returns `taken` is a take. -/
theorem semaphoreMonitor_take {st : SemaphoreState τ θ} {e : Lib.Monitor.Event τ SemaphoreCall}
    (hreturns : (semaphoreMonitor get_id).Returns st t e s' .taken) :
    st.shared.Take (get_id t) s' .taken := by
  cases hreturns with
  | @entered call _ _ henter =>
    cases call with
    | xSemaphoreTake => exact xSemaphoreTake_take henter
    | xSemaphoreTakeRecursive => exact xSemaphoreTake_take henter
    | xSemaphoreGive => cases xSemaphoreGive_give henter
    | xSemaphoreGiveRecursive => cases xSemaphoreGive_give henter
  | resumed hwaiting hresume => exact Semaphore.proceed_take hresume
  | expired hwaiting hresume hexpire => cases Wait.eq_of_expire hexpire

/-- The tasks of a semaphore, which are started on a thread each, and end. -/
abbrev semaphoreTasks (get_id : τ → θ) :=
  Lib.Threads.machine (semaphoreMonitor get_id) get_id

/-- What is asked of the tasks of a mutex: that they give only what they hold, and
    that none nests its takes too deep or is taken for a holder that has ended. -/
abbrev OnMutex (get_id : τ → θ) :
    Lib.Threads.State τ θ (Semaphore θ) (Wait Unit) SemaphoreResult →
      Lib.Threads.Event τ SemaphoreCall → Prop :=
  Lib.Threads.OnTasks (Unclaimed get_id) fun log s t call =>
    Disciplined log t call ∧ Bounded s (get_id t) call

theorem visited_mutex {s₀ : Semaphore θ}
    (hcreate : s₀ = xSemaphoreCreateMutex ∨ s₀ = xSemaphoreCreateRecursiveMutex)
    {events : List (Lib.Threads.Event τ SemaphoreCall)}
    (hmeets : (semaphoreTasks get_id).Meets (OnMutex get_id) (.initial s₀) events) :
    ∀ st ∈ (semaphoreTasks get_id).visited (.initial s₀) events,
      Mutex get_id st.log st.shared ∧ Unshared get_id st.log st.shared st.running := by
  refine Lib.Threads.visited_log
    (P := fun log s running => Mutex get_id log s ∧ Unshared get_id log s running)
    ⟨mutex_create hcreate, Unshared.create s₀⟩ ?starts ?ends ?enter ?resume ?expire hmeets
  case starts =>
    intro log s running t h hunclaimed _
    exact ⟨h.1, h.2.starts h.1 hunclaimed⟩
  case ends =>
    intro log s running t h
    exact ⟨h.1, h.2.ends t⟩
  case enter =>
    intro log s running t call s' r h hself hguard henter
    have hrecursive : s'.is_recursive = s.is_recursive := by
      obtain htake | hgive := SemaphoreCall.enter_cases henter
      · exact htake.is_recursive_eq
      · exact hgive.is_recursive_eq
    exact ⟨h.1.enter (h.2.eq_of_running hself) hguard henter, h.2.acts hself hrecursive r⟩
  case resume =>
    intro log s running t wait s' r h hself hresume
    have hrecursive := (Semaphore.proceed_take hresume).is_recursive_eq
    exact ⟨h.1.resume (h.2.eq_of_running hself) hresume, h.2.acts hself hrecursive r⟩
  case expire =>
    intro log s running t wait r h hself hexpire
    obtain rfl := Wait.eq_of_expire hexpire
    exact ⟨h.1.failed t, h.2.acts hself rfl _⟩

/-- In every state of a run whose tasks give only what they hold, in which no take nests
    2^32 deep and no task is started on the thread id of an ended one that still holds a
    recursive mutex, at most one task holds the mutex, `count` is 1 exactly when nobody
    does, `recursion` is the holder's takes less its gives, and a take by another task
    succeeds only once the holder has given back all it took. -/
theorem mutual_exclusion {s₀ : Semaphore θ}
    (hcreate : s₀ = xSemaphoreCreateMutex ∨ s₀ = xSemaphoreCreateRecursiveMutex)
    {events : List (Lib.Threads.Event τ SemaphoreCall)}
    (hmeets : (semaphoreTasks get_id).Meets (OnMutex get_id) (.initial s₀) events) :
    ∀ st ∈ (semaphoreTasks get_id).visited (.initial s₀) events,
      (∀ t u, Holds st.log t → Holds st.log u → t = u) ∧
        (st.shared.count = 1 ↔ ∀ t, ¬Holds st.log t) ∧
        (∀ t, Holds st.log t → takes st.log t = gives st.log t + st.shared.recursion.toNat) ∧
        ∀ e st' t u, (semaphoreTasks get_id).step st e = some st' →
          st'.log = st.log ++ [(t, .taken)] → u ≠ t → takes st.log u = gives st.log u := by
  intro st hst
  obtain ⟨h, hshared⟩ := visited_mutex hcreate hmeets st hst
  refine ⟨?_, h.count_eq_one_iff, fun t ht => (h.of_holds ht).2.2.1, ?_⟩
  · intro t u ht hu
    exact (h.of_holds hu).2.2.2 t ht
  · intro e st' t u hstep hlog hne
    obtain ⟨v, rfl, -, hsame, -⟩ | ⟨a, rfl, hself, ha, -⟩ | ⟨v, rfl, hsame, -⟩ :=
      Lib.Threads.step_cases hstep
    · simp [hsame] at hlog
    · obtain ⟨s', r, hreturns, hst'⟩ | ⟨wait, hst'⟩ | hst' := Lib.Monitor.step_cases ha
      · obtain ⟨rfl, rfl⟩ : a.task = t ∧ r = .taken := by
          simpa [hst', Lib.Monitor.State.returned] using hlog
        exact h.balanced_of_taken (semaphoreMonitor_take hreturns) (hshared.eq_of_running hself) hne
      · simp [hst', Lib.Monitor.State.blocked] at hlog
      · simp [hst'] at hlog
    · simp [hsame] at hlog

/-- Two tasks pass a plain mutex on: the second holds it after the first has given it. -/
theorem mutual_exclusion_handover :
    ∃ st ∈ (semaphoreTasks (id : Nat → Nat)).visited (.initial xSemaphoreCreateMutex)
        [.starts 0, .starts 1, .acts (.call 0 (.xSemaphoreTake 0)),
          .acts (.call 1 (.xSemaphoreTake portMAX_DELAY)), .acts (.call 0 .xSemaphoreGive),
          .ends 0, .acts (.wake 1)],
      Holds st.log 1 ∧ ¬Holds st.log 0 := by
  refine ⟨?st, ?mem, ?second, fun hfirst =>
    absurd ((mutual_exclusion (.inl rfl) ?meets ?st ?mem).1 0 1 hfirst ?second) (by decide)⟩
  case mem =>
    refine Lib.EventMachine.mem_visited_iff.mpr ⟨_, List.prefix_refl _, ?_⟩
    rfl
  case second => decide
  case meets =>
    refine .cons nofun rfl (.cons nofun rfl (.cons ⟨trivial, nofun⟩ rfl (.cons ⟨trivial, nofun⟩ rfl
      (.cons ⟨?_, trivial⟩ rfl (.cons trivial rfl (.cons trivial rfl trivial))))))
    change Holds [(0, .taken)] 0
    decide

section TwoHolders

/-- Tasks that give only what they hold come to a state in which tasks 0 and 1 both hold
    a recursive mutex. -/
def TwoHolders (get_id : Nat → θ) (events : List (Lib.Threads.Event Nat SemaphoreCall)) : Prop :=
  ∃ st, (semaphoreTasks get_id).run (.initial xSemaphoreCreateRecursiveMutex) events = some st ∧
    (semaphoreTasks get_id).Meets
      (Lib.Threads.OnTasks (fun _ _ => True) fun log _ t call => Disciplined log t call)
      (.initial xSemaphoreCreateRecursiveMutex) events ∧
    Holds st.log 0 ∧ Holds st.log 1

/-- A recursive mutex that task 0 has taken `n` times. -/
def takenBy0 (n : Nat) : Semaphore Nat :=
  { (xSemaphoreCreateRecursiveMutex : Semaphore Nat) with
    count := 0, owner := some 0, recursion := UInt32.ofNat n }

/-- Tasks 0 and 1 run, and task 0 takes the mutex `n` times. -/
def nestedTakes (n : Nat) : List (Lib.Threads.Event Nat SemaphoreCall) :=
  [.starts 0, .starts 1] ++ List.replicate n (.acts (.call 0 (.xSemaphoreTake 0)))

theorem nestedTakes_succ (n : Nat) :
    nestedTakes (n + 1) = nestedTakes n ++ [.acts (.call 0 (.xSemaphoreTake 0))] := by
  rw [nestedTakes, nestedTakes, List.replicate_succ', List.append_assoc]

/-- The takes of one task all succeed, until the counter is full. -/
theorem run_nested_takes {n m : Nat} (hm : m = n + 1) (hfits : m ≤ 2 ^ 32) :
    ∃ st : Lib.Threads.State Nat Nat (Semaphore Nat) (Wait Unit) SemaphoreResult,
      (semaphoreTasks id).run (.initial xSemaphoreCreateRecursiveMutex) (nestedTakes m) = some st ∧
        st.shared = takenBy0 m ∧ (∀ t, st.waiting t = none) ∧
        (st.running 0 = some 0 ∧ st.running 1 = some 1) ∧
        takes st.log 0 = m ∧ ∀ t, gives st.log t = 0 := by
  subst hm
  induction n with
  | zero =>
    refine ⟨_, rfl, rfl, ?_, ⟨rfl, rfl⟩, by decide, ?_⟩
    · intro t
      simp [Lib.Monitor.State.returned, Lib.Threads.State.initial, Lib.Monitor.State.initial]
    · intro t
      change gives ([] ++ [(0, .taken)]) t = 0
      rw [gives_taken]
      rfl
  | succ n ih =>
    obtain ⟨st, hrun, hshared, hwaiting, hrunning, htakes, hgives⟩ := ih (by omega)
    have hheld : 0 < st.shared.recursion := by
      rw [hshared, UInt32.lt_iff_toNat_lt]
      change 0 < (UInt32.ofNat (n + 1)).toNat
      rw [UInt32.toNat_ofNat_of_lt' (by change n + 1 < 2 ^ 32; omega)]
      exact Nat.succ_pos n
    have henter : xSemaphoreTake st.shared 0 0 =
        .returns { st.shared with recursion := st.shared.recursion + 1 } .taken :=
      if_pos ⟨by rw [hshared]; rfl, by rw [hshared]; rfl, hheld⟩
    have hstep : (semaphoreMonitor id).step st.toState (.call 0 (.xSemaphoreTake 0)) =
        some (st.returned 0 { st.shared with recursion := st.shared.recursion + 1 } .taken) :=
      Lib.Monitor.step_call_returns (hwaiting 0) henter
    refine ⟨{ st with toState := st.returned 0 { st.shared with recursion := st.shared.recursion + 1 } .taken },
      ?_, ?_, ?_, hrunning, ?_, ?_⟩
    · rw [nestedTakes_succ]
      exact Lib.EventMachine.run_concat_eq_some.mpr ⟨st, hrun, Lib.Threads.step_acts hrunning.1 hstep⟩
    · change { st.shared with recursion := st.shared.recursion + 1 } = takenBy0 (n + 1 + 1)
      rw [hshared]
      simp only [takenBy0, UInt32.ofNat_add]
      rfl
    · intro t
      by_cases ht : t = 0
      · simp [Lib.Monitor.State.returned, ht]
      · simp [Lib.Monitor.State.returned, ht, hwaiting]
    · change takes (st.log ++ [(0, .taken)]) 0 = n + 1 + 1
      rw [takes_taken, htakes, if_pos rfl]
    · intro t
      change gives (st.log ++ [(0, .taken)]) t = 0
      rw [gives_taken, hgives]

/-- The full counter wraps to 0: one give then frees a mutex that the task has taken
    2^32 times, and another task takes it as well. -/
theorem two_holders_wrapped :
    TwoHolders id (nestedTakes (2 ^ 32) ++ [.acts (.call 0 .xSemaphoreGive)] ++
      [.acts (.call 1 (.xSemaphoreTake 0))]) := by
  obtain ⟨st, hrun, hshared, hwaiting, hrunning, htakes, hgives⟩ :=
    run_nested_takes (n := 4294967295) (m := 2 ^ 32) (by decide) (Nat.le_refl _)
  have hholds : Holds st.log 0 := by
    unfold Holds
    rw [hgives, htakes]
    decide
  let freed : Semaphore Nat := { takenBy0 0 with count := 1, owner := none }
  let again : Semaphore Nat := { takenBy0 1 with owner := some 1 }
  -- The give finds `recursion` at 0 and takes itself for the final one.
  have hgive : xSemaphoreGive st.shared = .returns freed .given := by
    rw [hshared]
    rfl
  have htake : xSemaphoreTake freed 1 0 = .returns again .taken := by
    simp [xSemaphoreTake, attempt, Semaphore.proceed, freed, again, takenBy0,
      xSemaphoreCreateRecursiveMutex, Semaphore.default]
  have hfirst : (semaphoreMonitor id).step st.toState (.call 0 .xSemaphoreGive) =
      some (st.returned 0 freed .given) :=
    Lib.Monitor.step_call_returns (hwaiting 0) hgive
  have hsecond : (semaphoreMonitor id).step (st.returned 0 freed .given) (.call 1 (.xSemaphoreTake 0)) =
      some ((st.returned 0 freed .given).returned 1 again .taken) := by
    refine Lib.Monitor.step_call_returns ?_ htake
    simp [Lib.Monitor.State.returned, hwaiting]
  let gave : Lib.Threads.State Nat Nat (Semaphore Nat) (Wait Unit) SemaphoreResult :=
    { st with toState := st.returned 0 freed .given }
  have hacts : Lib.Threads.step (semaphoreMonitor id) id gave (.acts (.call 1 (.xSemaphoreTake 0))) =
      some { gave with toState := (st.returned 0 freed .given).returned 1 again .taken } :=
    Lib.Threads.step_acts hrunning.2 hsecond
  refine ⟨{ gave with toState := (st.returned 0 freed .given).returned 1 again .taken }, ?_, ?_, ?_, ?_⟩
  · exact Lib.EventMachine.run_concat_eq_some.mpr
      ⟨gave, Lib.EventMachine.run_concat_eq_some.mpr ⟨st, hrun, Lib.Threads.step_acts hrunning.1 hfirst⟩,
        hacts⟩
  · refine Lib.EventMachine.meets_concat.mpr ⟨Lib.EventMachine.meets_concat.mpr ⟨?_, ?_⟩, ?_⟩
    · refine Lib.EventMachine.meets_of_forall ?_ _
      intro e he s
      obtain he | he := List.mem_append.mp he
      · obtain rfl | rfl : e = .starts 0 ∨ e = .starts 1 := by simpa using he
        · trivial
        · trivial
      · rw [List.eq_of_mem_replicate he]
        trivial
    · intro st' hst'
      obtain rfl : st = st' := Option.some.inj (hrun.symm.trans hst')
      exact hholds
    · intro _ _
      trivial
  · change Holds ((st.log ++ [(0, .given)]) ++ [(1, .taken)]) 0
    rw [Holds, gives_taken, gives_given, takes_taken, takes_given, hgives, htakes]
    decide
  · change Holds ((st.log ++ [(0, .given)]) ++ [(1, .taken)]) 1
    rw [Holds, gives_taken, gives_given, takes_taken, takes_given, hgives]
    exact Nat.succ_pos _

/-- Task 0 ends while it holds the mutex, and its thread id goes to task 1, whose take
    then passes for a nested one. -/
theorem two_holders_ended :
    TwoHolders (fun _ => ()) [.starts 0, .acts (.call 0 (.xSemaphoreTake 0)), .ends 0, .starts 1,
      .acts (.call 1 (.xSemaphoreTake 0))] := by
  refine ⟨_, rfl, ?_, by decide, by decide⟩
  refine Lib.EventMachine.meets_of_forall (fun e he st => ?_) _
  simp only [List.mem_cons, List.not_mem_nil, or_false] at he
  obtain rfl | rfl | rfl | rfl | rfl := he <;> trivial

/-- Both ways to a second holder: the full counter, and the id of an ended task. -/
theorem two_holders :
    TwoHolders id (nestedTakes (2 ^ 32) ++ [.acts (.call 0 .xSemaphoreGive)] ++
        [.acts (.call 1 (.xSemaphoreTake 0))]) ∧
      TwoHolders (fun _ => ()) [.starts 0, .acts (.call 0 (.xSemaphoreTake 0)), .ends 0, .starts 1,
        .acts (.call 1 (.xSemaphoreTake 0))] :=
  ⟨two_holders_wrapped, two_holders_ended⟩

end TwoHolders

end HostArduino.freertos
