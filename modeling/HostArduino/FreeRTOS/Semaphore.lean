import HostArduino.FreeRTOS.Ticks

namespace HostArduino.freertos

/-- `owner` is a thread id, `none` the default id that no thread has; a thread that has
    ended may leave its id to a later one. -/
structure Semaphore (θ : Type*) where
  count : UInt32
  max_count : UInt32
  is_mutex : Bool
  is_recursive : Bool
  owner : Option θ
  recursion : UInt32
  deriving DecidableEq

inductive SemaphoreResult where
  | taken
  | given
  | failed
  deriving DecidableEq, Repr

variable {θ : Type*}

def SemaphoreResult.returns : SemaphoreResult → BaseType_t
  | .failed => .pdFAIL
  | _ => .pdPASS

def Semaphore.default : Semaphore θ where
  count := 0
  max_count := 1
  is_mutex := false
  is_recursive := false
  owner := none
  recursion := 0

def xSemaphoreCreateBinary : Semaphore θ :=
  { Semaphore.default with count := 0, max_count := 1 }

def xSemaphoreCreateCounting (max_count initial_count : Nat) : Semaphore θ :=
  { Semaphore.default with
    count := UInt32.ofNat initial_count, max_count := UInt32.ofNat max_count }

def xSemaphoreCreateMutex : Semaphore θ :=
  { Semaphore.default with count := 1, max_count := 1, is_mutex := true }

def xSemaphoreCreateRecursiveMutex : Semaphore θ :=
  { Semaphore.default with count := 1, max_count := 1, is_mutex := true, is_recursive := true }

/-- The end of `xSemaphoreTake`, behind the predicate that the count is positive. -/
def Semaphore.proceed (s : Semaphore θ) (self : θ) : Option (Semaphore θ × SemaphoreResult) :=
  if 0 < s.count then
    if s.is_mutex then some ({ s with count := s.count - 1, owner := some self, recursion := 1 }, .taken)
    else some ({ s with count := s.count - 1 }, .taken)
  else none

abbrev SemaphoreOutcome (θ : Type*) :=
  Lib.Outcome (Semaphore θ) (Wait Unit) SemaphoreResult

def xSemaphoreTake [DecidableEq θ] (s : Semaphore θ) (self : θ) (ticks_to_wait : TickType_t) :
    SemaphoreOutcome θ :=
  if s.is_recursive = true ∧ s.owner = some self ∧ 0 < s.recursion then
    .returns { s with recursion := s.recursion + 1 } .taken
  else attempt s (s.proceed self) .failed () ticks_to_wait

def xSemaphoreTakeRecursive [DecidableEq θ] (s : Semaphore θ) (self : θ) (ticks : TickType_t) :
    SemaphoreOutcome θ :=
  xSemaphoreTake s self ticks

def xSemaphoreGive (s : Semaphore θ) : SemaphoreOutcome θ :=
  if s.is_recursive = true ∧ 1 < s.recursion then
    .returns { s with recursion := s.recursion - 1 } .given
  else if s.max_count ≤ s.count then .returns s .failed
  else if s.is_mutex then
    .returns { s with count := s.count + 1, owner := none, recursion := 0 } .given
  else .returns { s with count := s.count + 1 } .given

def xSemaphoreGiveRecursive (s : Semaphore θ) : SemaphoreOutcome θ :=
  xSemaphoreGive s

/-- The calls a task can make on the semaphore. -/
inductive SemaphoreCall where
  | xSemaphoreTake (ticks_to_wait : TickType_t)
  | xSemaphoreTakeRecursive (ticks : TickType_t)
  | xSemaphoreGive
  | xSemaphoreGiveRecursive
  deriving DecidableEq, Repr

def SemaphoreCall.enter [DecidableEq θ] (s : Semaphore θ) (self : θ) : SemaphoreCall → SemaphoreOutcome θ
  | .xSemaphoreTake ticks_to_wait => freertos.xSemaphoreTake s self ticks_to_wait
  | .xSemaphoreTakeRecursive ticks => freertos.xSemaphoreTakeRecursive s self ticks
  | .xSemaphoreGive => freertos.xSemaphoreGive s
  | .xSemaphoreGiveRecursive => freertos.xSemaphoreGiveRecursive s

/-- One semaphore shared by tasks; `get_id` is the id of the thread that a task runs on. -/
def semaphoreMonitor {τ : Type*} [DecidableEq θ] (get_id : τ → θ) :
    Lib.Monitor τ (Semaphore θ) SemaphoreCall (Wait Unit) SemaphoreResult where
  enter self call s := call.enter s (get_id self)
  resume self _ s := s.proceed (get_id self)
  expire wait := wait.expire .failed

abbrev SemaphoreState (τ θ : Type*) :=
  Lib.Monitor.State τ (Semaphore θ) (Wait Unit) SemaphoreResult

/-- All that a take by `self` can have done when it returns. -/
inductive Semaphore.Take (self : θ) (s : Semaphore θ) : Semaphore θ → SemaphoreResult → Prop
  | nested (hrecursive : s.is_recursive = true) (howner : s.owner = some self) (hheld : 0 < s.recursion) :
      Semaphore.Take self s { s with recursion := s.recursion + 1 } .taken
  | mutex (hcount : 0 < s.count) (hmutex : s.is_mutex = true) :
      Semaphore.Take self s { s with count := s.count - 1, owner := some self, recursion := 1 } .taken
  | counted (hcount : 0 < s.count) (hmutex : s.is_mutex = false) :
      Semaphore.Take self s { s with count := s.count - 1 } .taken
  | failed : Semaphore.Take self s s .failed

/-- All that a give can have done when it returns. -/
inductive Semaphore.Give (s : Semaphore θ) : Semaphore θ → SemaphoreResult → Prop
  | nested (hrecursive : s.is_recursive = true) (hnested : 1 < s.recursion) :
      Semaphore.Give s { s with recursion := s.recursion - 1 } .given
  | mutex (hfinal : s.is_recursive = true → s.recursion ≤ 1) (hcount : s.count < s.max_count)
      (hmutex : s.is_mutex = true) :
      Semaphore.Give s { s with count := s.count + 1, owner := none, recursion := 0 } .given
  | counted (hcount : s.count < s.max_count) (hmutex : s.is_mutex = false) :
      Semaphore.Give s { s with count := s.count + 1 } .given
  | failed : Semaphore.Give s s .failed

variable {s s' : Semaphore θ} {self : θ} {r : SemaphoreResult}

theorem Semaphore.Take.is_recursive_eq (htake : s.Take self s' r) : s'.is_recursive = s.is_recursive := by
  cases htake <;> rfl

theorem Semaphore.Give.is_recursive_eq (hgive : s.Give s' r) : s'.is_recursive = s.is_recursive := by
  cases hgive <;> rfl

theorem Semaphore.proceed_take (h : s.proceed self = some (s', r)) : s.Take self s' r := by
  unfold Semaphore.proceed at h
  split at h
  · rename_i hcount
    split at h
    · rename_i hmutex
      cases h
      exact .mutex hcount hmutex
    · rename_i hmutex
      cases h
      exact .counted hcount (by simpa using hmutex)
  · cases h

theorem xSemaphoreTake_take [DecidableEq θ] {ticks_to_wait : TickType_t}
    (h : xSemaphoreTake s self ticks_to_wait = .returns s' r) : s.Take self s' r := by
  unfold xSemaphoreTake at h
  split at h
  · rename_i hnested
    cases h
    exact .nested hnested.1 hnested.2.1 hnested.2.2
  · obtain hdone | ⟨rfl, rfl⟩ := attempt_returns h
    · exact Semaphore.proceed_take hdone
    · exact .failed

theorem xSemaphoreGive_give (h : xSemaphoreGive s = .returns s' r) : s.Give s' r := by
  unfold xSemaphoreGive at h
  split at h
  · rename_i hnested
    cases h
    exact .nested hnested.1 hnested.2
  · rename_i hfinal
    split at h
    · cases h
      exact .failed
    · rename_i hcount
      split at h
      · rename_i hmutex
        cases h
        refine .mutex ?_ (UInt32.not_le.mp hcount) hmutex
        intro hrecursive
        exact UInt32.not_lt.mp fun hnested => hfinal ⟨hrecursive, hnested⟩
      · rename_i hmutex
        cases h
        exact .counted (UInt32.not_le.mp hcount) (by simpa using hmutex)

theorem SemaphoreCall.enter_cases [DecidableEq θ] {call : SemaphoreCall}
    (h : call.enter s self = .returns s' r) : s.Take self s' r ∨ s.Give s' r := by
  cases call with
  | xSemaphoreTake => exact .inl (xSemaphoreTake_take h)
  | xSemaphoreTakeRecursive => exact .inl (xSemaphoreTake_take h)
  | xSemaphoreGive => exact .inr (xSemaphoreGive_give h)
  | xSemaphoreGiveRecursive => exact .inr (xSemaphoreGive_give h)

end HostArduino.freertos
