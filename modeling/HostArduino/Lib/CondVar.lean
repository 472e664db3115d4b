namespace Lib.CondVar

/-- Where a thread is inside `wait(lock, predicate)`: it tests the predicate and
    blocks until it is woken, over and over. It holds the lock while it tests and until
    it is blocked, and needs the lock again to test after it was woken. -/
inductive Stage where
  | test
  | block
  | blocked
  | woken
  deriving DecidableEq, Repr

namespace Stage

def holdsLock : Stage → Bool
  | .test | .block => true
  | .blocked | .woken => false

/-- A notification reaches only a thread that is blocked already. -/
def notify : Stage → Stage
  | .blocked => .woken
  | stage => stage

/-- The thread's own next step, if it can move: to another stage, or out of the wait. -/
def next (predicate : Bool) : Stage → Option (Option Stage)
  | .test => some (if predicate then none else some .block)
  | .block => some (some .blocked)
  | .blocked => none
  | .woken => some (some .test)

/-- The thread tests the predicate once more before it can block. -/
def Awake (stage : Stage) : Prop :=
  stage = .test ∨ stage = .woken

variable {stage stage' : Stage}

theorem awake_notify (hstage : stage ≠ .block) : stage.notify.Awake := by
  cases stage with
  | test => exact .inl rfl
  | block => exact absurd rfl hstage
  | blocked => exact .inr rfl
  | woken => exact .inr rfl

theorem Awake.ne_blocked (hawake : stage.Awake) : stage ≠ .blocked := by
  obtain rfl | rfl := hawake
  · nofun
  · nofun

/-- No notification is lost on a thread that is awake when the predicate becomes true. -/
theorem Awake.next (hawake : stage.Awake) (hnext : stage.next true = some (some stage')) :
    stage'.Awake := by
  obtain rfl | rfl := hawake
  · cases hnext
  · cases hnext
    exact .inl rfl

end Stage

end Lib.CondVar
