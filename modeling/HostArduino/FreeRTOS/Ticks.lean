import HostArduino.Lib.Monitor
import Mathlib.Algebra.Order.Ring.Int

namespace HostArduino.freertos

abbrev TickType_t := UInt32

def portMAX_DELAY : TickType_t := 0xFFFFFFFF

inductive BaseType_t where
  | pdFAIL
  | pdPASS
  deriving DecidableEq, Repr

/-- A call in `wait` or `wait_for`: what it does once its predicate holds, and how long it waits. -/
structure Wait (κ : Type*) where
  rest : κ
  ticks_to_wait : TickType_t
  deriving DecidableEq

variable {σ ρ κ : Type*}

/-- The frame of every blocking call. `done` is its outcome if the predicate holds:
    it returns at once, fails at once on zero ticks, and waits otherwise. -/
def attempt (s : σ) (done : Option (σ × ρ)) (fail : ρ) (rest : κ) (ticks_to_wait : TickType_t) :
    Lib.Outcome σ (Wait κ) ρ :=
  match done with
  | some (s', r) => .returns s' r
  | none => if ticks_to_wait = 0 then .returns s fail else .blocks { rest, ticks_to_wait }

/-- A `wait_for` that runs out makes its call fail; a `wait` never runs out. -/
def Wait.expire (fail : ρ) (wait : Wait κ) : Option ρ :=
  if wait.ticks_to_wait = portMAX_DELAY then none else some fail

theorem attempt_returns {s s' : σ} {done : Option (σ × ρ)} {fail r : ρ} {rest : κ}
    {ticks_to_wait : TickType_t} (h : attempt s done fail rest ticks_to_wait = .returns s' r) :
    done = some (s', r) ∨ s' = s ∧ r = fail := by
  unfold attempt at h
  split at h
  · obtain ⟨rfl, rfl⟩ := Lib.Outcome.returns.inj h
    exact .inl rfl
  · split at h
    · obtain ⟨rfl, rfl⟩ := Lib.Outcome.returns.inj h
      exact .inr ⟨rfl, rfl⟩
    · cases h

theorem attempt_blocks {s : σ} {done : Option (σ × ρ)} {fail : ρ} {rest : κ}
    {ticks_to_wait : TickType_t} {wait : Wait κ}
    (h : attempt s done fail rest ticks_to_wait = .blocks wait) :
    done = none ∧ wait = { rest, ticks_to_wait } ∧ ticks_to_wait ≠ 0 := by
  unfold attempt at h
  split at h
  · cases h
  · split at h
    · cases h
    · rename_i hticks
      exact ⟨rfl, (Lib.Outcome.blocks.inj h).symm, hticks⟩

theorem Wait.eq_of_expire {fail r : ρ} {wait : Wait κ} (h : wait.expire fail = some r) : r = fail := by
  unfold Wait.expire at h
  split at h
  · cases h
  · exact (Option.some.inj h).symm

end HostArduino.freertos
