import HostArduino.Lib.EventMachine
import Mathlib.Logic.Function.Basic

namespace Lib

universe u v w x y

/-- How a critical section ends: the call returns, or it waits on a condition variable. -/
inductive Outcome (σ : Type u) (ω : Type v) (ρ : Type w) where
  | returns (s : σ) (r : ρ)
  | blocks (wait : ω)

/-- An object shared by tasks and guarded by one mutex. `enter` is a call's
    critical section from the lock until the call returns or waits. `resume` is the
    critical section of a waiting call that holds the lock again: it checks its
    predicate, and `none` sends it back to waiting. `expire` is what a call returns
    whose wait has run out with the predicate false; `none` is a wait without end. -/
structure Monitor (τ : Type u) (σ : Type v) (κ : Type w) (ω : Type x) (ρ : Type y) where
  enter : τ → κ → σ → Outcome σ ω ρ
  resume : τ → ω → σ → Option (σ × ρ)
  expire : ω → Option ρ

namespace Monitor

variable {τ : Type u} {σ : Type v} {κ : Type w} {ω : Type x} {ρ : Type y}

/-- The object, the calls that wait on it, and what has been returned so far. -/
structure State (τ : Type u) (σ : Type v) (ω : Type x) (ρ : Type y) where
  shared : σ
  waiting : τ → Option ω
  log : List (τ × ρ)

def State.initial (s : σ) : State τ σ ω ρ where
  shared := s
  waiting := fun _ => none
  log := []

inductive Event (τ : Type u) (κ : Type w) where
  | call (t : τ) (k : κ)
  | wake (t : τ)
  | timeout (t : τ)

def Event.task {τ : Type u} {κ : Type w} : Event τ κ → τ
  | .call t _ | .wake t | .timeout t => t

variable [DecidableEq τ]

def State.returned (st : State τ σ ω ρ) (t : τ) (s : σ) (r : ρ) : State τ σ ω ρ where
  shared := s
  waiting := Function.update st.waiting t none
  log := st.log ++ [(t, r)]

def State.blocked (st : State τ σ ω ρ) (t : τ) (wait : ω) : State τ σ ω ρ :=
  { st with waiting := Function.update st.waiting t (some wait) }

/-- Any waiting call may wake at any time, as it may on a condition variable; a
    timed wait checks its predicate once more when it runs out. -/
def step (m : Monitor τ σ κ ω ρ) (st : State τ σ ω ρ) : Event τ κ → Option (State τ σ ω ρ)
  | .call t k =>
    match st.waiting t with
    | some _ => none
    | none =>
      match m.enter t k st.shared with
      | .returns s r => some (st.returned t s r)
      | .blocks wait => some (st.blocked t wait)
  | .wake t =>
    (st.waiting t).bind fun wait =>
      match m.resume t wait st.shared with
      | some (s, r) => some (st.returned t s r)
      | none => some st
  | .timeout t =>
    (st.waiting t).bind fun wait =>
      (m.expire wait).bind fun expired =>
        match m.resume t wait st.shared with
        | some (s, r) => some (st.returned t s r)
        | none => some (st.returned t st.shared expired)

def machine (m : Monitor τ σ κ ω ρ) : EventMachine (State τ σ ω ρ) (Event τ κ) where
  step := m.step

/-- A call of task `t` returns `r`, leaving the object as `s`. -/
inductive Returns (m : Monitor τ σ κ ω ρ) (st : State τ σ ω ρ) (t : τ) : Event τ κ → σ → ρ → Prop
  | entered {k : κ} {s : σ} {r : ρ} (henter : m.enter t k st.shared = .returns s r) :
      Returns m st t (.call t k) s r
  | resumed {e : Event τ κ} {wait : ω} {s : σ} {r : ρ} (hwaiting : st.waiting t = some wait)
      (hresume : m.resume t wait st.shared = some (s, r)) : Returns m st t e s r
  | expired {e : Event τ κ} {wait : ω} {r : ρ} (hwaiting : st.waiting t = some wait)
      (hresume : m.resume t wait st.shared = none) (hexpire : m.expire wait = some r) :
      Returns m st t e st.shared r

variable {m : Monitor τ σ κ ω ρ} {st st' : State τ σ ω ρ} {e : Event τ κ}

theorem step_call_returns {t : τ} {k : κ} {s : σ} {r : ρ} (hwaiting : st.waiting t = none)
    (henter : m.enter t k st.shared = .returns s r) :
    m.step st (.call t k) = some (st.returned t s r) := by
  simp only [step, hwaiting, henter]

/-- All that an event does: a call of its task returns, or goes to wait, or nothing. -/
theorem step_cases (hstep : m.step st e = some st') :
    (∃ s r, m.Returns st e.task e s r ∧ st' = st.returned e.task s r) ∨
      (∃ wait, st' = st.blocked e.task wait) ∨ st' = st := by
  cases e with
  | call t k =>
    cases hwaiting : st.waiting t with
    | some wait => simp [step, hwaiting] at hstep
    | none =>
      cases henter : m.enter t k st.shared with
      | returns s r =>
        have hst : st.returned t s r = st' := by simpa [step, hwaiting, henter] using hstep
        exact .inl ⟨s, r, .entered henter, hst.symm⟩
      | blocks wait =>
        have hst : st.blocked t wait = st' := by simpa [step, hwaiting, henter] using hstep
        exact .inr (.inl ⟨wait, hst.symm⟩)
  | wake t =>
    obtain ⟨wait, hwaiting, hstep⟩ := Option.bind_eq_some_iff.mp hstep
    cases hresume : m.resume t wait st.shared with
    | some result =>
      have hst : st.returned t result.1 result.2 = st' := by simpa [hresume] using hstep
      exact .inl ⟨result.1, result.2, .resumed hwaiting hresume, hst.symm⟩
    | none =>
      have hst : st = st' := by simpa [hresume] using hstep
      exact .inr (.inr hst.symm)
  | timeout t =>
    obtain ⟨wait, hwaiting, hstep⟩ := Option.bind_eq_some_iff.mp hstep
    obtain ⟨r, hexpire, hstep⟩ := Option.bind_eq_some_iff.mp hstep
    cases hresume : m.resume t wait st.shared with
    | some result =>
      have hst : st.returned t result.1 result.2 = st' := by simpa [hresume] using hstep
      exact .inl ⟨result.1, result.2, .resumed hwaiting hresume, hst.symm⟩
    | none =>
      have hst : st.returned t st.shared r = st' := by simpa [hresume] using hstep
      exact .inl ⟨st.shared, r, .expired hwaiting hresume hexpire, hst.symm⟩

/-- A guard on the calls a task may make; waking and timing out are not its choice. -/
def OnCalls (G : List (τ × ρ) → σ → τ → κ → Prop) (st : State τ σ ω ρ) : Event τ κ → Prop
  | .call t k => G st.log st.shared t k
  | _ => True

variable {G : List (τ × ρ) → σ → τ → κ → Prop} {P : List (τ × ρ) → σ → Prop}

/-- A relation between what was returned and the object, kept by each way in which
    a call can return, is kept by every event. -/
theorem step_log
    (henter : ∀ log s t k s' r, P log s → G log s t k → m.enter t k s = .returns s' r →
      P (log ++ [(t, r)]) s')
    (hresume : ∀ log s t wait s' r, P log s → m.resume t wait s = some (s', r) →
      P (log ++ [(t, r)]) s')
    (hexpire : ∀ log s t wait r, P log s → m.expire wait = some r → P (log ++ [(t, r)]) s)
    (hP : P st.log st.shared) (hguard : OnCalls G st e) (hstep : m.step st e = some st') :
    P st'.log st'.shared := by
  obtain ⟨s, r, hreturns, rfl⟩ | ⟨wait, rfl⟩ | rfl := step_cases hstep
  · generalize e.task = t at hreturns ⊢
    cases hreturns with
    | entered h => exact henter _ _ t _ s r hP hguard h
    | resumed hwaiting h => exact hresume _ _ t _ s r hP h
    | expired hwaiting hnot h => exact hexpire _ _ t _ r hP h
  · exact hP
  · exact hP

/-- The invariant rule of a monitor whose calls are made under a guard: it holds in
    every state the schedule passes through. -/
theorem visited_log {s₀ : σ} (hinitial : P [] s₀)
    (henter : ∀ log s t k s' r, P log s → G log s t k → m.enter t k s = .returns s' r →
      P (log ++ [(t, r)]) s')
    (hresume : ∀ log s t wait s' r, P log s → m.resume t wait s = some (s', r) →
      P (log ++ [(t, r)]) s')
    (hexpire : ∀ log s t wait r, P log s → m.expire wait = some r → P (log ++ [(t, r)]) s)
    {events : List (Event τ κ)} (hmeets : m.machine.Meets (OnCalls G) (.initial s₀) events) :
    ∀ st ∈ m.machine.visited (.initial s₀) events, P st.log st.shared :=
  EventMachine.visited_of_meets (P := fun st => P st.log st.shared)
    (fun _ _ _ hP hguard hstep => step_log henter hresume hexpire hP hguard hstep) hinitial hmeets

end Monitor

end Lib
