import HostArduino.Lib.Monitor

namespace Lib

universe u v w x y z

/-- The tasks of a monitor and the threads they run on: `running` is the task that a
    thread id stands for now, `started` are the tasks that have been started so far. -/
structure Threads.State (τ : Type u) (θ : Type z) (σ : Type v) (ω : Type x) (ρ : Type y)
    extends Monitor.State τ σ ω ρ where
  running : θ → Option τ
  started : List τ

namespace Threads

variable {τ : Type u} {θ : Type z} {σ : Type v} {κ : Type w} {ω : Type x} {ρ : Type y}

def State.initial (s : σ) : State τ θ σ ω ρ where
  toState := .initial s
  running := fun _ => none
  started := []

inductive Event (τ : Type u) (κ : Type w) where
  | starts (t : τ)
  | acts (e : Monitor.Event τ κ)
  | ends (t : τ)

/-- What an event does on the monitor. -/
def Event.acted : Event τ κ → Option (Monitor.Event τ κ)
  | .acts e => some e
  | .starts _ | .ends _ => none

variable [DecidableEq τ] [DecidableEq θ]

/-- A task is started once, on a thread id that no running task has. It acts while it
    runs, and ends outside of every call; its id may then be given to another task. -/
def step (m : Monitor τ σ κ ω ρ) (get_id : τ → θ) (st : State τ θ σ ω ρ) :
    Event τ κ → Option (State τ θ σ ω ρ)
  | .starts t =>
    if t ∉ st.started ∧ st.running (get_id t) = none then
      some { st with
        running := Function.update st.running (get_id t) (some t)
        started := t :: st.started }
    else none
  | .acts e =>
    if st.running (get_id e.task) = some e.task then
      (m.step st.toState e).map fun s => { st with toState := s }
    else none
  | .ends t =>
    if st.running (get_id t) = some t ∧ (st.waiting t).isNone then
      some { st with running := Function.update st.running (get_id t) none }
    else none

def machine (m : Monitor τ σ κ ω ρ) (get_id : τ → θ) : EventMachine (State τ θ σ ω ρ) (Event τ κ) where
  step := step m get_id

variable {m : Monitor τ σ κ ω ρ} {get_id : τ → θ} {st st' : State τ θ σ ω ρ} {e : Event τ κ}

theorem step_acts {e : Monitor.Event τ κ} {s : Monitor.State τ σ ω ρ}
    (hrunning : st.running (get_id e.task) = some e.task) (hstep : m.step st.toState e = some s) :
    step m get_id st (.acts e) = some { st with toState := s } := by
  simp only [step, hrunning, if_true, hstep, Option.map_some]

/-- All that an event does: a thread id is taken or given up, or a running task acts. -/
theorem step_cases (hstep : step m get_id st e = some st') :
    (∃ t, e = .starts t ∧ st.running (get_id t) = none ∧ st'.toState = st.toState ∧
        st'.running = Function.update st.running (get_id t) (some t)) ∨
      (∃ a, e = .acts a ∧ st.running (get_id a.task) = some a.task ∧
        m.step st.toState a = some st'.toState ∧ st'.running = st.running) ∨
      ∃ t, e = .ends t ∧ st'.toState = st.toState ∧
        st'.running = Function.update st.running (get_id t) none := by
  cases e with
  | starts t =>
    simp only [step] at hstep
    split at hstep
    case isTrue hfree =>
      cases hstep
      exact .inl ⟨t, rfl, hfree.2, rfl, rfl⟩
    case isFalse => cases hstep
  | acts a =>
    simp only [step] at hstep
    split at hstep
    case isTrue hrunning =>
      obtain ⟨s, ha, rfl⟩ := Option.map_eq_some_iff.mp hstep
      exact .inr (.inl ⟨a, rfl, hrunning, ha, rfl⟩)
    case isFalse => cases hstep
  | ends t =>
    simp only [step] at hstep
    split at hstep
    case isTrue =>
      cases hstep
      exact .inr (.inr ⟨t, rfl, rfl, rfl⟩)
    case isFalse => cases hstep

/-- The monitor does not see the tasks come and go: a run with threads is a run of the
    monitor on what the tasks did. -/
theorem run_toState {s : σ} {es : List (Event τ κ)} (hrun : (machine m get_id).run (.initial s) es = some st) :
    m.machine.run (.initial s) (es.filterMap Event.acted) = some st.toState := by
  refine EventMachine.run_history
    (P := fun es st => m.machine.run (.initial s) (es.filterMap Event.acted) = some st.toState)
    rfl (fun es st e st' ih hstep => ?_) hrun
  rw [List.filterMap_append]
  obtain ⟨t, rfl, -, hsame, -⟩ | ⟨a, rfl, -, ha, -⟩ | ⟨t, rfl, hsame, -⟩ := step_cases hstep
  · rw [hsame, ← ih]
    exact congrArg _ (List.append_nil _)
  · exact EventMachine.run_concat_eq_some.mpr ⟨st.toState, ih, ha⟩
  · rw [hsame, ← ih]
    exact congrArg _ (List.append_nil _)

theorem visited_toState {s : σ} {es : List (Event τ κ)}
    (hst : st ∈ (machine m get_id).visited (.initial s) es) :
    ∃ acts, st.toState ∈ m.machine.visited (.initial s) acts := by
  obtain ⟨pre, -, hrun⟩ := EventMachine.mem_visited_iff.mp hst
  exact ⟨_, EventMachine.mem_visited_iff.mpr ⟨_, List.prefix_refl _, run_toState hrun⟩⟩

/-- A guard on the tasks that are started and on the calls that tasks make. -/
def OnTasks (S : σ → τ → Prop) (G : List (τ × ρ) → σ → τ → κ → Prop) (st : State τ θ σ ω ρ) :
    Event τ κ → Prop
  | .starts t => S st.shared t
  | .acts e => Monitor.OnCalls G st.toState e
  | .ends _ => True

variable {S : σ → τ → Prop} {G : List (τ × ρ) → σ → τ → κ → Prop}
  {P : List (τ × ρ) → σ → (θ → Option τ) → Prop}

/-- The invariant rule of a monitor whose tasks come and go: what starting and ending a
    task keeps, and each way in which a call of a running task can return. -/
theorem visited_log {s₀ : σ} (hinitial : P [] s₀ fun _ => none)
    (hstarts : ∀ log s running t, P log s running → S s t → running (get_id t) = none →
      P log s (Function.update running (get_id t) (some t)))
    (hends : ∀ log s running t, P log s running → P log s (Function.update running (get_id t) none))
    (henter : ∀ log s running t k s' r, P log s running → running (get_id t) = some t → G log s t k →
      m.enter t k s = .returns s' r → P (log ++ [(t, r)]) s' running)
    (hresume : ∀ log s running t wait s' r, P log s running → running (get_id t) = some t →
      m.resume t wait s = some (s', r) → P (log ++ [(t, r)]) s' running)
    (hexpire : ∀ log s running t wait r, P log s running → running (get_id t) = some t →
      m.expire wait = some r → P (log ++ [(t, r)]) s running)
    {events : List (Event τ κ)}
    (hmeets : (machine m get_id).Meets (OnTasks S G) (.initial s₀) events) :
    ∀ st ∈ (machine m get_id).visited (.initial s₀) events, P st.log st.shared st.running := by
  refine EventMachine.visited_of_meets (P := fun st => P st.log st.shared st.running) ?_ hinitial hmeets
  intro st e st' hP hguard hstep
  obtain ⟨t, rfl, hfree, hsame, hrunning⟩ | ⟨a, rfl, hself, ha, hrunning⟩ | ⟨t, rfl, hsame, hrunning⟩ :=
    step_cases hstep
  · rw [hsame, hrunning]
    exact hstarts _ _ _ t hP hguard hfree
  · rw [hrunning]
    obtain ⟨s, r, hreturns, hst'⟩ | ⟨wait, hst'⟩ | hst' := Monitor.step_cases ha
    · rw [hst']
      generalize a.task = t at hreturns hself ⊢
      cases hreturns with
      | entered h => exact henter _ _ _ t _ s r hP hself hguard h
      | resumed hwaiting h => exact hresume _ _ _ t _ s r hP hself h
      | expired hwaiting hnot h => exact hexpire _ _ _ t _ r hP hself h
    · rw [hst']
      exact hP
    · rw [hst']
      exact hP
  · rw [hsame, hrunning]
    exact hends _ _ _ t hP

end Threads

end Lib
