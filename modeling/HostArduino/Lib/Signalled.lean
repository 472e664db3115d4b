import HostArduino.Lib.Monitor
import Mathlib.Data.Fintype.Defs

namespace Lib

universe u v w x y z

/-- Where a task is: outside of every call, asleep on a condition variable, woken and
    about to test its predicate again, or out of its critical section and about to notify. -/
inductive Place (χ : Type z) (ω : Type x) where
  | running
  | asleep (wait : ω)
  | woken (wait : ω)
  | notifying (c : χ)

/-- The call that a task waits in. -/
@[simp] def Place.waits {χ : Type z} {ω : Type x} : Place χ ω → Option ω
  | .asleep wait | .woken wait => some wait
  | .running | .notifying _ => none

/-- A monitor whose condition variables are spelled out: on which one a call waits,
    which one a return notifies behind its unlock (by the object it found and by its
    result), and which one it wakes as a whole while it still holds the lock. -/
structure Signalled (τ : Type u) (σ : Type v) (κ : Type w) (χ : Type z) (ω : Type x) (ρ : Type y)
    extends Monitor τ σ κ ω ρ where
  waitsOn : ω → χ
  notify_one : σ → ρ → Option χ
  notify_all : ρ → Option χ

namespace Signalled

variable {τ : Type u} {σ : Type v} {κ : Type w} {χ : Type z} {ω : Type x} {ρ : Type y}

structure State (τ : Type u) (σ : Type v) (χ : Type z) (ω : Type x) (ρ : Type y) where
  shared : σ
  place : τ → Place χ ω
  log : List (τ × ρ)

def State.initial (s : σ) : State τ σ χ ω ρ where
  shared := s
  place := fun _ => .running
  log := []

/-- A notification goes to `target`, or to nobody. A task may also wake without one. -/
inductive Event (τ : Type u) (κ : Type w) where
  | call (t : τ) (k : κ)
  | notify (t : τ) (target : Option τ)
  | wake (t : τ)
  | resume (t : τ)
  | timeout (t : τ)

section Places

variable (m : Signalled τ σ κ χ ω ρ) (c : χ)

def AsleepOn : Place χ ω → Prop
  | .asleep wait => m.waitsOn wait = c
  | _ => False

/-- The task is on its way to take from what `c` announces, or to announce it. -/
def UnderWay : Place χ ω → Prop
  | .woken wait => m.waitsOn wait = c
  | .notifying d => d = c
  | _ => False

theorem waits_returned (one : Option χ) : (one.elim (.running : Place χ ω) .notifying).waits = none := by
  cases one <;> rfl

theorem underWay_returned (one : Option χ) (c : χ) :
    m.UnderWay c (one.elim .running .notifying) ↔ one = some c := by
  cases one with
  | none => exact iff_of_false id nofun
  | some d => exact Option.some_inj.symm

variable [DecidableEq χ]

instance : DecidablePred (m.AsleepOn c)
  | .asleep wait => inferInstanceAs (Decidable (m.waitsOn wait = c))
  | .running | .woken _ | .notifying _ => .isFalse id

instance : DecidablePred (m.UnderWay c)
  | .woken wait => inferInstanceAs (Decidable (m.waitsOn wait = c))
  | .notifying d => inferInstanceAs (Decidable (d = c))
  | .running | .asleep _ => .isFalse id

end Places

variable [DecidableEq χ]

/-- A wake-up of all that sleep on a condition variable, if there is one. -/
def wakeAll (m : Signalled τ σ κ χ ω ρ) (all : Option χ) : Place χ ω → Place χ ω
  | .asleep wait => if all = some (m.waitsOn wait) then .woken wait else .asleep wait
  | place => place

section Places

variable {m : Signalled τ σ κ χ ω ρ}

theorem underWay_wakeAll {c : χ} {all : Option χ} (hall : all ≠ some c) (place : Place χ ω) :
    m.UnderWay c (m.wakeAll all place) ↔ m.UnderWay c place := by
  cases place with
  | asleep wait =>
    simp only [wakeAll]
    split
    case isTrue hwoken =>
      refine iff_of_false (fun hc : m.waitsOn wait = c => hall ?_) id
      rw [hwoken, hc]
    case isFalse => exact Iff.rfl
  | running => exact Iff.rfl
  | woken wait => exact Iff.rfl
  | notifying d => exact Iff.rfl

/-- Who still sleeps after everybody on a variable was woken sleeps on another one. -/
theorem wakeAll_eq_asleep {all : Option χ} {place : Place χ ω} {wait : ω}
    (hasleep : m.wakeAll all place = .asleep wait) :
    place = .asleep wait ∧ all ≠ some (m.waitsOn wait) := by
  cases place with
  | asleep old =>
    simp only [wakeAll] at hasleep
    split at hasleep
    case isTrue => cases hasleep
    case isFalse hall =>
      cases hasleep
      exact ⟨rfl, hall⟩
  | running => cases hasleep
  | woken old => cases hasleep
  | notifying d => cases hasleep

@[simp] theorem waits_wakeAll (all : Option χ) (place : Place χ ω) :
    (m.wakeAll all place).waits = place.waits := by
  cases place with
  | asleep wait =>
    simp only [wakeAll]
    split <;> rfl
  | running => rfl
  | woken wait => rfl
  | notifying d => rfl

end Places

variable [DecidableEq τ]

def State.moved (st : State τ σ χ ω ρ) (t : τ) (place : Place χ ω) : State τ σ χ ω ρ :=
  { st with place := Function.update st.place t place }

def returned (m : Signalled τ σ κ χ ω ρ) (st : State τ σ χ ω ρ) (t : τ) (s : σ) (r : ρ) :
    State τ σ χ ω ρ where
  shared := s
  place := Function.update (fun u => m.wakeAll (m.notify_all r) (st.place u)) t
    ((m.notify_one st.shared r).elim .running .notifying)
  log := st.log ++ [(t, r)]

section Places

variable (m : Signalled τ σ κ χ ω ρ) (st : State τ σ χ ω ρ) {t u : τ} (s : σ) (r : ρ)
  (place : Place χ ω)

omit [DecidableEq χ] in
@[simp] theorem moved_place_self : (st.moved t place).place t = place := by
  simp [State.moved]

omit [DecidableEq χ] in
@[simp] theorem moved_place_of_ne (hne : u ≠ t) : (st.moved t place).place u = st.place u := by
  simp [State.moved, hne]

omit [DecidableEq χ] in
@[simp] theorem moved_shared : (st.moved t place).shared = st.shared := rfl

@[simp] theorem returned_place_self :
    (m.returned st t s r).place t = (m.notify_one st.shared r).elim .running .notifying := by
  simp [returned]

@[simp] theorem returned_place_of_ne (hne : u ≠ t) :
    (m.returned st t s r).place u = m.wakeAll (m.notify_all r) (st.place u) := by
  simp [returned, hne]

@[simp] theorem returned_shared : (m.returned st t s r).shared = s := rfl

end Places

variable [Fintype τ]

def step (m : Signalled τ σ κ χ ω ρ) (st : State τ σ χ ω ρ) : Event τ κ → Option (State τ σ χ ω ρ)
  | .call t k =>
    match st.place t with
    | .running =>
      match m.enter t k st.shared with
      | .returns s r => some (m.returned st t s r)
      | .blocks wait => some (st.moved t (.asleep wait))
    | _ => none
  | .notify t target =>
    match st.place t with
    | .notifying c =>
      match target with
      | some u =>
        match st.place u with
        | .asleep wait =>
          if m.waitsOn wait = c then some ((st.moved t .running).moved u (.woken wait)) else none
        | _ => none
      | none => if ∀ u, ¬m.AsleepOn c (st.place u) then some (st.moved t .running) else none
    | _ => none
  | .wake t =>
    match st.place t with
    | .asleep wait => some (st.moved t (.woken wait))
    | _ => none
  | .resume t =>
    match st.place t with
    | .woken wait =>
      match m.resume t wait st.shared with
      | some (s, r) => some (m.returned st t s r)
      | none => some (st.moved t (.asleep wait))
    | _ => none
  | .timeout t =>
    match st.place t with
    | .asleep wait | .woken wait =>
      (m.expire wait).map fun expired =>
        match m.resume t wait st.shared with
        | some (s, r) => m.returned st t s r
        | none => m.returned st t st.shared expired
    | _ => none

def machine (m : Signalled τ σ κ χ ω ρ) : EventMachine (State τ σ χ ω ρ) (Event τ κ) where
  step := m.step

/-- All that an event can have done. -/
inductive Moves (m : Signalled τ σ κ χ ω ρ) (st : State τ σ χ ω ρ) :
    Event τ κ → State τ σ χ ω ρ → Prop
  | entered {t : τ} {k : κ} {s : σ} {r : ρ} (hplace : st.place t = .running)
      (henter : m.enter t k st.shared = .returns s r) : Moves m st (.call t k) (m.returned st t s r)
  | blocked {t : τ} {k : κ} {wait : ω} (hplace : st.place t = .running)
      (henter : m.enter t k st.shared = .blocks wait) :
      Moves m st (.call t k) (st.moved t (.asleep wait))
  | notified {t u : τ} {wait : ω} (hplace : st.place t = .notifying (m.waitsOn wait))
      (htarget : st.place u = .asleep wait) :
      Moves m st (.notify t (some u)) ((st.moved t .running).moved u (.woken wait))
  | unheard {t : τ} {c : χ} (hplace : st.place t = .notifying c)
      (hnobody : ∀ u, ¬m.AsleepOn c (st.place u)) : Moves m st (.notify t none) (st.moved t .running)
  | woke {t : τ} {wait : ω} (hplace : st.place t = .asleep wait) :
      Moves m st (.wake t) (st.moved t (.woken wait))
  | resumed {t : τ} {wait : ω} {s : σ} {r : ρ} (hplace : st.place t = .woken wait)
      (hresume : m.resume t wait st.shared = some (s, r)) :
      Moves m st (.resume t) (m.returned st t s r)
  | slept {t : τ} {wait : ω} (hplace : st.place t = .woken wait)
      (hresume : m.resume t wait st.shared = none) :
      Moves m st (.resume t) (st.moved t (.asleep wait))
  | served {t : τ} {wait : ω} {s : σ} {r : ρ}
      (hplace : st.place t = .asleep wait ∨ st.place t = .woken wait)
      (hexpire : (m.expire wait).isSome = true)
      (hresume : m.resume t wait st.shared = some (s, r)) :
      Moves m st (.timeout t) (m.returned st t s r)
  | expired {t : τ} {wait : ω} {r : ρ}
      (hplace : st.place t = .asleep wait ∨ st.place t = .woken wait)
      (hexpire : m.expire wait = some r) (hresume : m.resume t wait st.shared = none) :
      Moves m st (.timeout t) (m.returned st t st.shared r)

variable {m : Signalled τ σ κ χ ω ρ} {st st' : State τ σ χ ω ρ} {e : Event τ κ}

omit [Fintype τ] in
theorem moves_timeout {t : τ} {wait : ω}
    (hplace : st.place t = .asleep wait ∨ st.place t = .woken wait)
    (hstep : (m.expire wait).map (fun expired =>
      match m.resume t wait st.shared with
      | some (s, r) => m.returned st t s r
      | none => m.returned st t st.shared expired) = some st') : m.Moves st (.timeout t) st' := by
  obtain ⟨r, hexpire, rfl⟩ := Option.map_eq_some_iff.mp hstep
  split
  case h_1 s' r' hresume => exact .served hplace (by rw [hexpire]; rfl) hresume
  case h_2 hresume => exact .expired hplace hexpire hresume

theorem step_moves (hstep : m.step st e = some st') : m.Moves st e st' := by
  cases e with
  | call t k =>
    simp only [step] at hstep
    split at hstep
    case h_1 hplace =>
      split at hstep
      case h_1 henter =>
        cases hstep
        exact .entered hplace henter
      case h_2 henter =>
        cases hstep
        exact .blocked hplace henter
    case h_2 => cases hstep
  | notify t target =>
    simp only [step] at hstep
    split at hstep
    case h_1 c hplace =>
      cases target with
      | some u =>
        simp only at hstep
        split at hstep
        case h_1 wait htarget =>
          split at hstep
          case isTrue hwait =>
            cases hstep
            subst hwait
            exact .notified hplace htarget
          case isFalse => cases hstep
        case h_2 => cases hstep
      | none =>
        simp only at hstep
        split at hstep
        case isTrue hnobody =>
          cases hstep
          exact .unheard hplace hnobody
        case isFalse => cases hstep
    case h_2 => cases hstep
  | wake t =>
    simp only [step] at hstep
    split at hstep
    case h_1 wait hplace =>
      cases hstep
      exact .woke hplace
    case h_2 => cases hstep
  | resume t =>
    simp only [step] at hstep
    split at hstep
    case h_1 wait hplace =>
      split at hstep
      case h_1 hresume =>
        cases hstep
        exact .resumed hplace hresume
      case h_2 hresume =>
        cases hstep
        exact .slept hplace hresume
    case h_2 => cases hstep
  | timeout t =>
    simp only [step] at hstep
    split at hstep
    case h_1 wait hplace => exact moves_timeout (.inl hplace) hstep
    case h_2 wait hplace => exact moves_timeout (.inr hplace) hstep
    case h_3 => cases hstep

theorem step_of_moves (hmoves : m.Moves st e st') : m.step st e = some st' := by
  cases hmoves with
  | entered hplace henter => simp only [step, hplace, henter]
  | blocked hplace henter => simp only [step, hplace, henter]
  | notified hplace htarget => simp only [step, hplace, htarget, if_true]
  | unheard hplace hnobody =>
    simp only [step, hplace]
    exact if_pos hnobody
  | woke hplace => simp only [step, hplace]
  | resumed hplace hresume => simp only [step, hplace, hresume]
  | slept hplace hresume => simp only [step, hplace, hresume]
  | served hplace hexpire hresume =>
    obtain ⟨r, hexpired⟩ := Option.isSome_iff_exists.mp hexpire
    obtain hasleep | hwoken := hplace
    · simp only [step, hasleep, hexpired, hresume, Option.map_some]
    · simp only [step, hwoken, hexpired, hresume, Option.map_some]
  | expired hplace hexpire hresume =>
    obtain hasleep | hwoken := hplace
    · simp only [step, hasleep, hexpire, hresume, Option.map_some]
    · simp only [step, hwoken, hexpire, hresume, Option.map_some]

/-! ### The monitor below -/

/-- What the monitor without condition variables knows of a state. -/
def State.toMonitor (st : State τ σ χ ω ρ) : Monitor.State τ σ ω ρ where
  shared := st.shared
  waiting t := (st.place t).waits
  log := st.log

/-- The event of that monitor that an event is. -/
def Event.lower : Event τ κ → Option (Monitor.Event τ κ)
  | .call t k => some (.call t k)
  | .resume t => some (.wake t)
  | .timeout t => some (.timeout t)
  | .notify _ _ | .wake _ => none

omit [DecidableEq χ] [Fintype τ] in
theorem waits_update (place : τ → Place χ ω) (t : τ) (new : Place χ ω) :
    (fun u => (Function.update place t new u).waits) =
      Function.update (fun u => (place u).waits) t new.waits := by
  funext u
  exact Function.apply_update (fun _ => Place.waits) place t new u

omit [DecidableEq χ] [Fintype τ] in
theorem toMonitor_moved (st : State τ σ χ ω ρ) (t : τ) (new : Place χ ω) :
    (st.moved t new).toMonitor =
      { st.toMonitor with waiting := Function.update st.toMonitor.waiting t new.waits } := by
  simp only [State.toMonitor, State.moved, waits_update]

omit [Fintype τ] in
theorem toMonitor_returned (st : State τ σ χ ω ρ) (t : τ) (s : σ) (r : ρ) :
    (m.returned st t s r).toMonitor = st.toMonitor.returned t s r := by
  simp only [State.toMonitor, returned, Monitor.State.returned, waits_update, waits_wakeAll, waits_returned]

omit [DecidableEq χ] [Fintype τ] in
theorem toMonitor_moved_self {t : τ} {new : Place χ ω} (hsame : new.waits = (st.place t).waits) :
    (st.moved t new).toMonitor = st.toMonitor := by
  have hwaiting : Function.update st.toMonitor.waiting t (st.place t).waits = st.toMonitor.waiting :=
    Function.update_eq_self t _
  rw [toMonitor_moved, hsame, hwaiting]

/-- The monitor with condition variables refines the one without: its events are events of
    that one, or do not show there. -/
theorem step_toMonitor (hstep : m.step st e = some st') :
    match e.lower with
    | some e' => m.toMonitor.step st.toMonitor e' = some st'.toMonitor
    | none => st'.toMonitor = st.toMonitor := by
  cases step_moves hstep with
  | @entered t k s r hplace henter =>
    have hidle : st.toMonitor.waiting t = none := by simp [State.toMonitor, hplace]
    simp only [Event.lower, toMonitor_returned]
    exact Monitor.step_call_returns hidle henter
  | @blocked t k wait hplace henter =>
    have hidle : st.toMonitor.waiting t = none := by simp [State.toMonitor, hplace]
    have henter' : m.enter t k st.toMonitor.shared = .blocks wait := henter
    simp only [Event.lower, Monitor.step, hidle, henter', toMonitor_moved]
    rfl
  | @notified t u wait hplace htarget =>
    have hne : u ≠ t := by
      rintro rfl
      rw [htarget] at hplace
      cases hplace
    have hleft : (st.moved t .running).toMonitor = st.toMonitor :=
      toMonitor_moved_self (by rw [hplace]; rfl)
    rw [← hleft]
    exact toMonitor_moved_self (by rw [moved_place_of_ne _ _ hne, htarget]; rfl)
  | unheard hplace hnobody => exact toMonitor_moved_self (by rw [hplace]; rfl)
  | woke hplace => exact toMonitor_moved_self (by rw [hplace]; rfl)
  | @resumed t wait s r hplace hresume =>
    have hwaiting : st.toMonitor.waiting t = some wait := by simp [State.toMonitor, hplace]
    have hresume' : m.resume t wait st.toMonitor.shared = some (s, r) := hresume
    simp only [Event.lower, Monitor.step, hwaiting, Option.bind_some, hresume', toMonitor_returned]
  | @slept t wait hplace hresume =>
    have hwaiting : st.toMonitor.waiting t = some wait := by simp [State.toMonitor, hplace]
    have hresume' : m.resume t wait st.toMonitor.shared = none := hresume
    simp only [Event.lower, Monitor.step, hwaiting, Option.bind_some, hresume']
    rw [toMonitor_moved_self (by rw [hplace]; rfl)]
  | @served t wait s r hplace hexpire hresume =>
    have hwaiting : st.toMonitor.waiting t = some wait := by
      obtain hasleep | hwoken := hplace
      · simp [State.toMonitor, hasleep]
      · simp [State.toMonitor, hwoken]
    have hresume' : m.resume t wait st.toMonitor.shared = some (s, r) := hresume
    obtain ⟨expired, hexpired⟩ := Option.isSome_iff_exists.mp hexpire
    simp only [Event.lower, Monitor.step, hwaiting, Option.bind_some, hexpired, hresume', toMonitor_returned]
  | @expired t wait r hplace hexpire hresume =>
    have hwaiting : st.toMonitor.waiting t = some wait := by
      obtain hasleep | hwoken := hplace
      · simp [State.toMonitor, hasleep]
      · simp [State.toMonitor, hwoken]
    have hresume' : m.resume t wait st.toMonitor.shared = none := hresume
    simp only [Event.lower, Monitor.step, hwaiting, Option.bind_some, hexpire, hresume', toMonitor_returned]
    rfl

theorem run_toMonitor {es : List (Event τ κ)} (hrun : m.machine.run st es = some st') :
    m.toMonitor.machine.run st.toMonitor (es.filterMap Event.lower) = some st'.toMonitor := by
  induction es generalizing st with
  | nil =>
    cases hrun
    rfl
  | cons e es ih =>
    obtain ⟨st₁, hstep, hrest⟩ := EventMachine.run_cons_eq_some.mp hrun
    have hlower := step_toMonitor hstep
    cases he : e.lower with
    | none =>
      rw [he] at hlower
      rw [List.filterMap_cons_none he, ← hlower]
      exact ih hrest
    | some e' =>
      rw [he] at hlower
      rw [List.filterMap_cons_some he]
      exact EventMachine.run_cons_eq_some.mpr ⟨_, hlower, ih hrest⟩

end Signalled

end Lib
