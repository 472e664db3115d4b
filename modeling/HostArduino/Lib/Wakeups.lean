import HostArduino.Lib.Signalled
import Mathlib.Algebra.BigOperators.Group.Finset.Basic
import Mathlib.Algebra.Order.BigOperators.Group.Finset

namespace Lib

universe u v w x y z

section Tally

variable {ι : Type u} {α : Type v} [Fintype ι]

/-- How many of the `ι` are in a place of the kind. -/
def tally (P : α → Prop) [DecidablePred P] (place : ι → α) : Nat :=
  ∑ i, if P (place i) then 1 else 0

/-- A sum over all places changes by what one move changes. -/
theorem sum_update [DecidableEq ι] (f : α → Nat) (place : ι → α) (i : ι) (new : α) :
    ∑ j, f (Function.update place i new j) + f (place i) = ∑ j, f (place j) + f new := by
  have hothers : ∑ j ∈ Finset.univ.erase i, f (Function.update place i new j) =
      ∑ j ∈ Finset.univ.erase i, f (place j) := by
    refine Finset.sum_congr rfl fun j hj => ?_
    rw [Function.update_of_ne (Finset.ne_of_mem_erase hj)]
  rw [← Finset.add_sum_erase _ _ (Finset.mem_univ i), hothers, Function.update_self,
    ← Finset.add_sum_erase _ (fun j => f (place j)) (Finset.mem_univ i)]
  omega

variable {P : α → Prop} [DecidablePred P] {place place' : ι → α}

theorem tally_update [DecidableEq ι] (place : ι → α) (i : ι) (new : α) :
    tally P (Function.update place i new) + (if P (place i) then 1 else 0) =
      tally P place + if P new then 1 else 0 :=
  sum_update (fun a => if P a then 1 else 0) place i new

theorem exists_of_tally_pos (hpos : 0 < tally P place) : ∃ i, P (place i) := by
  obtain ⟨i, -, hne⟩ := Finset.exists_ne_zero_of_sum_ne_zero hpos.ne'
  by_contra hnone
  exact hne (if_neg fun hP => hnone ⟨i, hP⟩)

/-- Moves that leave everyone of the kind in the kind do not lower the tally. -/
theorem tally_mono (hkeep : ∀ i, P (place i) → P (place' i)) : tally P place ≤ tally P place' := by
  refine Finset.sum_le_sum fun i _ => ?_
  by_cases hP : P (place i)
  · rw [if_pos hP, if_pos (hkeep i hP)]
  · rw [if_neg hP]
    exact Nat.zero_le _

end Tally

namespace Signalled

variable {τ : Type u} {σ : Type v} {κ : Type w} {χ : Type z} {ω : Type x} {ρ : Type y}
  [DecidableEq χ] [DecidableEq τ] [Fintype τ]
  {m : Signalled τ σ κ χ ω ρ} {st st' : State τ σ χ ω ρ} {e : Event τ κ}

/-- How much a condition variable announces: `units c s` of what the calls that wait on
    `c` take from the object `s`, the calls in `Takes` really taking it. What a return
    adds to it by one it notifies, what it adds by more it wakes everybody for. -/
structure Discipline (m : Signalled τ σ κ χ ω ρ) (units : χ → σ → Nat) (Takes : ω → Prop) : Prop where
  enter_returns : ∀ {t k s s' r}, m.enter t k s = .returns s' r → ∀ c, m.notify_all r = some c ∨
    units c s' ≤ units c s + if m.notify_one s r = some c then 1 else 0
  enter_blocks : ∀ {t k s wait}, m.enter t k s = .blocks wait → units (m.waitsOn wait) s = 0
  resume_some : ∀ {t wait s s' r}, Takes wait → m.resume t wait s = some (s', r) →
    m.notify_all r = none ∧ 0 < units (m.waitsOn wait) s ∧ ∀ c,
      units c s' + (if m.waitsOn wait = c then 1 else 0) ≤
        units c s + if m.notify_one s r = some c then 1 else 0
  resume_none : ∀ {t wait s}, m.resume t wait s = none → units (m.waitsOn wait) s = 0
  expire : ∀ {wait s r}, m.expire wait = some r → m.notify_one s r = none ∧ m.notify_all r = none

/-- Only calls that take go to wait. -/
def WaitsToTake (m : Signalled τ σ κ χ ω ρ) (Takes : ω → Prop) (st : State τ σ χ ω ρ) :
    Event τ κ → Prop
  | .call t k => ∀ wait, m.enter t k st.shared = .blocks wait → Takes wait
  | _ => True

/-- Where somebody sleeps, all that is there to take is matched by tasks under way. -/
structure Attended (m : Signalled τ σ κ χ ω ρ) (units : χ → σ → Nat) (Takes : ω → Prop)
    (st : State τ σ χ ω ρ) : Prop where
  takes : ∀ t wait, (st.place t).waits = some wait → Takes wait
  attended : ∀ t wait, st.place t = .asleep wait →
    units (m.waitsOn wait) st.shared ≤ tally (m.UnderWay (m.waitsOn wait)) st.place

variable {units : χ → σ → Nat} {Takes : ω → Prop}

omit [Fintype τ] in
/-- Whoever waits after a return waited before it, in the same call. -/
theorem returned_waits {t u : τ} {s : σ} {r : ρ} {wait : ω}
    (hwaits : ((m.returned st t s r).place u).waits = some wait) :
    u ≠ t ∧ (st.place u).waits = some wait := by
  have hne : u ≠ t := by
    rintro rfl
    rw [returned_place_self, waits_returned] at hwaits
    cases hwaits
  rw [returned_place_of_ne _ _ _ _ hne, waits_wakeAll] at hwaits
  exact ⟨hne, hwaits⟩

/-- A return keeps the invariant when it adds no more than it announces, its own task
    being no longer under way. -/
theorem Attended.returned (h : m.Attended units Takes st) {t : τ} {s : σ} {r : ρ}
    (hunits : ∀ c, m.notify_all r = some c ∨ units c s = 0 ∨
      units c s + (if m.UnderWay c (st.place t) then 1 else 0) ≤
        units c st.shared + if m.notify_one st.shared r = some c then 1 else 0) :
    m.Attended units Takes (m.returned st t s r) := by
  refine ⟨fun u wait hwait => h.takes u wait (returned_waits hwait).2, fun u wait hasleep => ?_⟩
  have hwaits : ((m.returned st t s r).place u).waits = some wait := by
    rw [hasleep]
    rfl
  have hne : u ≠ t := (returned_waits hwaits).1
  rw [returned_place_of_ne _ _ _ _ hne] at hasleep
  obtain ⟨hasleep, hall⟩ := wakeAll_eq_asleep hasleep
  have hbefore := h.attended u wait hasleep
  have hmoved := tally_update (P := m.UnderWay (m.waitsOn wait))
    (fun v => m.wakeAll (m.notify_all r) (st.place v)) t
    ((m.notify_one st.shared r).elim .running .notifying)
  simp only [underWay_wakeAll hall, underWay_returned] at hmoved
  have hkept : tally (m.UnderWay (m.waitsOn wait)) st.place ≤
      tally (m.UnderWay (m.waitsOn wait)) fun v => m.wakeAll (m.notify_all r) (st.place v) :=
    tally_mono fun v => (underWay_wakeAll hall _).mpr
  change units _ s ≤ tally _ (Function.update _ _ _)
  obtain heverybody | hzero | hle := hunits (m.waitsOn wait)
  · exact absurd heverybody hall
  · omega
  · omega

/-- A move keeps the invariant when its task goes to sleep in front of nothing, and was
    not the one that somebody waits for. -/
theorem Attended.moved (h : m.Attended units Takes st) {t : τ} {new : Place χ ω}
    (htakes : ∀ wait, new.waits = some wait → Takes wait)
    (hsleep : ∀ wait, new = .asleep wait → units (m.waitsOn wait) st.shared = 0)
    (hcount : ∀ u wait, st.place u = .asleep wait → units (m.waitsOn wait) st.shared = 0 ∨
      (m.UnderWay (m.waitsOn wait) (st.place t) → m.UnderWay (m.waitsOn wait) new)) :
    m.Attended units Takes (st.moved t new) := by
  refine ⟨fun u wait hwait => ?_, fun u wait hasleep => ?_⟩
  · by_cases hut : u = t
    · subst hut
      rw [moved_place_self] at hwait
      exact htakes wait hwait
    · rw [moved_place_of_ne _ _ hut] at hwait
      exact h.takes u wait hwait
  · rw [moved_shared]
    by_cases hut : u = t
    · subst hut
      rw [moved_place_self] at hasleep
      rw [hsleep wait hasleep]
      exact Nat.zero_le _
    · rw [moved_place_of_ne _ _ hut] at hasleep
      obtain hzero | hkeep := hcount u wait hasleep
      · rw [hzero]
        exact Nat.zero_le _
      · refine (h.attended u wait hasleep).trans (tally_mono fun v hv => ?_)
        by_cases hvt : v = t
        · subst hvt
          rw [moved_place_self]
          exact hkeep hv
        · rwa [moved_place_of_ne _ _ hvt]

/-- A notification that reaches a sleeper leaves as many tasks under way as before. -/
theorem Attended.notified (h : m.Attended units Takes st) {t u : τ} {wait : ω}
    (hplace : st.place t = .notifying (m.waitsOn wait)) (htarget : st.place u = .asleep wait) :
    m.Attended units Takes ((st.moved t .running).moved u (.woken wait)) := by
  have hne : u ≠ t := by
    rintro rfl
    rw [htarget] at hplace
    cases hplace
  have hother : ∀ v wait', ((st.moved t .running).moved u (.woken wait)).place v = .asleep wait' →
      st.place v = .asleep wait' := by
    intro v wait' hasleep
    have hvu : v ≠ u := by
      rintro rfl
      rw [moved_place_self] at hasleep
      cases hasleep
    rw [moved_place_of_ne _ _ hvu] at hasleep
    have hvt : v ≠ t := by
      rintro rfl
      rw [moved_place_self] at hasleep
      cases hasleep
    rwa [moved_place_of_ne _ _ hvt] at hasleep
  refine ⟨fun v wait' hwait => ?_, fun v wait' hasleep => ?_⟩
  · by_cases hvu : v = u
    · subst hvu
      rw [moved_place_self] at hwait
      exact h.takes v wait' (by rw [htarget]; exact hwait)
    · rw [moved_place_of_ne _ _ hvu] at hwait
      by_cases hvt : v = t
      · subst hvt
        rw [moved_place_self] at hwait
        cases hwait
      · rw [moved_place_of_ne _ _ hvt] at hwait
        exact h.takes v wait' hwait
  · have hbefore := h.attended v wait' (hother v wait' hasleep)
    have hleft := tally_update (P := m.UnderWay (m.waitsOn wait')) st.place t .running
    have hwoken := tally_update (P := m.UnderWay (m.waitsOn wait')) (st.moved t .running).place u
      (.woken wait)
    rw [moved_place_of_ne _ _ hne, htarget] at hwoken
    rw [hplace] at hleft
    have hnotifying : (if m.UnderWay (m.waitsOn wait') (.notifying (m.waitsOn wait)) then 1 else 0) =
        if m.UnderWay (m.waitsOn wait') (.woken wait) then 1 else 0 := rfl
    have hrunning : (if m.UnderWay (m.waitsOn wait') .running then 1 else 0) = 0 := if_neg id
    have hasleep : (if m.UnderWay (m.waitsOn wait') (.asleep wait) then 1 else 0) = 0 := if_neg id
    change units _ st.shared ≤ tally _ (Function.update (st.moved t .running).place _ _)
    change tally _ (st.moved t .running).place + _ = _ at hleft
    omega

theorem Attended.step (hm : m.Discipline units Takes) (h : m.Attended units Takes st)
    (hguard : m.WaitsToTake Takes st e) (hstep : m.step st e = some st') :
    m.Attended units Takes st' := by
  cases step_moves hstep with
  | entered hplace henter =>
    refine h.returned fun c => ?_
    rw [hplace, if_neg (show ¬m.UnderWay c .running from id)]
    obtain hall | hle := hm.enter_returns henter c
    · exact .inl hall
    · exact .inr (.inr hle)
  | blocked hplace henter =>
    refine h.moved ?_ ?_ ?_
    · intro wait hwait
      exact hguard wait (by rw [henter, Option.some.inj hwait])
    · intro wait hwait
      cases hwait
      exact hm.enter_blocks henter
    · intro u wait hasleep
      rw [hplace]
      exact .inr False.elim
  | notified hplace htarget => exact h.notified hplace htarget
  | unheard hplace hnobody =>
    refine h.moved (fun wait hwait => by cases hwait) (fun wait hwait => by cases hwait) ?_
    intro u wait hasleep
    refine .inr fun hunder => ?_
    rw [hplace] at hunder
    exact absurd (by rw [hasleep]; exact hunder.symm) (hnobody u)
  | woke hplace =>
    refine h.moved ?_ (fun wait hwait => by cases hwait) ?_
    · intro wait hwait
      exact h.takes _ wait (by rw [hplace]; exact hwait)
    · intro u wait hasleep
      rw [hplace]
      exact .inr False.elim
  | resumed hplace hresume =>
    obtain ⟨-, -, hunits⟩ := hm.resume_some (h.takes _ _ (by rw [hplace]; rfl)) hresume
    refine h.returned fun c => .inr (.inr ?_)
    rw [hplace]
    exact hunits c
  | @slept t wait hplace hresume =>
    have hzero := hm.resume_none hresume
    refine h.moved ?_ ?_ ?_
    · intro wait' hwait
      exact h.takes _ wait' (by rw [hplace]; exact hwait)
    · intro wait' hwait
      cases hwait
      exact hzero
    · intro u wait' hasleep
      by_cases hsame : m.waitsOn wait = m.waitsOn wait'
      · exact .inl (hsame ▸ hzero)
      · refine .inr fun hunder => absurd ?_ hsame
        rw [hplace] at hunder
        exact hunder
  | @served t wait s r hplace hexpire hresume =>
    have htakes : Takes wait := by
      obtain hasleep | hwoken := hplace
      · exact h.takes t wait (by rw [hasleep]; rfl)
      · exact h.takes t wait (by rw [hwoken]; rfl)
    obtain ⟨-, -, hunits⟩ := hm.resume_some htakes hresume
    refine h.returned fun c => .inr (.inr ?_)
    have hle := hunits c
    obtain hasleep | hwoken := hplace
    · rw [hasleep, if_neg (show ¬m.UnderWay c (.asleep wait) from id)]
      omega
    · rw [hwoken]
      exact hle
  | @expired t wait r hplace hexpire hresume =>
    have hzero := hm.resume_none hresume
    refine h.returned fun c => ?_
    by_cases hsame : m.waitsOn wait = c
    · exact .inr (.inl (hsame ▸ hzero))
    · have hnot : ¬m.UnderWay c (st.place t) := by
        obtain hasleep | hwoken := hplace
        · rw [hasleep]
          exact id
        · rw [hwoken]
          exact hsame
      rw [if_neg hnot]
      exact .inr (.inr (Nat.le_add_right _ _))

/-- In every run in which only calls that take go to wait, the sleepers are attended. -/
theorem visited_attended (hm : m.Discipline units Takes) {s : σ} {es : List (Event τ κ)}
    (hmeets : m.machine.Meets (m.WaitsToTake Takes) (.initial s) es) :
    ∀ st ∈ m.machine.visited (.initial s) es, m.Attended units Takes st := by
  refine EventMachine.visited_of_meets (fun _ _ _ h hguard hstep => h.step hm hguard hstep) ?_ hmeets
  refine ⟨fun t wait hwait => ?_, fun t wait hasleep => ?_⟩
  · cases hwait
  · cases hasleep

/-- Nobody is on the way: every task is outside of the calls or asleep. -/
def State.Quiet (st : State τ σ χ ω ρ) : Prop :=
  ∀ t, st.place t = .running ∨ ∃ wait, st.place t = .asleep wait

omit [DecidableEq τ] in
/-- Where nobody is on the way, a call that sleeps has nothing to take. -/
theorem Attended.units_eq_zero (h : m.Attended units Takes st) (hquiet : st.Quiet) {t : τ} {wait : ω}
    (hasleep : st.place t = .asleep wait) : units (m.waitsOn wait) st.shared = 0 := by
  refine Nat.eq_zero_of_le_zero ((h.attended t wait hasleep).trans (Nat.le_of_not_lt fun hpos => ?_))
  obtain ⟨u, hunder⟩ := exists_of_tally_pos hpos
  obtain hrunning | ⟨wait', hasleep'⟩ := hquiet u
  · rw [hrunning] at hunder
    exact hunder
  · rw [hasleep'] at hunder
    exact hunder

/-- The steps that tasks under way take on their own. -/
def Event.Settles : Event τ κ → Prop
  | .notify _ _ | .resume _ => True
  | _ => False

/-- As long as somebody is on the way, one of these steps can be taken. -/
theorem exists_settles (hnot : ¬st.Quiet) :
    ∃ e : Event τ κ, e.Settles ∧ (m.step st e).isSome = true := by
  obtain ⟨t, ht⟩ := not_forall.mp hnot
  cases hplace : st.place t with
  | running => exact absurd (.inl hplace) ht
  | asleep wait => exact absurd (.inr ⟨wait, hplace⟩) ht
  | woken wait =>
    refine ⟨.resume t, trivial, ?_⟩
    simp only [step, hplace]
    split <;> rfl
  | notifying c =>
    by_cases hnobody : ∀ u, ¬m.AsleepOn c (st.place u)
    · refine ⟨.notify t none, trivial, ?_⟩
      simp only [step, hplace, if_pos hnobody]
      rfl
    · obtain ⟨u, hu⟩ := not_forall.mp hnobody
      cases htarget : st.place u with
      | asleep wait =>
        rw [htarget, not_not] at hu
        refine ⟨.notify t (some u), trivial, ?_⟩
        simp only [step, hplace, htarget, if_pos (show m.waitsOn wait = c from hu)]
        rfl
      | running => exact absurd (by rw [htarget]; exact id) hu
      | woken wait => exact absurd (by rw [htarget]; exact id) hu
      | notifying d => exact absurd (by rw [htarget]; exact id) hu

/-- What a task may still do before it is asleep for good or out of its call. -/
def effort : Place χ ω → Nat
  | .running => 0
  | .notifying _ => 2
  | .asleep _ => 3
  | .woken _ => 4

theorem step_effort (hm : m.Discipline units Takes) (h : m.Attended units Takes st) (hsettles : e.Settles)
    (hstep : m.step st e = some st') : ∑ t, effort (st'.place t) < ∑ t, effort (st.place t) := by
  cases step_moves hstep with
  | @notified t u wait hplace htarget =>
    have hne : u ≠ t := by
      rintro rfl
      rw [htarget] at hplace
      cases hplace
    have hleft := sum_update effort st.place t .running
    have hwoken := sum_update effort (st.moved t .running).place u (.woken wait)
    rw [moved_place_of_ne _ _ hne, htarget] at hwoken
    rw [hplace] at hleft
    change ∑ v, effort (Function.update (st.moved t .running).place u (.woken wait) v) < _
    change ∑ v, effort ((st.moved t .running).place v) + _ = _ at hleft
    simp only [effort] at hleft hwoken ⊢
    omega
  | @unheard t c hplace hnobody =>
    have hleft := sum_update effort st.place t .running
    rw [hplace] at hleft
    change ∑ v, effort (Function.update st.place t .running v) < _
    simp only [effort] at hleft ⊢
    omega
  | @resumed t wait s r hplace hresume =>
    obtain ⟨hall, -, -⟩ := hm.resume_some (h.takes t wait (by rw [hplace]; rfl)) hresume
    have hleft := sum_update effort st.place t ((m.notify_one st.shared r).elim .running .notifying)
    have hnew : effort ((m.notify_one st.shared r).elim (.running : Place χ ω) .notifying) ≤ 2 := by
      cases m.notify_one st.shared r with
      | none => exact Nat.zero_le 2
      | some c => exact Nat.le_refl 2
    have hsame : (fun v => m.wakeAll (m.notify_all r) (st.place v)) = st.place := by
      funext v
      rw [hall]
      cases st.place v <;> rfl
    rw [hplace] at hleft
    change ∑ v, effort (Function.update (fun w => m.wakeAll (m.notify_all r) (st.place w)) t _ v) < _
    rw [hsame]
    have hfour : effort (.woken wait : Place χ ω) = 4 := rfl
    omega
  | @slept t wait hplace hresume =>
    have hleft := sum_update effort st.place t (.asleep wait)
    rw [hplace] at hleft
    change ∑ v, effort (Function.update st.place t (.asleep wait) v) < _
    simp only [effort] at hleft ⊢
    omega
  | entered => cases hsettles
  | blocked => cases hsettles
  | woke => cases hsettles
  | served => cases hsettles
  | expired => cases hsettles

omit [DecidableEq χ] [DecidableEq τ] [Fintype τ] in
theorem waitsToTake_of_forall (htakes : ∀ wait, Takes wait) : m.WaitsToTake Takes st e := by
  cases e with
  | call t k => exact fun wait _ => htakes wait
  | notify t target => trivial
  | wake t => trivial
  | resume t => trivial
  | timeout t => trivial

omit [DecidableEq χ] [DecidableEq τ] [Fintype τ] in
theorem waitsToTake_of_settles (hsettles : e.Settles) : m.WaitsToTake Takes st e := by
  cases e with
  | call t k => cases hsettles
  | notify t target => trivial
  | wake t => trivial
  | resume t => trivial
  | timeout t => trivial

/-- Tasks left to themselves take few steps, and the sleepers stay attended. -/
theorem run_settles (hm : m.Discipline units Takes) (h : m.Attended units Takes st)
    {es : List (Event τ κ)} (hsettles : ∀ e ∈ es, e.Settles) (hrun : m.machine.run st es = some st') :
    m.Attended units Takes st' ∧
      es.length + ∑ t, effort (st'.place t) ≤ ∑ t, effort (st.place t) := by
  induction es generalizing st with
  | nil =>
    cases hrun
    exact ⟨h, by simp⟩
  | cons e es ih =>
    obtain ⟨st₁, hstep, hrest⟩ := EventMachine.run_cons_eq_some.mp hrun
    have he : e.Settles := hsettles e List.mem_cons_self
    have hless := step_effort hm h he hstep
    obtain ⟨hattended, hlength⟩ := ih (h.step hm (waitsToTake_of_settles he) hstep)
      (fun f hf => hsettles f (List.mem_cons_of_mem _ hf)) hrest
    refine ⟨hattended, ?_⟩
    rw [List.length_cons]
    omega

omit [DecidableEq χ] [DecidableEq τ] in
theorem sum_effort_le (st : State τ σ χ ω ρ) : ∑ t, effort (st.place t) ≤ 4 * Fintype.card τ := by
  have hle : ∀ t ∈ Finset.univ, effort (st.place t) ≤ 4 := by
    intro t _
    cases st.place t <;> simp [effort]
  simpa [Nat.mul_comm] using Finset.sum_le_card_nsmul Finset.univ (fun t => effort (st.place t)) 4 hle

omit [Fintype τ] in
/-- Whoever waits after a move waited before it, or has gone to wait with it. -/
theorem waits_of_moves {t : τ} {wait : ω} (hmoves : m.Moves st e st')
    (hwaits : (st'.place t).waits = some wait) :
    (st.place t).waits = some wait ∨ ∃ k, m.enter t k st.shared = .blocks wait := by
  have hmoved : ∀ {st : State τ σ χ ω ρ} {u : τ} {new : Place χ ω}, ((st.moved u new).place t).waits = some wait →
      new.waits = (st.place u).waits ∨ new.waits = none → (st.place t).waits = some wait := by
    intro st u new hnew hkept
    by_cases htu : t = u
    · subst htu
      rw [moved_place_self] at hnew
      obtain hsame | hnone := hkept
      · rwa [← hsame]
      · rw [hnone] at hnew
        cases hnew
    · rwa [moved_place_of_ne _ _ htu] at hnew
  cases hmoves with
  | entered => exact .inl (returned_waits hwaits).2
  | @blocked u k wait' hplace henter =>
    by_cases htu : t = u
    · subst htu
      rw [moved_place_self] at hwaits
      cases hwaits
      exact .inr ⟨k, henter⟩
    · rw [moved_place_of_ne _ _ htu] at hwaits
      exact .inl hwaits
  | @notified v u wait' hplace htarget =>
    have hne : u ≠ v := by
      rintro rfl
      rw [htarget] at hplace
      cases hplace
    have hbefore := hmoved hwaits (.inl (by rw [moved_place_of_ne _ _ hne, htarget]; rfl))
    exact .inl (hmoved hbefore (.inr rfl))
  | unheard => exact .inl (hmoved hwaits (.inr rfl))
  | woke hplace => exact .inl (hmoved hwaits (.inl (by rw [hplace]; rfl)))
  | resumed => exact .inl (returned_waits hwaits).2
  | slept hplace => exact .inl (hmoved hwaits (.inl (by rw [hplace]; rfl)))
  | served => exact .inl (returned_waits hwaits).2
  | expired => exact .inl (returned_waits hwaits).2

/-- What every call finds when it goes to wait is so of all that wait. -/
theorem visited_waits {P : τ → ω → Prop} (hblocks : ∀ {t k s wait}, m.enter t k s = .blocks wait → P t wait)
    {s : σ} {es : List (Event τ κ)} :
    ∀ st ∈ m.machine.visited (.initial s) es, ∀ t wait, (st.place t).waits = some wait → P t wait := by
  refine EventMachine.visited_invariant (fun st e st' h hstep t wait hwaits => ?_) fun t wait hwaits => ?_
  · obtain hbefore | ⟨k, henter⟩ := waits_of_moves (step_moves hstep) hwaits
    · exact h t wait hbefore
    · exact hblocks henter
  · cases hwaits

/-- What holds in a state `st` of a monitor that started with the object `s`. -/
structure Wakes (m : Signalled τ σ κ χ ω ρ) (s : σ) (st : State τ σ χ ω ρ) : Prop where
  /-- It is a state of the monitor below. -/
  below : ∃ es, m.toMonitor.machine.run (.initial s) es = some st.toMonitor
  /-- If a sleeping call could go on, somebody is on the way for it. -/
  attended : ∀ t wait, st.place t = .asleep wait → (m.resume t wait st.shared).isSome = true →
    ∃ u, m.UnderWay (m.waitsOn wait) (st.place u)
  /-- Left to themselves the tasks take few steps. When none is left to take, no sleeping
      call could go on. -/
  settles : ∀ es st', (∀ e ∈ es, e.Settles) → m.machine.run st es = some st' →
    es.length ≤ 4 * Fintype.card τ ∧
      ((∀ e : Event τ κ, e.Settles → m.step st' e = none) →
        ∀ t wait, st'.place t = .asleep wait → m.resume t wait st'.shared = none)

omit [DecidableEq τ] [Fintype τ] [DecidableEq χ] in
theorem Discipline.resume_eq_none [DecidableEq χ] (hm : m.Discipline units Takes) {t : τ} {wait : ω} {s : σ}
    (htakes : Takes wait) (hzero : units (m.waitsOn wait) s = 0) : m.resume t wait s = none := by
  cases hresume : m.resume t wait s with
  | none => rfl
  | some result =>
    obtain ⟨-, hpos, -⟩ := hm.resume_some htakes hresume
    omega

/-- No wake-up is lost by a monitor that notifies as its discipline says. -/
theorem visited_wakes (hm : m.Discipline units Takes) {s : σ} {es : List (Event τ κ)}
    (hmeets : m.machine.Meets (m.WaitsToTake Takes) (.initial s) es) :
    ∀ st ∈ m.machine.visited (.initial s) es, m.Wakes s st := by
  intro st hst
  have hattended := visited_attended hm hmeets st hst
  obtain ⟨pre, -, hrun⟩ := EventMachine.mem_visited_iff.mp hst
  refine ⟨⟨_, run_toMonitor hrun⟩, fun t wait hasleep hready => ?_, fun es' st' hsettles hrest => ?_⟩
  · refine exists_of_tally_pos (Nat.lt_of_lt_of_le ?_ (hattended.attended t wait hasleep))
    obtain ⟨result, hresume⟩ := Option.isSome_iff_exists.mp hready
    exact (hm.resume_some (hattended.takes t wait (by rw [hasleep]; rfl)) hresume).2.1
  · obtain ⟨hattended', hlength⟩ := run_settles hm hattended hsettles hrest
    have hbound := sum_effort_le st
    refine ⟨by omega, fun hnone t wait hasleep => ?_⟩
    have hquiet : st'.Quiet := by
      by_contra hnot
      obtain ⟨e, he, hstep⟩ := exists_settles (m := m) hnot
      rw [hnone e he] at hstep
      cases hstep
    exact hm.resume_eq_none (hattended'.takes t wait (by rw [hasleep]; rfl))
      (hattended'.units_eq_zero hquiet hasleep)

end Signalled

end Lib
