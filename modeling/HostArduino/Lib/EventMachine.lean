import Mathlib.Data.List.Induction

namespace Lib

universe u v

variable {σ : Type u} {ε : Type v}

/-- A machine driven by events. An event that is not enabled in a state has no
    step there; an enabled one leads to exactly one state, so a schedule is
    nothing but the list of events in the order they happened. -/
structure EventMachine (σ : Type u) (ε : Type v) where
  step : σ → ε → Option σ

namespace EventMachine

/-- The machine whose every event is enabled everywhere. -/
def total (apply : σ → ε → σ) : EventMachine σ ε where
  step s e := some (apply s e)

/-- The machine in which an event happens where it is admitted. -/
def guarded (admits : σ → ε → Prop) [∀ s e, Decidable (admits s e)] (apply : σ → ε → σ) :
    EventMachine σ ε where
  step s e := if admits s e then some (apply s e) else none

/-- The state a schedule ends in, if every event of it was enabled. -/
def run (m : EventMachine σ ε) : σ → List ε → Option σ
  | s, [] => some s
  | s, e :: es => (m.step s e).bind fun s' => m.run s' es

/-- Every state a schedule passes through, the first and the last included. -/
def visited (m : EventMachine σ ε) : σ → List ε → List σ
  | s, [] => [s]
  | s, e :: es => s :: (m.step s e).elim [] fun s' => m.visited s' es

/-- Every event of the schedule happens in a state in which the guard admits it. -/
def Meets (m : EventMachine σ ε) (G : σ → ε → Prop) : σ → List ε → Prop
  | _, [] => True
  | s, e :: es => G s e ∧ ∀ s', m.step s e = some s' → m.Meets G s' es

variable {m : EventMachine σ ε} {G : σ → ε → Prop}

@[simp] theorem run_nil (s : σ) : m.run s [] = some s := rfl

theorem run_cons_eq_some {s t : σ} {e : ε} {es : List ε} :
    m.run s (e :: es) = some t ↔ ∃ s', m.step s e = some s' ∧ m.run s' es = some t := by
  simp [run, Option.bind_eq_some_iff]

theorem run_append (s : σ) (es fs : List ε) :
    m.run s (es ++ fs) = (m.run s es).bind fun s' => m.run s' fs := by
  induction es generalizing s with
  | nil => rfl
  | cons e es ih =>
    cases hstep : m.step s e with
    | none => simp [run, hstep]
    | some s' => simpa [run, hstep] using ih s'

theorem run_concat_eq_some {s t : σ} {es : List ε} {e : ε} :
    m.run s (es ++ [e]) = some t ↔ ∃ s', m.run s es = some s' ∧ m.step s' e = some t := by
  simp [run_append, run, Option.bind_eq_some_iff]

@[simp] theorem total_step (apply : σ → ε → σ) (s : σ) (e : ε) :
    (total apply).step s e = some (apply s e) := rfl

/-- A total machine's run is the fold of its steps. -/
theorem total_run (apply : σ → ε → σ) (s : σ) (es : List ε) :
    (total apply).run s es = some (es.foldl apply s) := by
  induction es generalizing s with
  | nil => rfl
  | cons e es ih => simpa [run] using ih (apply s e)

section Guarded

variable {admits : σ → ε → Prop} [∀ s e, Decidable (admits s e)] {apply : σ → ε → σ}

theorem guarded_step_eq_some {s s' : σ} {e : ε} :
    (guarded admits apply).step s e = some s' ↔ admits s e ∧ apply s e = s' := by
  simp only [guarded]
  split
  case isTrue hadmits => rw [Option.some.injEq, and_iff_right hadmits]
  case isFalse hnot => exact iff_of_false nofun fun h => hnot h.1

theorem guarded_step_eq_none {s : σ} {e : ε} :
    (guarded admits apply).step s e = none ↔ ¬admits s e := by
  simp only [guarded]
  split
  case isTrue hadmits => exact iff_of_false nofun (not_not_intro hadmits)
  case isFalse hnot => exact iff_of_true rfl hnot

end Guarded

/-- The invariant rule: what every enabled step preserves, every run preserves. -/
theorem run_invariant {P : σ → Prop}
    (hstep : ∀ s e s', P s → m.step s e = some s' → P s')
    {s t : σ} {es : List ε} (hs : P s) (hrun : m.run s es = some t) : P t := by
  induction es generalizing s with
  | nil =>
    cases hrun
    exact hs
  | cons e es ih =>
    obtain ⟨s', he, hrest⟩ := run_cons_eq_some.mp hrun
    exact ih (hstep s e s' hs he) hrest

/-- The history rule: a relation between the schedule so far and the state,
    kept by appending one enabled event, relates every run to its end. -/
theorem run_history {P : List ε → σ → Prop} {s : σ} (hnil : P [] s)
    (hsnoc : ∀ es t e t', P es t → m.step t e = some t' → P (es ++ [e]) t')
    {es : List ε} {t : σ} (hrun : m.run s es = some t) : P es t := by
  induction es using List.reverseRecOn generalizing t with
  | nil =>
    cases hrun
    exact hnil
  | append_singleton es e ih =>
    obtain ⟨s', hes, he⟩ := run_concat_eq_some.mp hrun
    exact hsnoc es s' e t (ih hes) he

theorem Meets.cons {s s' : σ} {e : ε} {es : List ε} (hguard : G s e) (hstep : m.step s e = some s')
    (hrest : m.Meets G s' es) : m.Meets G s (e :: es) := by
  refine ⟨hguard, fun t ht => ?_⟩
  obtain rfl : s' = t := Option.some.inj (hstep.symm.trans ht)
  exact hrest

theorem Meets.mono {H : σ → ε → Prop} (himp : ∀ s e, G s e → H s e) {s : σ} {es : List ε}
    (hmeets : m.Meets G s es) : m.Meets H s es := by
  induction es generalizing s with
  | nil => trivial
  | cons e es ih => exact ⟨himp s e hmeets.1, fun s' hstep => ih (hmeets.2 s' hstep)⟩

/-- A guard that admits an event everywhere admits it at any point of a schedule. -/
theorem meets_of_forall {es : List ε} (hguard : ∀ e ∈ es, ∀ s, G s e) (s : σ) : m.Meets G s es := by
  induction es generalizing s with
  | nil => trivial
  | cons e es ih =>
    exact ⟨hguard e (by simp) s, fun s' _ => ih (fun f hf => hguard f (by simp [hf])) s'⟩

theorem meets_concat {s : σ} {es : List ε} {e : ε} :
    m.Meets G s (es ++ [e]) ↔ m.Meets G s es ∧ ∀ t, m.run s es = some t → G t e := by
  induction es generalizing s with
  | nil => simp [Meets]
  | cons f es ih =>
    cases hstep : m.step s f with
    | none => simp [Meets, run, hstep]
    | some s' => simp [Meets, run, hstep, ih, and_assoc]

theorem mem_visited_self (s : σ) (es : List ε) : s ∈ m.visited s es := by
  cases es <;> simp [visited]

/-- The visited states are the ends of the schedule's prefixes. -/
theorem mem_visited_iff {s t : σ} {es : List ε} :
    t ∈ m.visited s es ↔ ∃ pre, pre <+: es ∧ m.run s pre = some t := by
  induction es generalizing s with
  | nil =>
    constructor
    · intro h
      obtain rfl : t = s := by simpa [visited] using h
      exact ⟨[], List.prefix_refl _, rfl⟩
    · rintro ⟨pre, hpre, hrun⟩
      obtain rfl := List.prefix_nil.mp hpre
      cases hrun
      simp [visited]
  | cons e es ih =>
    constructor
    · intro h
      obtain rfl | hrest := List.mem_cons.mp h
      · exact ⟨[], List.nil_prefix, rfl⟩
      · cases hstep : m.step s e with
        | none => simp [hstep] at hrest
        | some s' =>
          obtain ⟨pre, hpre, hrun⟩ := ih.mp (by simpa [hstep] using hrest)
          exact ⟨e :: pre, List.cons_prefix_cons.mpr ⟨rfl, hpre⟩,
            run_cons_eq_some.mpr ⟨s', hstep, hrun⟩⟩
    · rintro ⟨pre, hpre, hrun⟩
      cases pre with
      | nil =>
        cases hrun
        exact mem_visited_self _ _
      | cons f pre =>
        obtain ⟨rfl, htail⟩ := List.cons_prefix_cons.mp hpre
        obtain ⟨s', hstep, hrest⟩ := run_cons_eq_some.mp hrun
        have hmem : t ∈ m.visited s' es := ih.mpr ⟨pre, htail, hrest⟩
        simpa [visited, hstep] using Or.inr hmem

/-- Under a guard that keeps the invariant, every visited state satisfies it. -/
theorem visited_of_meets {P : σ → Prop}
    (hstep : ∀ s e s', P s → G s e → m.step s e = some s' → P s')
    {s : σ} {es : List ε} (hs : P s) (hmeets : m.Meets G s es) :
    ∀ t ∈ m.visited s es, P t := by
  induction es generalizing s with
  | nil =>
    intro t ht
    obtain rfl : t = s := by simpa [visited] using ht
    exact hs
  | cons e es ih =>
    intro t ht
    obtain rfl | hrest := List.mem_cons.mp ht
    · exact hs
    · cases he : m.step s e with
      | none => simp [he] at hrest
      | some s' =>
        exact ih (hstep s e s' hs hmeets.1 he) (hmeets.2 s' he) t (by simpa [he] using hrest)

/-- The invariant rule over the visited states of any schedule. -/
theorem visited_invariant {P : σ → Prop}
    (hstep : ∀ s e s', P s → m.step s e = some s' → P s')
    {s : σ} {es : List ε} (hs : P s) : ∀ t ∈ m.visited s es, P t :=
  visited_of_meets (G := fun _ _ => True) (fun s e s' h _ => hstep s e s' h) hs
    (meets_of_forall (fun _ _ _ => trivial) s)

/-- Guards that agree wherever an invariant holds admit the same schedules. -/
theorem meets_congr {I : σ → Prop} {H : σ → ε → Prop}
    (hkeep : ∀ s e s', I s → m.step s e = some s' → I s') (hiff : ∀ s e, I s → (G s e ↔ H s e))
    {s : σ} {es : List ε} (hs : I s) : m.Meets G s es ↔ m.Meets H s es := by
  induction es generalizing s with
  | nil => exact Iff.rfl
  | cons e es ih =>
    refine and_congr (hiff s e hs) (forall_congr' fun s' => ?_)
    exact imp_congr_right fun hstep => ih (hkeep s e s' hs hstep)

/-- When the guard is exactly what an enabled step needs to keep the invariant, and
    admits what is not enabled, the schedules all of whose states satisfy the
    invariant are those that meet the guard. -/
theorem visited_iff_meets_of_enabled {P : σ → Prop}
    (hstep : ∀ s e s', P s → m.step s e = some s' → (P s' ↔ G s e))
    (hdisabled : ∀ s e, P s → m.step s e = none → G s e)
    {s : σ} {es : List ε} (hs : P s) :
    (∀ t ∈ m.visited s es, P t) ↔ m.Meets G s es := by
  constructor
  · intro hall
    induction es generalizing s with
    | nil => trivial
    | cons e es ih =>
      cases he : m.step s e with
      | none =>
        refine ⟨hdisabled s e hs he, fun t ht => ?_⟩
        rw [he] at ht
        cases ht
      | some s' =>
        have hs' : P s' := hall s' (by simp [visited, he, mem_visited_self])
        refine .cons ((hstep s e s' hs he).mp hs') he ?_
        exact ih hs' fun t ht => hall t (by simp [visited, he, ht])
  · exact visited_of_meets (fun s e s' hs hg he => (hstep s e s' hs he).mpr hg) hs

/-- The same next to an invariant that every step keeps, whatever the guard. -/
theorem visited_iff_meets_of_invariant {I P : σ → Prop}
    (hkeep : ∀ s e s', I s → m.step s e = some s' → I s')
    (hstep : ∀ s e s', I s → P s → m.step s e = some s' → (P s' ↔ G s e))
    (hdisabled : ∀ s e, P s → m.step s e = none → G s e)
    {s : σ} {es : List ε} (hinvariant : I s) (hs : P s) :
    (∀ t ∈ m.visited s es, P t) ↔ m.Meets G s es := by
  have hkept : ∀ t ∈ m.visited s es, I t := visited_invariant hkeep hinvariant
  have hboth : (∀ t ∈ m.visited s es, I t ∧ P t) ↔ m.Meets G s es := by
    refine visited_iff_meets_of_enabled (fun s e s' h he => ?_) (fun s e h => hdisabled s e h.2)
      ⟨hinvariant, hs⟩
    rw [and_iff_right (hkeep s e s' h.1 he)]
    exact hstep s e s' h.1 h.2 he
  rw [← hboth]
  exact forall₂_congr fun t ht => (and_iff_right (hkept t ht)).symm

/-- When the guard is exactly what a step needs to keep the invariant, the
    schedules all of whose states satisfy it are those that meet the guard. -/
theorem visited_iff_meets {P : σ → Prop}
    (hstep : ∀ s e s', P s → m.step s e = some s' → (P s' ↔ G s e))
    (henabled : ∀ s e, P s → ∃ s', m.step s e = some s')
    {s : σ} {es : List ε} (hs : P s) :
    (∀ t ∈ m.visited s es, P t) ↔ m.Meets G s es := by
  apply visited_iff_meets_of_enabled hstep _ hs
  intro s e hP hnone
  obtain ⟨s', he⟩ := henabled s e hP
  rw [he] at hnone
  cases hnone

/-- A guard on the events alone is met by the schedules all of whose events pass it. -/
theorem total_meets_iff {apply : σ → ε → σ} {G : ε → Prop} (s : σ) (es : List ε) :
    (total apply).Meets (fun _ e => G e) s es ↔ ∀ e ∈ es, G e := by
  induction es generalizing s with
  | nil => simp [Meets]
  | cons e es ih => simp [Meets, ih]

/-- A flag that an event raises and another clears, each depending on the state it
    happens in: it is up when some event raised it and none since has cleared it. -/
theorem latch_iff {apply : σ → ε → σ} {F : σ → Prop} {raises clears : σ → ε → Prop}
    (hstep : ∀ s e, F (apply s e) ↔ raises s e ∨ F s ∧ ¬clears s e) {s : σ} (hs : ¬F s)
    (es : List ε) :
    F (es.foldl apply s) ↔
      ∃ before e after, es = before ++ e :: after ∧ raises (before.foldl apply s) e ∧
        (total apply).Meets (fun t f => ¬clears t f) ((before ++ [e]).foldl apply s) after := by
  induction es using List.reverseRecOn with
  | nil => simp [hs]
  | append_singleton es e ih =>
    rw [List.foldl_append, List.foldl_cons, List.foldl_nil, hstep, ih]
    constructor
    · rintro (hraises | ⟨⟨before, f, after, rfl, hraises, hafter⟩, hclears⟩)
      · exact ⟨es, e, [], rfl, hraises, trivial⟩
      · refine ⟨before, f, after ++ [e], by simp, hraises, meets_concat.mpr ⟨hafter, ?_⟩⟩
        intro t ht
        rw [total_run, Option.some.injEq, ← List.foldl_append] at ht
        subst ht
        simpa using hclears
    · rintro ⟨before, f, after, hsplit, hraises, hafter⟩
      obtain rfl | ⟨after, g, rfl⟩ := List.eq_nil_or_concat after
      · obtain ⟨rfl, hlast⟩ := List.append_inj' hsplit rfl
        cases hlast
        exact .inl hraises
      · have hsplit : es ++ [e] = (before ++ f :: after) ++ [g] := by simpa using hsplit
        obtain ⟨rfl, hlast⟩ := List.append_inj' hsplit rfl
        cases hlast
        rw [List.concat_eq_append, meets_concat] at hafter
        refine .inr ⟨⟨before, f, after, rfl, hraises, hafter.1⟩, ?_⟩
        refine hafter.2 _ ?_
        rw [total_run, ← List.foldl_append]
        simp

/-- A flag that an event raises, another clears and all others leave alone: it is up
    when some event since the last clearing one raised it. -/
theorem sticky_iff {apply : σ → ε → σ} {F : σ → Prop} {raises : σ → ε → Prop} {clears : ε → Prop}
    (hstep : ∀ s e, F (apply s e) ↔ raises s e ∨ F s ∧ ¬clears e) {s : σ} (hs : ¬F s)
    (es : List ε) :
    F (es.foldl apply s) ↔
      ∃ before e after, es = before ++ e :: after ∧ raises (before.foldl apply s) e ∧
        ∀ f ∈ after, ¬clears f := by
  have hlatch := latch_iff hstep hs es
  simpa only [total_meets_iff] using hlatch

end EventMachine

end Lib
