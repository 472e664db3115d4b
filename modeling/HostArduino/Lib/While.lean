import Mathlib.Data.Nat.Find
import Mathlib.Logic.Function.Iterate

namespace Lib

universe u v

/-- One turn of a loop: it goes round again from a new state, or is left with a result. -/
inductive Turn (σ : Type u) (α : Type v) where
  | again (s : σ)
  | leave (a : α)

variable {σ : Type u} {α : Type v}

/-- A loop of at most `fuel` turns. A turn that is itself out of fuel is `none`. -/
def loop (turn : σ → Option (Turn σ α)) : Nat → σ → Option α
  | 0, _ => none
  | fuel + 1, s =>
    (turn s).bind fun
      | .again s' => loop turn fuel s'
      | .leave a => some a

/-- A computation with fuel ends with `a`. -/
def Ends (run : Nat → Option α) (a : α) : Prop :=
  ∃ fuel, run fuel = some a

/-- More fuel never changes how the computation ends. -/
def FuelMonotone (run : Nat → Option α) : Prop :=
  ∀ fuel fuel' a, fuel ≤ fuel' → run fuel = some a → run fuel' = some a

theorem Ends.unique {run : Nat → Option α} (hmono : FuelMonotone run) {a b : α}
    (ha : Ends run a) (hb : Ends run b) : a = b := by
  obtain ⟨fa, ha⟩ := ha
  obtain ⟨fb, hb⟩ := hb
  have ha' := hmono fa (max fa fb) a (Nat.le_max_left _ _) ha
  have hb' := hmono fb (max fa fb) b (Nat.le_max_right _ _) hb
  exact Option.some.inj (ha'.symm.trans hb')

variable {turn : σ → Option (Turn σ α)}

theorem loop_again {s s' : σ} (h : turn s = some (.again s')) (fuel : Nat) :
    loop turn (fuel + 1) s = loop turn fuel s' := by
  simp [loop, h]

theorem loop_leave {s : σ} {a : α} (h : turn s = some (.leave a)) (fuel : Nat) :
    loop turn (fuel + 1) s = some a := by
  simp [loop, h]

/-- How a loop that ends got through its first turn. -/
theorem loop_succ_cases {fuel : Nat} {s : σ} {a : α} (h : loop turn (fuel + 1) s = some a) :
    turn s = some (.leave a) ∨ ∃ s', turn s = some (.again s') ∧ loop turn fuel s' = some a := by
  obtain ⟨t, hturn, ht⟩ := Option.bind_eq_some_iff.mp h
  cases t with
  | again s' => exact .inr ⟨s', hturn, ht⟩
  | leave b =>
    obtain rfl := Option.some.inj ht
    exact .inl hturn

theorem loop_mono {turn' : σ → Option (Turn σ α)}
    (hturn : ∀ s t, turn s = some t → turn' s = some t) {fuel fuel' : Nat} (hle : fuel ≤ fuel')
    {s : σ} {a : α} (h : loop turn fuel s = some a) : loop turn' fuel' s = some a := by
  induction fuel generalizing fuel' s with
  | zero => cases h
  | succ fuel ih =>
    obtain ⟨extra, rfl⟩ := Nat.exists_eq_add_of_le hle
    rw [Nat.add_right_comm]
    obtain hleave | ⟨s', hagain, hrest⟩ := loop_succ_cases h
    · exact loop_leave (hturn _ _ hleave) _
    · rw [loop_again (hturn _ _ hagain)]
      exact ih (Nat.le_add_right _ _) hrest

/-- The invariant rule: a loop that ends is left from a state that satisfies what
    every turn preserves. -/
theorem loop_invariant {P : σ → Prop} (hagain : ∀ s s', P s → turn s = some (.again s') → P s')
    {fuel : Nat} {s : σ} {a : α} (hs : P s) (h : loop turn fuel s = some a) :
    ∃ t, P t ∧ turn t = some (.leave a) := by
  induction fuel generalizing s with
  | zero => cases h
  | succ fuel ih =>
    obtain hleave | ⟨s', hturn, hrest⟩ := loop_succ_cases h
    · exact ⟨s, hs, hleave⟩
    · exact ih (hagain s s' hs hturn) hrest

/-- A loop whose turns step through the iterates of `next` and which is left at the
    `k`-th of them. -/
theorem loop_iterate (next : σ → σ) {k : Nat} {s : σ} {a : α}
    (hagain : ∀ j < k, turn (next^[j] s) = some (.again (next^[j + 1] s)))
    (hleave : turn (next^[k] s) = some (.leave a)) : loop turn (k + 1) s = some a := by
  induction k generalizing s with
  | zero => exact loop_leave hleave 0
  | succ k ih =>
    have hfirst : turn s = some (.again (next s)) := hagain 0 (Nat.succ_pos k)
    rw [loop_again hfirst]
    refine ih (fun j hj => ?_) hleave
    exact hagain (j + 1) (Nat.succ_lt_succ hj)

/-- Conversely, a loop whose turns from the states of `P` are steps of `next` is left at
    the first iterate whose turn leaves it. -/
theorem loop_eq_some_iterate {P : σ → Prop} (next : σ → σ) (hkeep : ∀ s, P s → P (next s))
    (hnext : ∀ s s', P s → turn s = some (.again s') → s' = next s) {fuel : Nat} {s : σ} {a : α}
    (hs : P s) (h : loop turn fuel s = some a) :
    ∃ k, (∀ j < k, turn (next^[j] s) = some (.again (next^[j + 1] s))) ∧
      turn (next^[k] s) = some (.leave a) := by
  induction fuel generalizing s with
  | zero => cases h
  | succ fuel ih =>
    obtain hleave | ⟨s', hturn, hrest⟩ := loop_succ_cases h
    · exact ⟨0, nofun, hleave⟩
    · obtain rfl := hnext s s' hs hturn
      obtain ⟨k, hagain, hleave⟩ := ih (hkeep s hs) hrest
      refine ⟨k + 1, fun j hj => ?_, hleave⟩
      cases j with
      | zero => exact hturn
      | succ j => exact hagain j (Nat.lt_of_succ_lt_succ hj)

/-- What grows whenever it is below a bound reaches the bound, and there is a first
    time it does. -/
theorem exists_first_reaching (f : Nat → Nat) (bound : Nat)
    (hgrows : ∀ k, f k < bound → f k < f (k + 1)) :
    ∃ k, bound ≤ f k ∧ ∀ j < k, f j < bound := by
  have hreached : ∃ k, bound ≤ f k := by
    by_contra hnever
    have hbelow : ∀ k, f k < bound := fun k => Nat.lt_of_not_le fun hk => hnever ⟨k, hk⟩
    have hlinear : ∀ k, k ≤ f k := by
      intro k
      induction k with
      | zero => exact Nat.zero_le _
      | succ k ih => exact Nat.succ_le_of_lt (Nat.lt_of_le_of_lt ih (hgrows k (hbelow k)))
    exact absurd (hlinear bound) (Nat.not_le_of_lt (hbelow bound))
  classical
  refine ⟨Nat.find hreached, Nat.find_spec hreached, fun j hj => ?_⟩
  exact Nat.lt_of_not_le (Nat.find_min hreached hj)

end Lib
