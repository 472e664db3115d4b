import Mathlib.Algebra.Order.Ring.Nat
import Mathlib.Data.List.Basic

namespace Lib

universe u v w

/-- A machine that answers each item it is fed. -/
abbrev Mealy (σ : Type u) (α : Type v) (β : Type w) : Type (max u v w) :=
  σ → α → β × σ

namespace Mealy

variable {σ : Type u} {α : Type v} {β : Type w} {γ : Type v}

/-- Feeds the items one after the other; the answers, in that order, and where it ends. -/
def feed (m : Mealy σ α β) : σ → List α → List β × σ
  | s, [] => ([], s)
  | s, x :: xs =>
    let (answer, s) := m s x
    let (answers, s) := feed m s xs
    (answer :: answers, s)

variable {m : Mealy σ α β}

theorem feed_cons (s : σ) (x : α) (xs : List α) :
    m.feed s (x :: xs) = ((m s x).1 :: (m.feed (m s x).2 xs).1, (m.feed (m s x).2 xs).2) := rfl

theorem feed_append (s : σ) (xs ys : List α) :
    m.feed s (xs ++ ys) =
      ((m.feed s xs).1 ++ (m.feed (m.feed s xs).2 ys).1, (m.feed (m.feed s xs).2 ys).2) := by
  induction xs generalizing s with
  | nil => rfl
  | cons x xs ih => rw [List.cons_append, feed_cons, ih, feed_cons, List.cons_append]

@[simp]
theorem length_feed (s : σ) (xs : List α) : (m.feed s xs).1.length = xs.length := by
  induction xs generalizing s with
  | nil => rfl
  | cons x xs ih => exact congrArg (· + 1) (ih (m s x).2)

theorem feed_map (f : γ → α) (s : σ) (xs : List γ) :
    m.feed s (xs.map f) = feed (fun s x => m s (f x)) s xs := by
  induction xs generalizing s with
  | nil => rfl
  | cons x xs ih => rw [List.map_cons, feed_cons, ih, feed_cons]

/-- The machine whose answers are seen through a function. -/
def through {δ : Type*} (m : Mealy σ α β) (g : β → δ) : Mealy σ α δ :=
  fun s x => (g (m s x).1, (m s x).2)

theorem feed_through {δ : Type*} (g : β → δ) (s : σ) (xs : List α) :
    (m.through g).feed s xs = ((m.feed s xs).1.map g, (m.feed s xs).2) := by
  induction xs generalizing s with
  | nil => rfl
  | cons x xs ih =>
    rw [feed_cons, feed_cons, List.map_cons, ih]
    rfl

/-- A relation between states that cannot be told apart by one item. -/
structure Simulation (m : Mealy σ α β) (R : σ → σ → Prop) : Prop where
  answer : ∀ {s t}, R s t → ∀ x, (m s x).1 = (m t x).1
  next : ∀ {s t}, R s t → ∀ x, R (m s x).2 (m t x).2

/-- Nor can they be told apart by any items. -/
theorem Simulation.feed {R : σ → σ → Prop} (h : m.Simulation R) {s t : σ} (hrel : R s t) (xs : List α) :
    (m.feed s xs).1 = (m.feed t xs).1 ∧ R (m.feed s xs).2 (m.feed t xs).2 := by
  induction xs generalizing s t with
  | nil => exact ⟨rfl, hrel⟩
  | cons x xs ih =>
    obtain ⟨hanswers, hend⟩ := ih (h.next hrel x)
    rw [feed_cons, feed_cons, h.answer hrel x, hanswers]
    exact ⟨rfl, hend⟩

/-- A relation under which one machine answers an item as another one does. -/
def Refines {τ : Type*} (m : Mealy σ α β) (n : Mealy τ α β) (R : σ → τ → Prop) : Prop :=
  ∀ s t, R s t → ∀ x, (m s x).1 = (n t x).1 ∧ R (m s x).2 (n t x).2

theorem Refines.feed {τ : Type*} {n : Mealy τ α β} {R : σ → τ → Prop} (h : m.Refines n R) {s : σ} {t : τ}
    (hrel : R s t) (xs : List α) : (m.feed s xs).1 = (n.feed t xs).1 ∧ R (m.feed s xs).2 (n.feed t xs).2 := by
  induction xs generalizing s t with
  | nil => exact ⟨rfl, hrel⟩
  | cons x xs ih =>
    obtain ⟨hanswer, hnext⟩ := h s t hrel x
    obtain ⟨hanswers, hend⟩ := ih hnext
    rw [feed_cons, feed_cons, hanswer, hanswers]
    exact ⟨rfl, hend⟩

end Mealy

/-- An operation that takes items from the front of a list until it refuses one, after
    which it takes no more. It says how many it took. -/
structure Intake (σ : Type u) (α : Type v) where
  take : σ → List α → Nat × σ
  take_nil : ∀ s, take s [] = (0, s)
  take_append : ∀ s xs ys, take s (xs ++ ys) =
    ((take s xs).1 + (take (take s xs).2 ys).1, (take (take s xs).2 ys).2)
  take_le : ∀ s xs, (take s xs).1 ≤ xs.length
  take_refused : ∀ s xs ys, (take s xs).1 < xs.length → (take (take s xs).2 ys).1 = 0

namespace Intake

variable {σ : Type u} {α : Type v} (i : Intake σ α)

/-- The operation on one item. -/
def single : Mealy σ α Nat :=
  fun s x => i.take s [x]

theorem take_cons (s : σ) (x : α) (xs : List α) :
    i.take s (x :: xs) = ((i.take s [x]).1 + (i.take (i.take s [x]).2 xs).1, (i.take (i.take s [x]).2 xs).2) :=
  i.take_append s [x] xs

theorem feed_single_cons (s : σ) (x : α) (xs : List α) :
    i.single.feed s (x :: xs) =
      ((i.take s [x]).1 :: (i.single.feed (i.take s [x]).2 xs).1, (i.single.feed (i.take s [x]).2 xs).2) :=
  rfl

/-- Item by item it comes to the same: all items up to the first refused one are taken,
    and none behind it. -/
theorem feed_single (s : σ) (xs : List α) :
    i.single.feed s xs =
      (List.replicate (i.take s xs).1 1 ++ List.replicate (xs.length - (i.take s xs).1) 0, (i.take s xs).2) := by
  induction xs generalizing s with
  | nil => simp [Mealy.feed, i.take_nil]
  | cons x xs ih =>
    have hone := i.take_le s [x]
    rw [feed_single_cons, ih, i.take_cons s x xs]
    refine Prod.ext ?_ rfl
    simp only
    obtain htaken | hrefused := Nat.eq_or_lt_of_le hone
    · rw [htaken, List.length_singleton, Nat.add_comm 1, List.replicate_succ, List.length_cons,
        Nat.add_sub_add_right]
      rfl
    · have hnone := i.take_refused s [x] xs hrefused
      have hzero : (i.take s [x]).1 = 0 := Nat.lt_one_iff.mp hrefused
      rw [hnone, hzero]
      rfl

theorem sum_feed_single (s : σ) (xs : List α) : (i.single.feed s xs).1.sum = (i.take s xs).1 := by
  rw [feed_single]
  simp

end Intake

end Lib
