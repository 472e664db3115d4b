import Mathlib.Data.List.Basic
import Mathlib.Logic.Function.Iterate

namespace Lib

universe u

/-- A queue that holds items up to a limit and remembers whether it has refused or
    dropped one. -/
structure BoundedQueue (α : Type u) where
  items : List α
  limit : Nat
  overflowed : Bool
  deriving DecidableEq, Repr

namespace BoundedQueue

variable {α : Type u}

/-- Accepts items in order until the queue is full, and says how many it accepted. -/
def offer : BoundedQueue α → List α → BoundedQueue α × Nat
  | q, [] => (q, 0)
  | q, x :: xs =>
    if q.limit ≤ q.items.length then ({ q with overflowed := true }, 0)
    else
      let accepted := offer { q with items := q.items ++ [x] } xs
      (accepted.1, accepted.2 + 1)

/-- Takes up to `n` items from the front. -/
def drain : BoundedQueue α → Nat → BoundedQueue α × List α
  | q, 0 => (q, [])
  | q, n + 1 =>
    match q.items with
    | [] => (q, [])
    | x :: rest =>
      let drained := drain { q with items := rest } n
      (drained.1, x :: drained.2)

def clear (q : BoundedQueue α) : BoundedQueue α :=
  { q with items := [] }

def dropBack (q : BoundedQueue α) : BoundedQueue α :=
  { q with items := q.items.dropLast, overflowed := true }

/-- Sets the limit, and drops from the back what is over it. -/
def resize (q : BoundedQueue α) (limit : Nat) : BoundedQueue α :=
  dropBack^[q.items.length - limit] { q with limit := limit }

/-- The queue is never longer than its limit, and the limit is not 0. -/
structure Bounded (q : BoundedQueue α) : Prop where
  positive : 1 ≤ q.limit
  length_le : q.items.length ≤ q.limit

variable {q : BoundedQueue α}

/-- An offer appends a prefix of what is offered, and is short of it only when it overflows. -/
theorem offer_spec (q : BoundedQueue α) (xs : List α) :
    (q.offer xs).1 =
        { q with
          items := q.items ++ xs.take (q.offer xs).2
          overflowed := q.overflowed || decide ((q.offer xs).2 < xs.length) } ∧
      (q.offer xs).2 = min xs.length (q.limit - q.items.length) := by
  induction xs generalizing q with
  | nil => simp [offer]
  | cons x xs ih =>
    by_cases hfull : q.limit ≤ q.items.length
    · simp [offer, hfull]
    · obtain ⟨hqueue, hcount⟩ := ih { q with items := q.items ++ [x] }
      simp only [offer, hfull, if_false]
      refine ⟨?_, ?_⟩
      · rw [hqueue]
        simp
      · rw [hcount]
        change min xs.length (q.limit - (q.items ++ [x]).length) + 1 = _
        rw [List.length_append, List.length_singleton, List.length_cons]
        omega

theorem offer_items (q : BoundedQueue α) (xs : List α) :
    (q.offer xs).1.items = q.items ++ xs.take (q.offer xs).2 := by
  rw [(offer_spec q xs).1]

theorem offer_limit (q : BoundedQueue α) (xs : List α) : (q.offer xs).1.limit = q.limit := by
  rw [(offer_spec q xs).1]

theorem offer_overflowed (q : BoundedQueue α) (xs : List α) :
    (q.offer xs).1.overflowed = (q.overflowed || decide ((q.offer xs).2 < xs.length)) := by
  rw [(offer_spec q xs).1]

theorem offer_count_le (q : BoundedQueue α) (xs : List α) : (q.offer xs).2 ≤ xs.length := by
  rw [(offer_spec q xs).2]
  exact Nat.min_le_left _ _

/-- A full queue that has overflowed stays as it is. -/
theorem offer_full (hfull : q.limit ≤ q.items.length) (hover : q.overflowed = true) (xs : List α) :
    q.offer xs = (q, 0) := by
  cases xs with
  | nil => rfl
  | cons x xs =>
    obtain ⟨items, limit, overflowed⟩ := q
    obtain rfl : overflowed = true := hover
    exact if_pos hfull

theorem offer_append (q : BoundedQueue α) (xs ys : List α) :
    q.offer (xs ++ ys) =
      (((q.offer xs).1.offer ys).1, (q.offer xs).2 + ((q.offer xs).1.offer ys).2) := by
  induction xs generalizing q with
  | nil => simp [offer]
  | cons x xs ih =>
    by_cases hfull : q.limit ≤ q.items.length
    · have hstays : ({ q with overflowed := true } : BoundedQueue α).offer ys = ({ q with overflowed := true }, 0) :=
        offer_full (q := { q with overflowed := true }) hfull rfl ys
      simp only [List.cons_append, offer, if_pos hfull, hstays]
    · simp only [List.cons_append, offer, if_neg hfull, ih]
      rw [Nat.add_right_comm]

/-- After a refusal there is no room for anything. -/
theorem offer_refused {xs : List α} (hrefused : (q.offer xs).2 < xs.length) (ys : List α) :
    ((q.offer xs).1.offer ys).2 = 0 := by
  have hcount := (offer_spec q xs).2
  rw [(offer_spec _ ys).2, offer_limit, offer_items, List.length_append, List.length_take]
  omega

theorem drain_spec (q : BoundedQueue α) (n : Nat) :
    q.drain n = ({ q with items := q.items.drop n }, q.items.take n) := by
  induction n generalizing q with
  | zero => simp [drain]
  | succ n ih =>
    obtain ⟨items, limit, overflowed⟩ := q
    cases items with
    | nil => simp [drain]
    | cons x rest => simp [drain, ih]

theorem iterate_dropBack (q : BoundedQueue α) (n : Nat) :
    dropBack^[n] q =
      { q with items := q.items.take (q.items.length - n), overflowed := q.overflowed || decide (0 < n) } := by
  induction n generalizing q with
  | zero => simp
  | succ n ih =>
    rw [Function.iterate_succ_apply, ih]
    have htake : q.items.dropLast.take (q.items.dropLast.length - n) =
        q.items.take (q.items.length - (n + 1)) := by
      rw [List.dropLast_eq_take, List.take_take, List.length_take]
      congr 1
      omega
    change BoundedQueue.mk (q.items.dropLast.take (q.items.dropLast.length - n)) q.limit
      (true || decide (0 < n)) = _
    rw [htake]
    simp

theorem resize_spec (q : BoundedQueue α) (limit : Nat) :
    q.resize limit =
      ⟨q.items.take limit, limit, q.overflowed || decide (limit < q.items.length)⟩ := by
  have htake : q.items.take (q.items.length - (q.items.length - limit)) = q.items.take limit := by
    by_cases hfits : q.items.length ≤ limit
    · rw [List.take_of_length_le hfits, List.take_of_length_le (by omega)]
    · congr 1
      omega
  have hover : (0 < q.items.length - limit) ↔ limit < q.items.length := Nat.sub_pos_iff_lt
  unfold resize
  rw [iterate_dropBack]
  change BoundedQueue.mk (q.items.take (q.items.length - (q.items.length - limit))) limit _ = _
  rw [htake, decide_eq_decide.mpr hover]

theorem Bounded.offer (h : q.Bounded) (xs : List α) : (q.offer xs).1.Bounded := by
  obtain ⟨hqueue, hcount⟩ := offer_spec q xs
  have hroom := h.length_le
  refine ⟨?_, ?_⟩
  · rw [offer_limit]
    exact h.positive
  · rw [offer_items, offer_limit, List.length_append, List.length_take]
    omega

theorem Bounded.drain (h : q.Bounded) (n : Nat) : (q.drain n).1.Bounded := by
  have hroom := h.length_le
  rw [drain_spec]
  refine ⟨h.positive, ?_⟩
  change (q.items.drop n).length ≤ q.limit
  rw [List.length_drop]
  omega

theorem Bounded.clear (h : q.Bounded) : q.clear.Bounded :=
  ⟨h.positive, Nat.zero_le _⟩

theorem bounded_resize (q : BoundedQueue α) {limit : Nat} (hlimit : 1 ≤ limit) :
    (q.resize limit).Bounded := by
  rw [resize_spec]
  exact ⟨hlimit, List.length_take_le _ _⟩

end BoundedQueue

end Lib
