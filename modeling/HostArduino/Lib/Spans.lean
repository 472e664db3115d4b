import Mathlib.Data.List.TakeWhile

namespace Lib

universe u

variable {α : Type u} {p : α → Bool}

/-- What passes a test is taken up to the first symbol that does not. -/
theorem takeWhile_stops {front rest : List α} (hfront : ∀ x ∈ front, p x = true)
    (hrest : ∀ x ∈ rest.head?, p x = false) :
    (front ++ rest).takeWhile p = front ∧ (front ++ rest).dropWhile p = rest := by
  rw [List.takeWhile_append_of_pos hfront, List.dropWhile_append_of_pos hfront]
  cases rest with
  | nil => simp
  | cons x rest =>
    have hx : ¬p x = true := by simp [hrest x rfl]
    rw [List.takeWhile_cons_of_neg hx, List.dropWhile_cons_of_neg hx, List.append_nil]
    exact ⟨rfl, rfl⟩

theorem stops_dropWhile (p : α → Bool) (xs : List α) : ∀ x ∈ (xs.dropWhile p).head?, p x = false := by
  intro x hx
  have hhead := List.head?_dropWhile_not p xs
  rw [Option.mem_def.mp hx] at hhead
  exact hhead

theorem stops_of_dropWhile_eq_cons {xs rest : List α} {x : α} (h : xs.dropWhile p = x :: rest) : p x = false :=
  stops_dropWhile p xs x (by rw [h]; rfl)

theorem drop_one_dropWhile (p : α → Bool) (xs : List α) :
    (xs.dropWhile p).drop 1 = xs.drop ((xs.takeWhile p).length + 1) := by
  have hrest : (xs.takeWhile p ++ xs.dropWhile p).drop (xs.takeWhile p).length = xs.dropWhile p := List.drop_left
  rw [List.takeWhile_append_dropWhile] at hrest
  rw [← List.drop_drop, hrest]

end Lib
