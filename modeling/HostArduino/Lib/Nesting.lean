namespace Lib

universe u

/-- The beginning or the end of something that is named by a key. -/
inductive Bracket (κ : Type u) where
  | opens (key : κ)
  | closes (key : κ)
  deriving DecidableEq, Repr

namespace Bracket

variable {κ : Type u} [DecidableEq κ]

/-- Follows what is open, the innermost first. An end that is not that of the
    innermost one is an error. -/
def follow (stack : List κ) : List (Bracket κ) → Option (List κ)
  | [] => some stack
  | .opens key :: rest => follow (key :: stack) rest
  | .closes key :: rest =>
    match stack with
    | [] => none
    | innermost :: outer => if innermost = key then follow outer rest else none

/-- Brackets that nest like parentheses: whatever is open before them is open after them. -/
def Balanced (brackets : List (Bracket κ)) : Prop :=
  ∀ stack, follow stack brackets = some stack

theorem follow_append (stack : List κ) (before after : List (Bracket κ)) :
    follow stack (before ++ after) = (follow stack before).bind fun stack => follow stack after := by
  induction before generalizing stack with
  | nil => rfl
  | cons bracket before ih =>
    cases bracket with
    | opens key => exact ih (key :: stack)
    | closes key =>
      cases stack with
      | nil => rfl
      | cons innermost outer =>
        by_cases hkey : innermost = key
        · simp [follow, hkey, ih]
        · simp [follow, hkey]

theorem balanced_nil : Balanced ([] : List (Bracket κ)) := fun _ => rfl

theorem Balanced.append {before after : List (Bracket κ)} (hbefore : Balanced before)
    (hafter : Balanced after) : Balanced (before ++ after) := by
  intro stack
  rw [follow_append, hbefore stack]
  exact hafter stack

theorem Balanced.wrap {inside : List (Bracket κ)} (h : Balanced inside) (key : κ) :
    Balanced (.opens key :: inside ++ [.closes key]) := by
  intro stack
  change follow (key :: stack) (inside ++ [.closes key]) = some stack
  rw [follow_append, h (key :: stack)]
  simp [follow]

end Bracket

end Lib
