import HostArduino.Lib.Spans
import Mathlib.Data.List.DropRight

namespace Lib

universe u

variable {α : Type u} {p : α → Bool}

/-- What a list holds between its separators, the empty stretches left out. -/
def pieces (p : α → Bool) (xs : List α) : List (List α) :=
  (xs.splitOnP p).filter fun piece => !piece.isEmpty

/-- A piece between separators: there is something in it, and no separator. -/
structure IsPiece (p : α → Bool) (piece : List α) : Prop where
  ne_nil : piece ≠ []
  separator_free : ∀ x ∈ piece, p x = false

theorem separator_free_of_mem_splitOnP {xs piece : List α} (hpiece : piece ∈ xs.splitOnP p) :
    ∀ x ∈ piece, p x = false := by
  induction xs generalizing piece with
  | nil =>
    rw [List.splitOnP_nil, List.mem_singleton] at hpiece
    subst hpiece
    simp
  | cons x xs ih =>
    rw [List.splitOnP_cons_eq_if_modifyHead] at hpiece
    obtain ⟨first, rest, hsplit⟩ := List.exists_cons_of_ne_nil (List.splitOnP_ne_nil p xs)
    rw [hsplit, List.modifyHead_cons] at hpiece
    rw [hsplit] at ih
    by_cases hx : p x = true
    · rw [if_pos hx, List.mem_cons] at hpiece
      obtain rfl | hpiece := hpiece
      · simp
      · exact ih hpiece
    · rw [if_neg hx, List.mem_cons] at hpiece
      obtain rfl | hpiece := hpiece
      · intro y hy
        rw [List.mem_cons] at hy
        obtain rfl | hy := hy
        · exact Bool.not_eq_true _ ▸ hx
        · exact ih List.mem_cons_self y hy
      · exact ih (List.mem_cons_of_mem _ hpiece)

theorem mem_pieces {xs piece : List α} : piece ∈ pieces p xs ↔ piece ∈ xs.splitOnP p ∧ piece ≠ [] := by
  simp [pieces]

theorem isPiece_of_mem_pieces {xs piece : List α} (hpiece : piece ∈ pieces p xs) :
    IsPiece p piece := by
  obtain ⟨hsplit, hne⟩ := mem_pieces.mp hpiece
  exact ⟨hne, separator_free_of_mem_splitOnP hsplit⟩

@[simp]
theorem pieces_nil : pieces p ([] : List α) = [] := by
  simp [pieces]

theorem pieces_append_cons {x : α} (hx : p x = true) (before after : List α) :
    pieces p (before ++ x :: after) = pieces p before ++ pieces p after := by
  rw [pieces, List.splitOnP_append_cons before after hx, List.filter_append]
  rfl

theorem pieces_cons {x : α} (hx : p x = true) (xs : List α) : pieces p (x :: xs) = pieces p xs := by
  simpa using pieces_append_cons hx [] xs

theorem IsPiece.pieces_eq {piece : List α} (hpiece : IsPiece p piece) :
    pieces p piece = [piece] := by
  rw [pieces, List.splitOnP_eq_singleton hpiece.separator_free]
  simp [hpiece.ne_nil]

theorem pieces_dropWhile (p : α → Bool) (xs : List α) :
    pieces p (xs.dropWhile p) = pieces p xs := by
  induction xs with
  | nil => rfl
  | cons x xs ih =>
    by_cases hx : p x = true
    · rw [List.dropWhile_cons_of_pos hx, ih, pieces_cons hx]
    · rw [List.dropWhile_cons_of_neg hx]

/-- Past its leading separators and the piece after them, a list is shorter. -/
theorem length_dropWhile_lt (p : α → Bool) {xs : List α} (hne : xs ≠ []) :
    ((xs.dropWhile p).dropWhile fun x => !p x).length < xs.length := by
  cases xs with
  | nil => exact absurd rfl hne
  | cons x xs =>
    by_cases hx : p x = true
    · rw [List.dropWhile_cons_of_pos hx]
      have hfirst := (List.dropWhile_suffix (l := xs) p).length_le
      have hsecond := (List.dropWhile_suffix (l := xs.dropWhile p) fun x => !p x).length_le
      rw [List.length_cons]
      omega
    · rw [List.dropWhile_cons_of_neg hx, List.dropWhile_cons_of_pos (by simpa using hx)]
      have hrest := (List.dropWhile_suffix (l := xs) fun x => !p x).length_le
      rw [List.length_cons]
      omega

/-- What stands before the first separator is the first piece, unless it is empty. -/
theorem pieces_eq_cons {xs : List α} (hne : xs.takeWhile (fun x => !p x) ≠ []) :
    pieces p xs =
      xs.takeWhile (fun x => !p x) :: pieces p (xs.dropWhile fun x => !p x) := by
  have hfirst : IsPiece p (xs.takeWhile fun x => !p x) :=
    ⟨hne, fun x hx => by simpa using List.mem_takeWhile_imp hx⟩
  conv_lhs => rw [← List.takeWhile_append_dropWhile (p := fun x => !p x) (l := xs)]
  cases hrest : xs.dropWhile fun x => !p x with
  | nil => rw [List.append_nil, hfirst.pieces_eq, pieces_nil]
  | cons x rest =>
    have hx : p x = true := by simpa using stops_of_dropWhile_eq_cons hrest
    rw [pieces_append_cons hx, hfirst.pieces_eq, pieces_cons hx, List.singleton_append]

theorem pieces_append {front : List α} (hfront : ∀ x ∈ front.getLast?, p x = true) (back : List α) :
    pieces p (front ++ back) = pieces p front ++ pieces p back := by
  obtain rfl | ⟨before, x, rfl⟩ := front.eq_nil_or_concat'
  · simp
  · have hx : p x = true := hfront x (by simp)
    rw [List.append_assoc, List.singleton_append, pieces_append_cons hx, pieces_append_cons hx,
      pieces_nil, List.append_nil]

/-- The pieces that have a separator behind them. -/
def closedPieces (p : α → Bool) (xs : List α) : List (List α) :=
  pieces p (xs.rdropWhile fun x => !p x)

theorem getLast?_rdropWhile (p : α → Bool) (xs : List α) :
    ∀ x ∈ (xs.rdropWhile fun x => !p x).getLast?, p x = true := by
  intro x hx
  obtain ⟨hne, rfl⟩ := List.mem_getLast?_eq_getLast hx
  simpa using List.rdropWhile_last_not (fun x => !p x) xs hne

theorem pieces_eq_closedPieces (p : α → Bool) (xs : List α) :
    pieces p xs = closedPieces p xs ++ pieces p (xs.rtakeWhile fun x => !p x) := by
  rw [closedPieces, ← pieces_append (getLast?_rdropWhile p xs), List.rdropWhile_append_rtakeWhile]

theorem separator_free_rtakeWhile (p : α → Bool) (xs : List α) :
    ∀ x ∈ xs.rtakeWhile fun x => !p x, p x = false := by
  intro x hx
  simpa using List.mem_rtakeWhile_imp hx

theorem closedPieces_isPrefix {xs ys : List α} (h : xs <+: ys) : closedPieces p xs <+: pieces p ys := by
  obtain ⟨more, rfl⟩ := h
  conv_rhs => rw [← List.rdropWhile_append_rtakeWhile (p := fun x => !p x) (l := xs)]
  rw [List.append_assoc, pieces_append (getLast?_rdropWhile p xs)]
  exact List.prefix_append _ _

theorem isPrefix_dropLast {xs ys : List α} (h : xs <+: ys) (hproper : xs ≠ ys) : xs <+: ys.dropLast := by
  obtain rfl | ⟨front, last, rfl⟩ := ys.eq_nil_or_concat'
  · exact absurd (List.prefix_nil.mp h) hproper
  · rw [List.dropLast_concat]
    exact (List.prefix_concat_iff.mp h).resolve_left hproper

/-- All pieces but the last have a separator behind them. -/
theorem dropLast_pieces_isPrefix (p : α → Bool) (xs : List α) : (pieces p xs).dropLast <+: closedPieces p xs := by
  rw [pieces_eq_closedPieces]
  by_cases hlast : (xs.rtakeWhile fun x => !p x) = []
  · rw [hlast, pieces_nil, List.append_nil]
    exact List.dropLast_prefix _
  · have hpiece : IsPiece p (xs.rtakeWhile fun x => !p x) := ⟨hlast, separator_free_rtakeWhile p xs⟩
    simp only [hpiece.pieces_eq, List.dropLast_concat, List.prefix_rfl]

theorem pieces_concat_pos {x : α} (hx : p x = true) (xs : List α) : pieces p (xs ++ [x]) = pieces p xs := by
  rw [pieces_append_cons hx, pieces_nil, List.append_nil]

theorem closedPieces_concat_neg {x : α} (hx : p x = false) (xs : List α) :
    closedPieces p (xs ++ [x]) = closedPieces p xs := by
  rw [closedPieces, List.rdropWhile_concat_pos _ _ _ (by simp [hx]), closedPieces]

/-- One more symbol goes into the last piece, or is one. -/
theorem pieces_concat_neg {x : α} (hx : p x = false) (xs : List α) :
    pieces p (xs ++ [x]) = closedPieces p xs ++ [(xs.rtakeWhile fun x => !p x) ++ [x]] := by
  have hpiece : IsPiece p ((xs.rtakeWhile fun x => !p x) ++ [x]) := by
    refine ⟨by simp, fun y hy => ?_⟩
    rw [List.mem_append, List.mem_singleton] at hy
    obtain hy | rfl := hy
    · exact separator_free_rtakeWhile p xs y hy
    · exact hx
  rw [pieces_eq_closedPieces, closedPieces_concat_neg hx, List.rtakeWhile_concat_pos _ _ _ (by simp [hx]),
    hpiece.pieces_eq]

theorem length_pieces_le {xs ys : List α} (h : xs <+: ys) : (pieces p xs).length ≤ (pieces p ys).length := by
  obtain ⟨more, rfl⟩ := h
  induction more using List.reverseRecOn with
  | nil => simp
  | append_singleton more x ih =>
    rw [← List.append_assoc]
    refine Nat.le_trans ih ?_
    cases hx : p x with
    | true => rw [pieces_concat_pos hx]
    | false =>
      have hbegins := (dropLast_pieces_isPrefix p (xs ++ more)).length_le
      rw [List.length_dropLast] at hbegins
      rw [pieces_concat_neg hx, List.length_append, List.length_singleton]
      omega

theorem intercalate_concat {separator last : List α} {firsts : List (List α)} (hne : firsts ≠ []) :
    separator.intercalate (firsts ++ [last]) = separator.intercalate firsts ++ separator ++ last := by
  induction firsts with
  | nil => exact absurd rfl hne
  | cons first rest ih =>
    cases rest with
    | nil => simp [List.intercalate_cons_cons]
    | cons second rest =>
      have hrest := ih (List.cons_ne_nil second rest)
      rw [List.cons_append, List.intercalate_cons_of_ne_nil (by simp), hrest,
        List.intercalate_cons_of_ne_nil (List.cons_ne_nil second rest)]
      simp only [List.append_assoc]

/-- Pieces that are joined by a separator are the pieces of the whole. -/
theorem pieces_intercalate {x : α} (hx : p x = true) {ls : List (List α)}
    (hls : ∀ piece ∈ ls, IsPiece p piece) : pieces p ([x].intercalate ls) = ls := by
  induction ls with
  | nil => exact pieces_nil
  | cons piece rest ih =>
    have hpiece := hls piece List.mem_cons_self
    cases rest with
    | nil => rw [List.intercalate_singleton, hpiece.pieces_eq]
    | cons second rest =>
      have hrest := ih fun other hother => hls other (List.mem_cons_of_mem _ hother)
      rw [List.intercalate_cons_cons, List.append_assoc, List.singleton_append,
        pieces_append_cons hx, hpiece.pieces_eq, hrest, List.singleton_append]

/-- A joined list of pieces ends in something that is not a separator. -/
theorem getLast?_intercalate {x y : α} {ls : List (List α)}
    (hls : ∀ piece ∈ ls, IsPiece p piece) (hy : ([x].intercalate ls).getLast? = some y) :
    p y = false := by
  obtain rfl | ⟨firsts, last, rfl⟩ := ls.eq_nil_or_concat'
  · simp at hy
  · have hlast := hls last (by simp)
    suffices hmem : y ∈ last from hlast.separator_free y hmem
    by_cases hfirsts : firsts = []
    · subst hfirsts
      exact List.mem_of_getLast? (by simpa using hy)
    · rw [intercalate_concat hfirsts, List.getLast?_append_of_ne_nil _ hlast.ne_nil] at hy
      exact List.mem_of_getLast? hy

theorem intercalate_ne_nil {x : α} {ls : List (List α)} (hls : ∀ piece ∈ ls, IsPiece p piece)
    (hne : ls ≠ []) : [x].intercalate ls ≠ [] := by
  cases ls with
  | nil => exact absurd rfl hne
  | cons piece rest =>
    have hpiece := (hls piece List.mem_cons_self).ne_nil
    cases rest with
    | nil => rwa [List.intercalate_singleton]
    | cons second rest => simp [List.intercalate_cons_cons]

end Lib
