import Mathlib.Data.List.Chain
import Mathlib.Data.List.TakeWhile

namespace Lib

universe u

variable {α : Type u}

/-- What is left of a list that goes through a stage piece by piece, when a piece passes
    only up to its first element without `p`. -/
def Staged (p : α → Bool) (data kept : List α) : Prop :=
  ∃ pieces : List (List α), pieces.flatten = data ∧ pieces.flatMap (·.takeWhile p) = kept

/-- Behind an element without `p` there are only elements without it. -/
def StopsLast (p : α → Bool) (data : List α) : Prop :=
  data.IsChain fun x y => p x = false → p y = false

variable {p : α → Bool} {data kept more rest : List α}

theorem Staged.nil : Staged p [] [] :=
  ⟨[], rfl, rfl⟩

theorem Staged.piece (p : α → Bool) (data : List α) : Staged p data (data.takeWhile p) :=
  ⟨[data], by simp, by simp⟩

theorem Staged.append (h : Staged p data kept) (h' : Staged p more rest) :
    Staged p (data ++ more) (kept ++ rest) := by
  obtain ⟨pieces, rfl, rfl⟩ := h
  obtain ⟨pieces', rfl, rfl⟩ := h'
  exact ⟨pieces ++ pieces', List.flatten_append, List.flatMap_append⟩

theorem length_takeWhile_le_filter (p : α → Bool) (xs : List α) :
    (xs.takeWhile p).length ≤ (xs.filter p).length := by
  have hprefix : (xs.takeWhile p).filter p = xs.takeWhile p :=
    List.filter_eq_self.mpr fun x hx => List.mem_takeWhile_imp hx
  rw [← hprefix]
  exact ((List.takeWhile_prefix p).sublist.filter p).length_le

/-- However the list is cut, nothing is added and nothing changes places. -/
theorem Staged.length_le (h : Staged p data kept) : kept.length ≤ (data.filter p).length := by
  obtain ⟨pieces, rfl, rfl⟩ := h
  induction pieces with
  | nil => exact Nat.le_refl _
  | cons piece pieces ih =>
    have hpiece := length_takeWhile_le_filter p piece
    rw [List.flatMap_cons, List.flatten_cons, List.filter_append, List.length_append, List.length_append]
    omega

theorem StopsLast.of_all (h : ∀ x ∈ data, p x = true) : StopsLast p data := by
  induction data with
  | nil => exact .nil
  | cons x xs ih =>
    refine List.isChain_cons.mpr ⟨fun y _ hx => ?_, ih fun y hy => h y (by simp [hy])⟩
    rw [h x (by simp)] at hx
    cases hx

theorem StopsLast.filter_eq_nil {x : α} {xs : List α} (h : StopsLast p (x :: xs)) (hx : p x = false) :
    (x :: xs).filter p = [] := by
  induction xs generalizing x with
  | nil => simp [hx]
  | cons y xs ih =>
    obtain ⟨hy, hrest⟩ := List.isChain_cons_cons.mp h
    rw [List.filter_cons_of_neg (by simp [hx])]
    exact ih hrest (hy hx)

theorem StopsLast.takeWhile_eq_filter (h : StopsLast p data) : data.takeWhile p = data.filter p := by
  induction data with
  | nil => rfl
  | cons x xs ih =>
    cases hx : p x with
    | true =>
      rw [List.takeWhile_cons_of_pos hx, List.filter_cons_of_pos hx, ih (List.isChain_cons.mp h).2]
    | false => rw [h.filter_eq_nil hx, List.takeWhile_cons_of_neg (by simp [hx])]

/-- Where the elements without `p` come last, they are all that is lost, however the list is cut. -/
theorem Staged.eq_filter (h : Staged p data kept) (hlast : StopsLast p data) : kept = data.filter p := by
  obtain ⟨pieces, rfl, rfl⟩ := h
  induction pieces with
  | nil => rfl
  | cons piece pieces ih =>
    rw [List.flatten_cons] at hlast
    have hpiece : StopsLast p piece := List.IsChain.left_of_append hlast
    rw [List.flatMap_cons, List.flatten_cons, List.filter_append, hpiece.takeWhile_eq_filter,
      ih (List.IsChain.right_of_append hlast)]

/-- Several lists that each go through the stage. -/
theorem staged_all_eq_filter {datas kepts : List (List α)} (h : List.Forall₂ (Staged p) datas kepts)
    (hlast : ∀ data ∈ datas, StopsLast p data) : kepts.flatten = datas.flatten.filter p := by
  induction h with
  | nil => rfl
  | @cons data kept datas kepts hdata hdatas ih =>
    rw [List.flatten_cons, List.flatten_cons, List.filter_append, hdata.eq_filter (hlast data (by simp)),
      ih fun d hd => hlast d (by simp [hd])]

theorem Staged.eq_self (h : Staged p data kept) (hall : ∀ x ∈ data, p x = true) : kept = data := by
  rw [h.eq_filter (.of_all hall), List.filter_eq_self.mpr hall]

/-- Cut into single elements. -/
def singles (data : List α) : List (List α) :=
  data.map fun x => [x]

theorem flatten_singles (data : List α) : (singles data).flatten = data := by
  induction data with
  | nil => rfl
  | cons x xs ih => exact congrArg (x :: ·) ih

theorem flatMap_singles (p : α → Bool) (data : List α) :
    (singles data).flatMap (·.takeWhile p) = data.filter p := by
  induction data with
  | nil => rfl
  | cons x xs ih =>
    change [x].takeWhile p ++ (singles xs).flatMap (·.takeWhile p) = _
    rw [ih]
    cases hx : p x with
    | true => simp [hx]
    | false => simp [hx]

theorem flatMap_singles_all (p : α → Bool) (datas : List (List α)) :
    (datas.flatMap fun data => (singles data).flatMap (·.takeWhile p)) = datas.flatten.filter p := by
  induction datas with
  | nil => rfl
  | cons data datas ih =>
    rw [List.flatMap_cons, List.flatten_cons, List.filter_append, flatMap_singles, ih]

/-- Cut into single elements, except that an element with `p` stays with one without it
    in front of it. -/
def pairs (p : α → Bool) : List α → List (List α)
  | [] => []
  | [x] => [[x]]
  | x :: y :: rest =>
    if p x = false ∧ p y = true then [x, y] :: pairs p rest else [x] :: pairs p (y :: rest)

theorem flatten_pairs (p : α → Bool) (data : List α) : (pairs p data).flatten = data := by
  fun_induction pairs p data with
  | case1 => rfl
  | case2 x => rfl
  | case3 x y rest hstop ih => exact congrArg (x :: y :: ·) ih
  | case4 x y rest hother ih => exact congrArg (x :: ·) ih

theorem staged_pairs (p : α → Bool) (data : List α) :
    Staged p data ((pairs p data).flatMap (·.takeWhile p)) :=
  ⟨pairs p data, flatten_pairs p data, rfl⟩

theorem mem_pairs {piece : List α} (hpiece : piece ∈ pairs p data) : piece ≠ [] ∧ piece.length ≤ 2 := by
  fun_induction pairs p data with
  | case1 => cases hpiece
  | case2 x =>
    rw [List.mem_singleton.mp hpiece]
    simp
  | case3 x y rest hstop ih =>
    obtain rfl | hpiece := List.mem_cons.mp hpiece
    · simp
    · exact ih hpiece
  | case4 x y rest hother ih =>
    obtain rfl | hpiece := List.mem_cons.mp hpiece
    · simp
    · exact ih hpiece

/-- Cut so, the list loses an element with `p` as soon as one stands behind one without it. -/
theorem stopsLast_of_pairs
    (h : ((pairs p data).flatMap (·.takeWhile p)).length = (data.filter p).length) : StopsLast p data := by
  fun_induction pairs p data with
  | case1 => exact .nil
  | case2 x => exact .singleton x
  | case3 x y rest hstop ih =>
    obtain ⟨hx, hy⟩ := hstop
    have hrest := (staged_pairs p rest).length_le
    rw [List.flatMap_cons, List.takeWhile_cons_of_neg (by simp [hx]), List.nil_append,
      List.filter_cons_of_neg (by simp [hx]), List.filter_cons_of_pos hy, List.length_cons] at h
    omega
  | case4 x y rest hother ih =>
    have hfirst := length_takeWhile_le_filter p [x]
    have hrest := (staged_pairs p (y :: rest)).length_le
    have hsplit : (x :: y :: rest).filter p = [x].filter p ++ (y :: rest).filter p :=
      List.filter_append [x] (y :: rest)
    rw [List.flatMap_cons, hsplit, List.length_append, List.length_append] at h
    refine List.isChain_cons_cons.mpr ⟨fun hx => ?_, ih (by omega)⟩
    cases hy : p y with
    | false => rfl
    | true => exact absurd ⟨hx, hy⟩ hother

theorem length_pairs_all_le (p : α → Bool) (datas : List (List α)) :
    (datas.flatMap fun data => (pairs p data).flatMap (·.takeWhile p)).length ≤
      (datas.flatten.filter p).length := by
  induction datas with
  | nil => exact Nat.le_refl _
  | cons data datas ih =>
    have hdata := (staged_pairs p data).length_le
    rw [List.flatMap_cons, List.flatten_cons, List.filter_append, List.length_append, List.length_append]
    omega

theorem stopsLast_of_pairs_all {datas : List (List α)}
    (h : (datas.flatMap fun data => (pairs p data).flatMap (·.takeWhile p)).length =
      (datas.flatten.filter p).length) : ∀ data ∈ datas, StopsLast p data := by
  induction datas with
  | nil => simp
  | cons data datas ih =>
    have hdata := (staged_pairs p data).length_le
    have hdatas := length_pairs_all_le p datas
    rw [List.flatMap_cons, List.flatten_cons, List.filter_append, List.length_append,
      List.length_append] at h
    intro d hd
    obtain rfl | hd := List.mem_cons.mp hd
    · exact stopsLast_of_pairs (by omega)
    · exact ih (by omega) d hd

end Lib
