import HostArduino.Lib.Search

namespace Lib

universe u

variable {α : Type u} {mark : List α}

/-- A text that a mark put behind it ends, and not earlier. -/
def Free (mark front : List α) : Prop :=
  FirstAt mark (front ++ mark) front.length

/-- What stands behind a mark does not move its first place. -/
theorem free_iff_firstAt {front : List α} (back : List α) :
    Free mark front ↔ FirstAt mark (front ++ (mark ++ back)) front.length := by
  have hsame : ∀ b < front.length, OccursAt mark (front ++ (mark ++ back)) b ↔ OccursAt mark (front ++ mark) b := by
    intro b hb
    have hdrop : (front ++ (mark ++ back)).drop b = (front ++ mark).drop b ++ back := by
      rw [← List.append_assoc, List.drop_append_of_le_length]
      rw [List.length_append]
      omega
    rw [OccursAt, OccursAt, hdrop]
    constructor
    · intro hpre
      refine List.prefix_of_prefix_length_le hpre (List.prefix_append _ _) ?_
      rw [List.length_drop, List.length_append]
      omega
    · exact fun hpre => hpre.trans (List.prefix_append _ _)
  constructor
  · intro hfree
    refine ⟨?_, fun b hb hoccurs => hfree.first b hb ((hsame b hb).mp hoccurs)⟩
    rw [OccursAt, List.drop_left]
    exact List.prefix_append _ _
  · intro hfirst
    refine ⟨?_, fun b hb hoccurs => hfirst.first b hb ((hsame b hb).mpr hoccurs)⟩
    rw [OccursAt, List.drop_left]

theorem free_nil : Free mark [] :=
  (firstAt_of_isPrefix (List.prefix_refl mark)).mpr rfl

/-- No end of a mark begins it again, so no two of its places overlap. -/
def Unbordered (mark : List α) : Prop :=
  ∀ i < mark.length, mark.drop i <+: mark → i = 0

theorem OccursAt.infix_left {front back : List α} {a : Nat} (h : OccursAt mark (front ++ back) a)
    (hend : a + mark.length ≤ front.length) : mark <:+: front := by
  rw [OccursAt, List.drop_append_of_le_length (by omega)] at h
  refine infix_iff_occursAt.mpr ⟨a, List.prefix_of_prefix_length_le h (List.prefix_append _ _) ?_⟩
  rw [List.length_drop]
  omega

/-- A text is ended by a mark exactly if it does not hold it. -/
theorem free_iff (hne : mark ≠ []) (hmark : Unbordered mark) {front : List α} :
    Free mark front ↔ ¬mark <:+: front := by
  have hpos := List.length_pos_iff.mpr hne
  constructor
  · intro hfree hwithin
    obtain ⟨a, ha⟩ := infix_iff_occursAt.mp hwithin
    have hend := ha.end_le hne
    exact hfree.first a (by omega) (ha.mono (List.prefix_append _ _))
  · intro hwithin
    refine ⟨by rw [OccursAt, List.drop_left], fun b hb hoccurs => ?_⟩
    by_cases hend : b + mark.length ≤ front.length
    · exact hwithin (hoccurs.infix_left hend)
    · -- The place reaches into the mark behind the text, which then ends as it begins.
      obtain ⟨rest, hrest⟩ := hoccurs
      have htail := congrArg (List.drop (front.length - b)) hrest
      rw [List.drop_append_of_le_length (by omega), List.drop_append_of_le_length (by omega),
        List.drop_left' (List.length_drop)] at htail
      have hzero := hmark (front.length - b) (by omega) ⟨rest, htail⟩
      omega

/-- What shares nothing with a mark keeps the places on its two sides apart. -/
theorem infix_append_iff {front sep back : List α} (hmark : mark ≠ []) (hsep : sep ≠ [])
    (hfresh : ∀ x ∈ sep, x ∉ mark) :
    mark <:+: front ++ (sep ++ back) ↔ mark <:+: front ∨ mark <:+: back := by
  have hpos := List.length_pos_iff.mpr hmark
  have hsepPos := List.length_pos_iff.mpr hsep
  constructor
  · intro hwithin
    obtain ⟨a, ha⟩ := infix_iff_occursAt.mp hwithin
    by_cases hleft : a + mark.length ≤ front.length
    · exact Or.inl (ha.infix_left hleft)
    by_cases hright : front.length + sep.length ≤ a
    · refine Or.inr (infix_iff_occursAt.mpr ⟨a - (front ++ sep).length, ?_⟩)
      have hlength : (front ++ sep).length ≤ a := by rwa [List.length_append]
      rwa [OccursAt, ← List.append_assoc, List.drop_append, List.drop_of_length_le hlength,
        List.nil_append] at ha
    · -- Between the two sides the mark would hold a symbol that is not its own.
      have hi : max a front.length - a < mark.length := by omega
      have hj : max a front.length - front.length < sep.length := by omega
      have hx := ha.getElem? (List.getElem?_eq_getElem hi)
      rw [List.getElem?_append_right (by omega), List.getElem?_append_left (by omega),
        List.getElem?_eq_some_iff] at hx
      obtain ⟨_, hx⟩ := hx
      exact absurd (List.getElem_mem hi) (hfresh _ (hx ▸ List.getElem_mem _))
  · rintro (hfront | hback)
    · exact hfront.trans (List.prefix_append _ _).isInfix
    · exact hback.trans ((List.suffix_append _ _).trans (List.suffix_append _ _)).isInfix

theorem unbordered_pair {x y : α} (hxy : x ≠ y) : Unbordered [x, y] := by
  intro i hi hborder
  match i with
  | 0 => rfl
  | 1 => exact absurd (List.cons_prefix_cons.mp hborder).1.symm hxy

variable [DecidableEq α]

/-- The text before the first mark and that behind it. -/
def cut (mark : List α) : List α → Option (List α × List α)
  | [] => if mark = [] then some ([], []) else none
  | c :: s =>
    if mark.isPrefixOf (c :: s) then some ([], (c :: s).drop mark.length)
    else (cut mark s).map fun parts => (c :: parts.1, parts.2)

theorem cut_firstAt (hmark : mark ≠ []) {s front back : List α} :
    cut mark s = some (front, back) ↔ s = front ++ (mark ++ back) ∧ FirstAt mark s front.length := by
  induction s generalizing front with
  | nil =>
    rw [cut, if_neg hmark]
    refine iff_of_false nofun fun h => hmark ?_
    have hparts := List.append_eq_nil_iff.mp h.1.symm
    exact (List.append_eq_nil_iff.mp hparts.2).1
  | cons c s ih =>
    rw [cut]
    by_cases hbegins : mark <+: c :: s
    · rw [if_pos (List.isPrefixOf_iff_prefix.mpr hbegins), firstAt_of_isPrefix hbegins]
      constructor
      · intro h
        obtain ⟨rfl, rfl⟩ := Prod.mk.inj (Option.some.inj h)
        exact ⟨(List.prefix_iff_eq_append.mp hbegins).symm, rfl⟩
      · rintro ⟨hs, hfront⟩
        obtain rfl := List.eq_nil_of_length_eq_zero hfront
        rw [hs, List.nil_append, List.drop_left]
    · rw [if_neg (by rwa [List.isPrefixOf_iff_prefix]), firstAt_cons hbegins]
      constructor
      · intro h
        obtain ⟨⟨front, back⟩, hcut, heq⟩ := Option.map_eq_some_iff.mp h
        obtain ⟨rfl, rfl⟩ := Prod.mk.inj heq
        obtain ⟨hs, hfirst⟩ := ih.mp hcut
        exact ⟨by rw [List.cons_append, ← hs], front.length, hfirst, rfl⟩
      · rintro ⟨hs, i, hfirst, hi⟩
        cases front with
        | nil => cases hi
        | cons d front =>
          obtain ⟨rfl, htail⟩ := List.cons.inj hs
          rw [ih.mpr ⟨htail, by rwa [← Nat.succ.inj hi]⟩, Option.map_some]

/-- A text is cut exactly at the mark that ends its first part. -/
theorem cut_eq_some_iff (hmark : mark ≠ []) {s front back : List α} :
    cut mark s = some (front, back) ↔ s = front ++ (mark ++ back) ∧ Free mark front := by
  rw [cut_firstAt hmark]
  constructor
  · rintro ⟨rfl, hfirst⟩
    exact ⟨rfl, (free_iff_firstAt back).mpr hfirst⟩
  · rintro ⟨rfl, hfree⟩
    exact ⟨rfl, (free_iff_firstAt back).mp hfree⟩

theorem length_cut (hmark : mark ≠ []) {s front back : List α} (h : cut mark s = some (front, back)) :
    back.length < s.length := by
  obtain ⟨rfl, -⟩ := (cut_eq_some_iff hmark).mp h
  have hpos := List.length_pos_iff.mpr hmark
  simp only [List.length_append]
  omega

/-- The lines of a text up to the first empty one, and what stands behind that. -/
def lines (hmark : mark ≠ []) (s : List α) : Option (List (List α) × List α) :=
  match _hcut : cut mark s with
  | none => none
  | some ([], back) => some ([], back)
  | some (c :: line, back) => (lines hmark back).map fun parts => ((c :: line) :: parts.1, parts.2)
termination_by s.length
decreasing_by exact length_cut hmark _hcut

theorem lines_eq_some_iff (hmark : mark ≠ []) {s back : List α} {ls : List (List α)} :
    lines hmark s = some (ls, back) ↔
      s = ls.flatMap (· ++ mark) ++ (mark ++ back) ∧ ∀ line ∈ ls, line ≠ [] ∧ Free mark line := by
  constructor
  · intro h
    fun_induction lines hmark s generalizing ls with
    | case1 s hcut => cases h
    | case2 s rest hcut =>
      obtain ⟨rfl, rfl⟩ := Prod.mk.inj (Option.some.inj h)
      exact ⟨((cut_eq_some_iff hmark).mp hcut).1, by simp⟩
    | case3 s c line rest hcut ih =>
      obtain ⟨⟨ls, last⟩, hlines, heq⟩ := Option.map_eq_some_iff.mp h
      obtain ⟨rfl, rfl⟩ := Prod.mk.inj heq
      obtain ⟨hs, hfree⟩ := (cut_eq_some_iff hmark).mp hcut
      obtain ⟨hrest, hls⟩ := ih hlines
      refine ⟨?_, List.forall_mem_cons.mpr ⟨⟨List.cons_ne_nil c line, hfree⟩, hls⟩⟩
      rw [List.flatMap_cons, hs, hrest]
      simp only [List.append_assoc]
  · rintro ⟨rfl, hls⟩
    induction ls with
    | nil =>
      have hcut : cut mark (mark ++ back) = some ([], back) := (cut_eq_some_iff hmark).mpr ⟨rfl, free_nil⟩
      rw [List.flatMap_nil, List.nil_append, lines]
      split
      · rename_i hnone
        rw [hcut] at hnone
        cases hnone
      · rename_i rest hsome
        rw [hcut] at hsome
        obtain ⟨-, rfl⟩ := Prod.mk.inj (Option.some.inj hsome)
        rfl
      · rename_i c line rest hsome
        rw [hcut] at hsome
        cases (Prod.mk.inj (Option.some.inj hsome)).1
    | cons line ls ih =>
      obtain ⟨⟨hne, hfree⟩, hrest⟩ := List.forall_mem_cons.mp hls
      have hcut : cut mark ((line :: ls).flatMap (· ++ mark) ++ (mark ++ back)) =
          some (line, ls.flatMap (· ++ mark) ++ (mark ++ back)) := by
        refine (cut_eq_some_iff hmark).mpr ⟨?_, hfree⟩
        simp only [List.flatMap_cons, List.append_assoc]
      rw [lines]
      split
      · rename_i hnone
        rw [hcut] at hnone
        cases hnone
      · rename_i rest hsome
        rw [hcut] at hsome
        exact absurd (Prod.mk.inj (Option.some.inj hsome)).1 hne
      · rename_i c line' rest hsome
        rw [hcut] at hsome
        obtain ⟨rfl, rfl⟩ := Prod.mk.inj (Option.some.inj hsome)
        rw [ih hrest, Option.map_some]

end Lib
