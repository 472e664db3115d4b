import Mathlib.Data.List.Infix

namespace Lib

universe u v

section Matcher

variable {α : Type u} {β : Type v} (same : β → α → Bool)

/-- How many symbols of the pattern the text begins with. -/
def matched : List α → List β → Nat
  | x :: p, c :: s => if same c x then matched p s + 1 else 0
  | _, _ => 0

/-- One step of a search that keeps a single index into its pattern: `none` is a whole
    pattern seen, and after a mismatch the symbol can only be the pattern's first. -/
def advance (p : List α) (i : Nat) (c : β) : Option Nat :=
  if p[i]?.any (same c) then
    if i + 1 = p.length then none else some (i + 1)
  else some (if p[0]?.any (same c) then 1 else 0)

/-- The positions at which that search starts an attempt: after a failed attempt it goes
    on where the attempt broke off, at least one symbol further. -/
inductive Tried (p : List α) (s : List β) : Nat → Prop
  | start : Tried p s 0
  | next {a : Nat} (ha : Tried p s a) (hfail : matched same p (s.drop a) < p.length) :
      Tried p s (a + max 1 (matched same p (s.drop a)))

/-- The search completes its pattern with the attempt that starts at `a`. -/
structure Completes (p : List α) (s : List β) (a : Nat) : Prop where
  tried : Tried same p s a
  complete : matched same p (s.drop a) = p.length

/-- The search stands at `n` with index `i`: its current attempt has matched the last
    `i` symbols and is not complete. -/
structure Searching (p : List α) (s : List β) (n i a : Nat) : Prop where
  position : n = a + i
  tried : Tried same p s a
  index_le : i ≤ matched same p (s.drop a)
  index_lt : i < p.length

variable {same} {p : List α} {s : List β}

theorem matched_le_length (p : List α) (s : List β) : matched same p s ≤ p.length := by
  fun_induction matched same p s with
  | case1 x p c s hsame ih => exact Nat.succ_le_succ ih
  | case2 => exact Nat.zero_le _
  | case3 => exact Nat.zero_le _

theorem matched_le_text (p : List α) (s : List β) : matched same p s ≤ s.length := by
  fun_induction matched same p s with
  | case1 x p c s hsame ih => exact Nat.succ_le_succ ih
  | case2 => exact Nat.zero_le _
  | case3 => exact Nat.zero_le _

/-- What a match has got to, the next symbol takes one further. -/
theorem succ_le_matched {i : Nat} {c : β} (hi : i ≤ matched same p s) (hc : s[i]? = some c)
    (hsame : p[i]?.any (same c) = true) : i + 1 ≤ matched same p s := by
  induction i generalizing p s with
  | zero =>
    cases p with
    | nil => simp at hsame
    | cons x p =>
      cases s with
      | nil => simp at hc
      | cons d s =>
        obtain rfl : d = c := by simpa using hc
        have hx : same d x = true := by simpa using hsame
        simp [matched, hx]
  | succ i ih =>
    cases p with
    | nil => simp at hsame
    | cons x p =>
      cases s with
      | nil => simp at hc
      | cons d s =>
        by_cases hx : same d x = true
        · simp only [matched, if_pos hx] at hi ⊢
          exact Nat.succ_le_succ (ih (Nat.le_of_succ_le_succ hi) (by simpa using hc) (by simpa using hsame))
        · simp [matched, hx] at hi

/-- A match that the next symbol does not continue has got no further. -/
theorem matched_eq_of_mismatch {i : Nat} {c : β} (hi : i ≤ matched same p s) (hc : s[i]? = some c)
    (hdiff : ¬p[i]?.any (same c) = true) : matched same p s = i := by
  induction i generalizing p s with
  | zero =>
    cases p with
    | nil => rfl
    | cons x p =>
      cases s with
      | nil => rfl
      | cons d s =>
        obtain rfl : d = c := by simpa using hc
        have hx : ¬same d x = true := by simpa using hdiff
        simp [matched, hx]
  | succ i ih =>
    cases p with
    | nil => simp [matched] at hi
    | cons x p =>
      cases s with
      | nil => simp [matched] at hi
      | cons d s =>
        by_cases hx : same d x = true
        · simp only [matched, if_pos hx] at hi ⊢
          rw [ih (Nat.le_of_succ_le_succ hi) (by simpa using hc) (by simpa using hdiff)]
        · simp [matched, hx] at hi

theorem exists_of_lt_matched {i : Nat} (h : i < matched same p s) :
    ∃ c x, s[i]? = some c ∧ p[i]? = some x ∧ same c x = true := by
  fun_induction matched same p s generalizing i with
  | case1 x p c s hsame ih =>
    cases i with
    | zero => exact ⟨c, x, rfl, rfl, hsame⟩
    | succ i => exact ih (Nat.lt_of_succ_lt_succ h)
  | case2 => exact absurd h (Nat.not_lt_zero _)
  | case3 => exact absurd h (Nat.not_lt_zero _)

/-- Of two attempts the earlier has failed, and broke off no later than the other starts. -/
theorem Tried.lt_cases {a b : Nat} (ha : Tried same p s a) (hb : Tried same p s b) (hlt : b < a) :
    matched same p (s.drop b) < p.length ∧ b + max 1 (matched same p (s.drop b)) ≤ a := by
  induction a using Nat.strongRecOn generalizing b with
  | ind a ih =>
    cases ha with
    | start => exact absurd hlt (Nat.not_lt_zero _)
    | @next a' ha' hfail =>
      obtain hba | rfl | hab := Nat.lt_trichotomy b a'
      · obtain ⟨hfailed, hle⟩ := ih a' (by omega) ha' hb hba
        exact ⟨hfailed, by omega⟩
      · exact ⟨hfail, Nat.le_refl _⟩
      · have hnext := (ih b hlt hb ha' hab).2
        omega

theorem Completes.unique {a b : Nat} (ha : Completes same p s a) (hb : Completes same p s b) : a = b := by
  obtain hlt | heq | hgt := Nat.lt_trichotomy a b
  · have hfailed := (hb.tried.lt_cases ha.tried hlt).1
    rw [ha.complete] at hfailed
    omega
  · exact heq
  · have hfailed := (ha.tried.lt_cases hb.tried hgt).1
    rw [hb.complete] at hfailed
    omega

theorem Completes.end_le {a : Nat} (h : Completes same p s a) (hp : p ≠ []) :
    a + p.length ≤ s.length := by
  have hle : matched same p (s.drop a) ≤ (s.drop a).length := matched_le_text p _
  have hpos := List.length_pos_iff.mpr hp
  rw [h.complete, List.length_drop] at hle
  omega

theorem searching_start (hp : p ≠ []) (s : List β) : Searching same p s 0 0 0 :=
  ⟨rfl, .start, Nat.zero_le _, List.length_pos_iff.mpr hp⟩

/-- While the search goes on no attempt has completed the pattern. -/
theorem Searching.lt_end {n i a b : Nat} (h : Searching same p s n i a)
    (hb : Completes same p s b) : n < b + p.length := by
  have hposition := h.position
  have hindex := h.index_lt
  by_cases hlt : b < a
  · have hfailed := (h.tried.lt_cases hb.tried hlt).1
    rw [hb.complete] at hfailed
    omega
  · omega

/-- One symbol either completes the pattern or leaves the search going. -/
theorem Searching.step {n i a : Nat} {c : β} (h : Searching same p s n i a) (hc : s[n]? = some c) :
    (advance same p i c = none ∧ ∃ b, Completes same p s b ∧ n + 1 = b + p.length) ∨
      ∃ i' a', advance same p i c = some i' ∧ Searching same p s (n + 1) i' a' := by
  obtain ⟨rfl, htried, hle, hlt⟩ := h
  have hdrop : (s.drop a)[i]? = some c := by rw [List.getElem?_drop, hc]
  unfold advance
  by_cases hsame : p[i]?.any (same c) = true
  · have hgrown := succ_le_matched hle hdrop hsame
    rw [if_pos hsame]
    by_cases hlast : i + 1 = p.length
    · rw [if_pos hlast]
      have hbound : matched same p (s.drop a) ≤ p.length := matched_le_length p _
      exact .inl ⟨rfl, a, ⟨htried, by omega⟩, by omega⟩
    · rw [if_neg hlast]
      exact .inr ⟨i + 1, a, rfl, by omega, htried, hgrown, by omega⟩
  · have hmatched := matched_eq_of_mismatch hle hdrop hsame
    have hnext := htried.next (hmatched.symm ▸ hlt)
    rw [hmatched] at hnext
    rw [if_neg hsame]
    refine .inr ?_
    cases i with
    | zero =>
      rw [if_neg hsame]
      exact ⟨0, a + 1, rfl, rfl, hnext, Nat.zero_le _, hlt⟩
    | succ i =>
      -- The symbol that broke the attempt off is where the next one starts.
      have hhere : Tried same p s (a + (i + 1)) := by rwa [Nat.max_eq_right (by omega)] at hnext
      have hfirst : (s.drop (a + (i + 1)))[0]? = some c := by rw [List.getElem?_drop, Nat.add_zero, hc]
      by_cases hhead : p[0]?.any (same c) = true
      · rw [if_pos hhead]
        exact ⟨1, a + (i + 1), rfl, rfl, hhere, succ_le_matched (Nat.zero_le _) hfirst hhead, by omega⟩
      · rw [if_neg hhead]
        have hnone := matched_eq_of_mismatch (Nat.zero_le _) hfirst hhead
        have hskip := hhere.next (hnone.symm ▸ Nat.zero_lt_of_lt hlt)
        rw [hnone, Nat.max_eq_left (by omega)] at hskip
        exact ⟨0, a + (i + 1) + 1, rfl, rfl, hskip, Nat.zero_le _, Nat.zero_lt_of_lt hlt⟩

end Matcher

section Occurrence

variable {α : Type u}

/-- The pattern stands in the text at `a`. -/
def OccursAt (p s : List α) (a : Nat) : Prop :=
  p <+: s.drop a

/-- It stands at `a` and nowhere before. -/
structure FirstAt (p s : List α) (a : Nat) : Prop where
  occurs : OccursAt p s a
  first : ∀ b < a, ¬OccursAt p s b

variable {same : α → α → Bool} {p s : List α}

theorem OccursAt.end_le {a : Nat} (h : OccursAt p s a) (hp : p ≠ []) : a + p.length ≤ s.length := by
  have hle := h.length_le
  have hpos := List.length_pos_iff.mpr hp
  rw [List.length_drop] at hle
  omega

theorem exists_firstAt {a : Nat} (h : OccursAt p s a) : ∃ b ≤ a, FirstAt p s b := by
  induction a using Nat.strongRecOn with
  | ind a ih =>
    by_cases hearlier : ∃ b < a, OccursAt p s b
    · obtain ⟨b, hlt, hb⟩ := hearlier
      obtain ⟨first, hle, hfirst⟩ := ih b hlt hb
      exact ⟨first, by omega, hfirst⟩
    · exact ⟨a, Nat.le_refl a, h, fun b hlt hb => hearlier ⟨b, hlt, hb⟩⟩

theorem FirstAt.unique {a b : Nat} (ha : FirstAt p s a) (hb : FirstAt p s b) : a = b := by
  obtain hlt | heq | hgt := Nat.lt_trichotomy a b
  · exact absurd ha.occurs (hb.first a hlt)
  · exact heq
  · exact absurd hb.occurs (ha.first b hgt)

theorem firstAt_of_isPrefix (hbegins : p <+: s) {i : Nat} : FirstAt p s i ↔ i = 0 := by
  constructor
  · intro hfirst
    by_contra hpos
    exact hfirst.first 0 (Nat.pos_of_ne_zero hpos) hbegins
  · rintro rfl
    exact ⟨hbegins, fun b hlt => absurd hlt (Nat.not_lt_zero b)⟩

theorem firstAt_cons {c : α} (hbegins : ¬p <+: c :: s) {i : Nat} :
    FirstAt p (c :: s) i ↔ ∃ j, FirstAt p s j ∧ j + 1 = i := by
  constructor
  · intro hfirst
    cases i with
    | zero => exact absurd hfirst.occurs hbegins
    | succ i => exact ⟨i, ⟨hfirst.occurs, fun b hlt hb => hfirst.first (b + 1) (by omega) hb⟩, rfl⟩
  · rintro ⟨i, hfirst, rfl⟩
    refine ⟨hfirst.occurs, fun b hlt hb => ?_⟩
    cases b with
    | zero => exact hbegins hb
    | succ b => exact hfirst.first b (by omega) hb

theorem OccursAt.mono {a : Nat} {t : List α} (h : OccursAt p s a) (hbegins : s <+: t) : OccursAt p t a :=
  List.IsPrefix.trans h (hbegins.drop a)

theorem OccursAt.getElem? {a i : Nat} {x : α} (h : OccursAt p s a) (hx : p[i]? = some x) :
    s[a + i]? = some x := by
  obtain ⟨rest, hrest⟩ := h
  obtain ⟨hi, -⟩ := List.getElem?_eq_some_iff.mp hx
  rw [← List.getElem?_drop, ← hrest, List.getElem?_append_left hi, hx]

/-- A pattern cannot stand before its place if one of its symbols has not come before. -/
theorem OccursAt.length_le {a i : Nat} {x : α} {front back : List α} (h : OccursAt p (front ++ (p ++ back)) a)
    (hx : p[i]? = some x) (hfresh : x ∉ front ++ p.take i) : front.length ≤ a := by
  by_contra hlt
  obtain ⟨hi, -⟩ := List.getElem?_eq_some_iff.mp hx
  have hhere := h.getElem? hx
  have hinside : a + i < (front ++ p.take i).length := by
    rw [List.length_append, List.length_take]
    omega
  have hsplit : front ++ (p ++ back) = (front ++ p.take i) ++ (p.drop i ++ back) := by
    rw [List.append_assoc, ← List.append_assoc (p.take i), List.take_append_drop]
  rw [hsplit, List.getElem?_append_left hinside] at hhere
  exact hfresh (List.mem_of_getElem? hhere)

theorem firstAt_append {i : Nat} {x : α} {front : List α} (hx : p[i]? = some x) (hfresh : x ∉ front ++ p.take i)
    (back : List α) : FirstAt p (front ++ (p ++ back)) front.length := by
  refine ⟨?_, fun b hlt hb => absurd (hb.length_le hx hfresh) (Nat.not_le_of_lt hlt)⟩
  rw [OccursAt, List.drop_left]
  exact List.prefix_append _ _

theorem infix_iff_occursAt : p <:+: s ↔ ∃ a, OccursAt p s a := by
  constructor
  · rintro ⟨front, back, rfl⟩
    refine ⟨front.length, ?_⟩
    rw [OccursAt, List.append_assoc, List.drop_left]
    exact List.prefix_append _ _
  · rintro ⟨a, ha⟩
    exact (List.IsPrefix.isInfix ha).trans (List.drop_suffix a s).isInfix

theorem isPrefix_of_matched (hsame : ∀ c x, same c x = true → c = x)
    (h : matched same p s = p.length) : p <+: s := by
  induction p generalizing s with
  | nil => exact List.nil_prefix
  | cons x p ih =>
    cases s with
    | nil => simp [matched] at h
    | cons c s =>
      by_cases hx : same c x = true
      · rw [matched, if_pos hx] at h
        rw [hsame c x hx]
        exact List.cons_prefix_cons.mpr ⟨rfl, ih (Nat.succ.inj h)⟩
      · simp [matched, hx] at h

theorem matched_of_isPrefix (hsame : ∀ x ∈ p, same x x = true) (h : p <+: s) :
    matched same p s = p.length := by
  induction p generalizing s with
  | nil => rfl
  | cons x p ih =>
    obtain ⟨t, rfl⟩ := h
    have hrest := ih (fun y hy => hsame y (List.mem_cons_of_mem x hy)) (List.prefix_append p t)
    rw [List.cons_append, matched, if_pos (hsame x List.mem_cons_self), hrest, List.length_cons]

theorem Completes.occursAt (hsame : ∀ c x, same c x = true → c = x) {a : Nat}
    (h : Completes same p s a) : OccursAt p s a :=
  isPrefix_of_matched hsame h.complete

/-- A pattern whose first symbol does not come again in it is tried wherever it first
    stands: no attempt can swallow the beginning of an occurrence. -/
theorem FirstAt.tried {x : α} (hsame : ∀ c y, same c y = true → c = y)
    (hfresh : x ∉ p) {a : Nat} (h : FirstAt (x :: p) s a) :
    Tried same (x :: p) s a := by
  have hreach : ∀ room t, room = a - t → t ≤ a → Tried same (x :: p) s t → Tried same (x :: p) s a := by
    intro room
    induction room using Nat.strongRecOn with
    | ind room ih =>
      rintro t rfl hle htried
      obtain hlt | rfl := Nat.lt_or_eq_of_le hle
      · have hfail : matched same (x :: p) (s.drop t) < (x :: p).length := by
          refine Nat.lt_of_le_of_ne (matched_le_length _ _) fun hcomplete => ?_
          exact h.first t hlt (isPrefix_of_matched hsame hcomplete)
        have hnext := htried.next hfail
        by_cases hshort : t + max 1 (matched same (x :: p) (s.drop t)) ≤ a
        · exact ih _ (by omega) _ rfl hshort hnext
        · -- The attempt at `t` has matched the pattern's first symbol inside the pattern.
          have hinside : a - t < matched same (x :: p) (s.drop t) := by omega
          obtain ⟨c, y, hc, hy, hcy⟩ := exists_of_lt_matched hinside
          obtain ⟨rest, hrest⟩ := h.occurs
          have hx : s[a]? = some x := by
            have hhead : (s.drop a)[0]? = some x := by rw [← hrest]; rfl
            simpa using hhead
          have hcx : c = x := by
            rw [List.getElem?_drop, Nat.add_sub_cancel' hle, hx] at hc
            exact (Option.some.inj hc).symm
          obtain ⟨j, hj⟩ : ∃ j, a - t = j + 1 := ⟨a - t - 1, by omega⟩
          rw [hj, List.getElem?_cons_succ] at hy
          obtain rfl := hsame c y hcy
          exact absurd (hcx ▸ List.mem_of_getElem? hy) hfresh
      · exact htried
  exact hreach a 0 rfl (Nat.zero_le a) .start

end Occurrence

end Lib
