import HostArduino.Lib.Search

namespace HostArduino.stream

open Lib

/-- `c == text[i]` for the `int` that `timedRead` returned and a `char`, which is signed. -/
def sameChar (c x : UInt8) : Bool :=
  (c.toNat : Int) == x.toInt8.toInt

/-- The loop of `findUntil` over the bytes that `timedRead` returns one after the other
    before it first returns -1. The terminator is looked at before the target. -/
def findLoop (target terminator : List UInt8) : Nat → Nat → List UInt8 → Bool × List UInt8
  | _, _, [] => (false, [])
  | targetIndex, terminatorIndex, c :: rest =>
    let terminatorIndex? :=
      if 0 < terminator.length then advance sameChar terminator terminatorIndex c
      else some terminatorIndex
    match terminatorIndex? with
    | none => (false, rest)
    | some terminatorIndex =>
      match advance sameChar target targetIndex c with
      | none => (true, rest)
      | some targetIndex => findLoop target terminator targetIndex terminatorIndex rest

/-- The texts are what stands before the terminating NUL, `none` is a null pointer. The
    second component is what is left of the content. -/
def findUntil (target terminator : Option (List UInt8)) (content : List UInt8) : Bool × List UInt8 :=
  match target with
  | none => (true, content)
  | some target =>
    if target = [] then (true, content) else findLoop target (terminator.getD []) 0 0 content

def find (target : Option (List UInt8)) (content : List UInt8) : Bool × List UInt8 :=
  findUntil target none content

/-- The target first stands at `a`, and no occurrence of the terminator ends by the end
    of that one. -/
structure Found (target terminator content : List UInt8) (a : Nat) : Prop where
  first : FirstAt target content a
  before : terminator ≠ [] → ∀ b, OccursAt terminator content b →
    a + target.length < b + terminator.length

/-- What makes the search see what it is asked for. The occurrence it should find is one
    at which an attempt starts, in a target of characters below 128; and where there is
    nothing to find, what an attempt completes comes after a terminator that one completes. -/
structure NothingMissed (target terminator content : List UInt8) : Prop where
  target_tried : ∀ a, Found target terminator content a →
    Tried sameChar target content a ∧ ∀ x ∈ target, x < 128
  terminator_seen : (¬∃ a, Found target terminator content a) →
    ∀ a, Completes sameChar target content a →
      terminator ≠ [] ∧ ∃ b, Completes sameChar terminator content b ∧
        b + terminator.length ≤ a + target.length

/-- A character from 128 on is negative and never equals what was read. -/
theorem sameChar_iff {c x : UInt8} : sameChar c x = true ↔ c = x ∧ x < 128 := by
  have hc := c.toNat_lt
  have hx := x.toNat_lt
  have hvalue : x.toInt8.toInt = if 2 * x.toNat < 2 ^ 8 then (x.toNat : Int) else x.toNat - (2 ^ 8 : Nat) :=
    BitVec.toInt_eq_toNat_cond x.toBitVec
  rw [sameChar, beq_iff_eq, hvalue, ← UInt8.toNat_inj, UInt8.lt_iff_toNat_lt]
  change _ ↔ c.toNat = x.toNat ∧ x.toNat < 128
  split <;> omega

theorem eq_of_sameChar (c x : UInt8) (h : sameChar c x = true) : c = x :=
  (sameChar_iff.mp h).1

/-- What the search completes is an occurrence of characters below 128. -/
theorem ascii_of_completes {p s : List UInt8} {a : Nat} (h : Completes sameChar p s a) :
    ∀ x ∈ p, x < 128 := by
  intro x hx
  obtain ⟨i, hi, rfl⟩ := List.getElem_of_mem hx
  obtain ⟨c, y, -, hy, hsame⟩ := exists_of_lt_matched (h.complete.symm ▸ hi)
  rw [List.getElem?_eq_getElem hi] at hy
  rw [Option.some.inj hy]
  exact (sameChar_iff.mp hsame).2

theorem completes_iff {p s : List UInt8} {a : Nat} :
    Completes sameChar p s a ↔ Tried sameChar p s a ∧ OccursAt p s a ∧ ∀ x ∈ p, x < 128 := by
  constructor
  · exact fun h => ⟨h.tried, h.occursAt eq_of_sameChar, ascii_of_completes h⟩
  · rintro ⟨htried, hoccurs, hascii⟩
    exact ⟨htried, matched_of_isPrefix (fun x hx => sameChar_iff.mpr ⟨rfl, hascii x hx⟩) hoccurs⟩

theorem terminator_step {terminator content : List UInt8} {n mi : Nat} {c : UInt8}
    (hm : terminator ≠ [] → ∃ ma, Searching sameChar terminator content n mi ma)
    (hc : content[n]? = some c) {next : Option Nat}
    (hnext : next = if 0 < terminator.length then advance sameChar terminator mi c else some mi) :
    (next = none ∧ terminator ≠ [] ∧
        ∃ b, Completes sameChar terminator content b ∧ n + 1 = b + terminator.length) ∨
      ∃ mi', next = some mi' ∧
        (terminator ≠ [] → ∃ ma, Searching sameChar terminator content (n + 1) mi' ma) := by
  by_cases hempty : terminator = []
  · exact .inr ⟨mi, by simp [hnext, hempty], fun h => absurd hempty h⟩
  · rw [if_pos (List.length_pos_iff.mpr hempty)] at hnext
    obtain ⟨ma, hsearching⟩ := hm hempty
    obtain ⟨hdone, hb⟩ | ⟨mi', ma', hon, hsearching'⟩ := hsearching.step hc
    · exact .inl ⟨hnext.trans hdone, hempty, hb⟩
    · exact .inr ⟨mi', hnext.trans hon, fun _ => ⟨ma', hsearching'⟩⟩

/-- The loop from any point of the content: it succeeds at the attempt that completes the
    target, unless one has completed the terminator by then. -/
theorem findLoop_eq_true_iff {target terminator content rest left : List UInt8} {n ti mi ta : Nat}
    (ht : Searching sameChar target content n ti ta)
    (hm : terminator ≠ [] → ∃ ma, Searching sameChar terminator content n mi ma)
    (hrest : content.drop n = rest) :
    findLoop target terminator ti mi rest = (true, left) ↔
      ∃ a, Completes sameChar target content a ∧ left = content.drop (a + target.length) ∧
        (terminator ≠ [] → ∀ b, Completes sameChar terminator content b →
          a + target.length < b + terminator.length) := by
  induction rest generalizing n ti mi ta with
  | nil =>
    have hend : content.length ≤ n := List.drop_eq_nil_iff.mp hrest
    refine iff_of_false (by simp [findLoop]) ?_
    rintro ⟨a, ha, -, -⟩
    have hafter := ht.lt_end ha
    have hle := ha.end_le (List.length_pos_iff.mp (Nat.zero_lt_of_lt ht.index_lt))
    omega
  | cons c rest ih =>
    have hc : content[n]? = some c := by
      have hhead : (content.drop n)[0]? = some c := by rw [hrest]; rfl
      simpa using hhead
    have hrest' : content.drop (n + 1) = rest := by
      rw [← List.drop_drop, hrest]
      rfl
    rw [findLoop]
    generalize hnext : (if 0 < terminator.length then advance sameChar terminator mi c else some mi) =
      next
    obtain ⟨rfl, hne, b, hb, hendb⟩ | ⟨mi', rfl, hm'⟩ := terminator_step hm hc hnext.symm
    · refine iff_of_false (by simp) ?_
      rintro ⟨a, ha, -, hbefore⟩
      have hafter := ht.lt_end ha
      have hlt := hbefore hne b hb
      omega
    · obtain ⟨hdone, a, ha, henda⟩ | ⟨ti', ta', hon, ht'⟩ := ht.step hc
      · simp only [hdone, Prod.mk.injEq, true_and]
        constructor
        · rintro rfl
          refine ⟨a, ha, by rw [← henda, hrest'], fun hne b hb => ?_⟩
          obtain ⟨ma, hsearching⟩ := hm' hne
          have hafter := hsearching.lt_end hb
          omega
        · rintro ⟨a', ha', rfl, -⟩
          rw [ha'.unique ha, ← henda, hrest']
      · simp only [hon]
        exact ih ht' hm' hrest'

/-- Both searches start at the beginning of the content. -/
theorem findUntil_eq_true_iff {target : List UInt8} (hne : target ≠ []) (terminator : Option (List UInt8))
    (content left : List UInt8) :
    findUntil (some target) terminator content = (true, left) ↔
      ∃ a, Completes sameChar target content a ∧ left = content.drop (a + target.length) ∧
        (terminator.getD [] ≠ [] → ∀ b, Completes sameChar (terminator.getD []) content b →
          a + target.length < b + (terminator.getD []).length) := by
  rw [findUntil, if_neg hne]
  exact findLoop_eq_true_iff (searching_start hne content) (fun h => ⟨0, searching_start h content⟩) rfl

/-- A text of characters below 128 whose first one does not come again in it. -/
def Plain : List UInt8 → Prop
  | [] => True
  | x :: p => x ∉ p ∧ ∀ y ∈ x :: p, y < 128

theorem Plain.completes {p s : List UInt8} (hp : Plain p) (hne : p ≠ []) {a : Nat}
    (h : FirstAt p s a) : Completes sameChar p s a := by
  cases p with
  | nil => exact absurd rfl hne
  | cons x p => exact completes_iff.mpr ⟨h.tried eq_of_sameChar hp.1, h.occurs, hp.2⟩

/-- Plain texts are never missed, whatever the content. -/
theorem nothingMissed_of_plain {target terminator : List UInt8} (hne : target ≠ [])
    (htarget : Plain target) (hterminator : Plain terminator) (content : List UInt8) :
    NothingMissed target terminator content := by
  refine ⟨fun a ha => ?_, fun hnone a ha => ?_⟩
  · have hcompletes := htarget.completes hne ha.first
    exact ⟨hcompletes.tried, ascii_of_completes hcompletes⟩
  · obtain ⟨first, hle, hfirst⟩ := exists_firstAt (ha.occursAt eq_of_sameChar)
    obtain rfl : first = a := (htarget.completes hne hfirst).unique ha
    have hended : ¬(terminator ≠ [] → ∀ b, OccursAt terminator content b →
        first + target.length < b + terminator.length) :=
      fun hbefore => hnone ⟨first, hfirst, hbefore⟩
    push Not at hended
    obtain ⟨hpresent, b, hb, hend⟩ := hended
    obtain ⟨b', hle', hfirst'⟩ := exists_firstAt hb
    exact ⟨hpresent, b', hterminator.completes hpresent hfirst', by omega⟩

/-- `findUntil` finds the target's first occurrence, if that ends before the terminator's
    does, and stops behind it, exactly when its two searches miss nothing. They restart
    only where an attempt broke off, so an occurrence inside a failed attempt is missed,
    and so is every text with a character from 128 on. -/
theorem findUntil_correct_iff {target : List UInt8} (hne : target ≠ [])
    (terminator : Option (List UInt8)) (content : List UInt8) :
    (∀ left, findUntil (some target) terminator content = (true, left) ↔
        ∃ a, Found target (terminator.getD []) content a ∧
          left = content.drop (a + target.length)) ↔
      NothingMissed target (terminator.getD []) content := by
  have hcode := findUntil_eq_true_iff hne terminator content
  generalize terminator.getD [] = terminatorText at hcode ⊢
  constructor
  · intro hcorrect
    refine ⟨fun a ha => ?_, fun hnone a ha => ?_⟩
    · obtain ⟨b, hb, hsame, -⟩ := (hcode _).mp ((hcorrect _).mpr ⟨a, ha, rfl⟩)
      have hlength := congrArg List.length hsame
      have hea := ha.first.occurs.end_le hne
      have heb := hb.end_le hne
      rw [List.length_drop, List.length_drop] at hlength
      obtain rfl : a = b := by omega
      exact ⟨hb.tried, ascii_of_completes hb⟩
    · by_contra hmissed
      have hresult : findUntil (some target) terminator content =
          (true, content.drop (a + target.length)) := by
        refine (hcode _).mpr ⟨a, ha, rfl, fun hterminator b hb => ?_⟩
        exact Nat.lt_of_not_le fun hle => hmissed ⟨hterminator, b, hb, hle⟩
      obtain ⟨b, hb, -⟩ := (hcorrect _).mp hresult
      exact hnone ⟨b, hb⟩
  · intro hmissed left
    rw [hcode]
    constructor
    · rintro ⟨a, ha, rfl, hbefore⟩
      by_cases hfound : ∃ b, Found target terminatorText content b
      · obtain ⟨b, hb⟩ := hfound
        obtain ⟨htried, hascii⟩ := hmissed.target_tried b hb
        have hcompletes := completes_iff.mpr ⟨htried, hb.first.occurs, hascii⟩
        rw [ha.unique hcompletes]
        exact ⟨b, hb, rfl⟩
      · obtain ⟨hterminator, b, hb, hle⟩ := hmissed.terminator_seen hfound a ha
        have hlt := hbefore hterminator b hb
        omega
    · rintro ⟨a, ha, rfl⟩
      obtain ⟨htried, hascii⟩ := hmissed.target_tried a ha
      refine ⟨a, completes_iff.mpr ⟨htried, ha.first.occurs, hascii⟩, rfl, fun hterminator b hb => ?_⟩
      exact ha.before hterminator b (hb.occursAt eq_of_sameChar)

theorem findUntil_correct_ok :
    findUntil (some [79, 75, 13]) (some [69, 82]) [79, 79, 75, 13, 10] = (true, [10]) ↔
      ∃ a, Found [79, 75, 13] [69, 82] [79, 79, 75, 13, 10] a ∧
        ([10] : List UInt8) = List.drop (a + 3) [79, 79, 75, 13, 10] := by
  have hne : ([79, 75, 13] : List UInt8) ≠ [] := by simp
  refine (findUntil_correct_iff hne (some [69, 82]) _).mpr ?_ [10]
  exact nothingMissed_of_plain hne (by simp [Plain]) (by simp [Plain]) _

/-- "aab" is not found in "aaab", nor a character from 128 on in a content that is
    nothing else. -/
theorem findUntil_misses :
    (findUntil (some [97, 97, 98]) none [97, 97, 97, 98] = (false, []) ∧
        Found [97, 97, 98] [] [97, 97, 97, 98] 1) ∧
      findUntil (some [0xC3]) none [0xC3] = (false, []) ∧ Found [0xC3] [] [0xC3] 0 := by
  have hfirst : FirstAt ([97, 97, 98] : List UInt8) [97, 97, 97, 98] 1 := by
    refine ⟨⟨[], rfl⟩, fun b hb hoccurs => ?_⟩
    obtain rfl : b = 0 := Nat.lt_one_iff.mp hb
    simp [OccursAt] at hoccurs
  exact ⟨⟨rfl, hfirst, by simp⟩, rfl, ⟨⟨[], rfl⟩, by simp⟩, by simp⟩

end HostArduino.stream
