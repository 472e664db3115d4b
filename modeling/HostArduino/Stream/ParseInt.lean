import HostArduino.Lib.Spans
import HostArduino.Print.Format

namespace HostArduino.stream

open http Lib print

/-- The characters that a token is made of. -/
def valid (integerOnly : Bool) (c : UInt8) : Bool :=
  isdigit c || c == 45 || c == 43 || !integerOnly && c == 46

/-- The loop of `readToken` over the bytes that are there before `timedPeek` first returns
    -1; `out` holds those of the token so far. A `skipChar` of -1 is none. The second
    component is what is left of the content. -/
def readTokenLoop (integerOnly : Bool) (skipChar : Int) : Text → Bool → List UInt8 → Text × List UInt8
  | out, _, [] => (out, [])
  | out, started, c :: rest =>
    if (c.toNat : Int) = skipChar then readTokenLoop integerOnly skipChar out started rest
    else if !valid integerOnly c then
      if started then (out, rest) else readTokenLoop integerOnly skipChar out started rest
    else readTokenLoop integerOnly skipChar (out ++ [c]) true rest

def readToken (integerOnly : Bool) (skipChar : Int) (content : List UInt8) : Text × List UInt8 :=
  readTokenLoop integerOnly skipChar [] false content

def parseInt (content : List UInt8) : Int × List UInt8 :=
  (toInt (readToken true (-1) content).1, (readToken true (-1) content).2)

/-- `parseInt` with a character to skip. -/
def parseIntSkipping (skipChar : UInt8) (content : List UInt8) : Int × List UInt8 :=
  (toInt (readToken true skipChar.toNat content).1, (readToken true skipChar.toNat content).2)

/-- So many calls of `parseInt` after each other. -/
def parseInts : Nat → List UInt8 → List Int × List UInt8
  | 0, content => ([], content)
  | n + 1, content =>
    let first := parseInt content
    let rest := parseInts n first.2
    (first.1 :: rest.1, rest.2)

/-- A number with what separates it from the one before. -/
structure Item where
  separator : Text
  number : Int64

/-- The numbers as `print` writes a `long`, each behind its separator. -/
def printed (items : List Item) : List UInt8 :=
  items.flatMap fun item => item.separator ++ formatSigned item.number 10

/-- The separators hold neither digits nor signs, and one between two numbers is empty
    only in front of a negative one. -/
structure Separated (items : List Item) : Prop where
  plain : ∀ item ∈ items, ∀ c ∈ item.separator, valid true c = false
  apart : ∀ item ∈ items.tail, item.separator = [] → item.number.toInt < 0

/-- Every two numbers have something between them. -/
def Parted (items : List Item) : Prop :=
  ∀ item ∈ items.tail, item.separator ≠ []

def numbers (items : List Item) : List Int :=
  items.map (·.number.toInt)

section Token

variable {out : Text} {started : Bool} {rest : List UInt8}

theorem readTokenLoop_cons (c : UInt8) :
    readTokenLoop true (-1) out started (c :: rest) =
      if !valid true c then if started then (out, rest) else readTokenLoop true (-1) out started rest
      else readTokenLoop true (-1) (out ++ [c]) true rest := by
  rw [readTokenLoop, if_neg (by omega)]

theorem readTokenLoop_separator {separator : Text} (hplain : ∀ c ∈ separator, valid true c = false) :
    readTokenLoop true (-1) out false (separator ++ rest) = readTokenLoop true (-1) out false rest := by
  induction separator with
  | nil => rfl
  | cons c separator ih =>
    rw [List.cons_append, readTokenLoop_cons, hplain c (by simp), Bool.not_false, if_pos rfl,
      if_neg Bool.false_ne_true]
    exact ih fun d hd => hplain d (by simp [hd])

theorem readTokenLoop_token {token : Text} (hne : token ≠ []) (hvalid : ∀ c ∈ token, valid true c = true) :
    readTokenLoop true (-1) out started (token ++ rest) = readTokenLoop true (-1) (out ++ token) true rest := by
  induction token generalizing out started with
  | nil => exact absurd rfl hne
  | cons c token ih =>
    have hc := hvalid c (by simp)
    rw [List.cons_append, readTokenLoop_cons, hc, Bool.not_true, if_neg Bool.false_ne_true]
    by_cases hmore : token = []
    · rw [hmore, List.nil_append]
    · rw [ih hmore fun d hd => hvalid d (by simp [hd]), List.append_assoc, List.singleton_append]

/-- A token ends where the content does, or with the first character that is none of it,
    which is consumed. -/
theorem readTokenLoop_end (hrest : ∀ c ∈ rest.head?, valid true c = false) :
    readTokenLoop true (-1) out true rest = (out, rest.drop 1) := by
  cases rest with
  | nil => rfl
  | cons c rest =>
    rw [readTokenLoop_cons, hrest c rfl, Bool.not_false, if_pos rfl, if_pos rfl]
    rfl

end Token

theorem decimal_token (value : Int) : decimal value ≠ [] ∧ ∀ c ∈ decimal value, valid true c = true := by
  obtain ⟨-, hne, -⟩ := formatUnsigned_spec value.natAbs
  have hdigits : ∀ c ∈ http.formatUnsigned value.natAbs, valid true c = true := fun c hc => by
    rw [valid, isdigit_formatUnsigned _ c hc]
    rfl
  unfold decimal
  split
  · refine ⟨List.cons_ne_nil _ _, fun c hc => ?_⟩
    obtain rfl | hc := List.mem_cons.mp hc
    · decide
    · exact hdigits c hc
  · exact ⟨hne, hdigits⟩

/-- A `long` is read back from its text, whatever follows that is no digit. -/
theorem toInt_decimal (value : Int64) {more : Text} (hmore : ∀ c ∈ more.head?, isdigit c = false) :
    toInt (decimal value.toInt ++ more) = value.toInt := by
  have hlow := value.le_toInt
  have hhigh := value.toInt_lt
  obtain ⟨-, hne, hread⟩ := formatUnsigned_spec value.toInt.natAbs
  have hdigits := isdigit_formatUnsigned value.toInt.natAbs
  unfold decimal
  split
  · rw [toInt_minus hdigits hmore, hread, LONG_MIN]
    omega
  · rw [toInt_digits hne hdigits hmore, hread, LONG_MAX]
    omega

theorem printed_cons (item : Item) (rest : List Item) :
    printed (item :: rest) = item.separator ++ (decimal item.number.toInt ++ printed rest) := by
  rw [printed, List.flatMap_cons, List.append_assoc]
  rfl

theorem printed_append (items rest : List Item) : printed (items ++ rest) = printed items ++ printed rest :=
  List.flatMap_append

def isGlued (item : Item) : Bool :=
  item.separator = []

theorem isGlued_iff {item : Item} : isGlued item = true ↔ item.separator = [] :=
  decide_eq_true_iff

/-- The numbers that nothing separates from the one before, which a token takes in. -/
def glued (rest : List Item) : List Item :=
  rest.takeWhile isGlued

/-- The items behind a token, whose first separator has lost the character that ended it. -/
def behindToken (rest : List Item) : List Item :=
  match rest.dropWhile isGlued with
  | [] => []
  | item :: more => { item with separator := item.separator.tail } :: more

theorem separator_eq_nil_of_mem_glued {rest : List Item} {item : Item} (hitem : item ∈ glued rest) :
    item.separator = [] :=
  isGlued_iff.mp (List.mem_takeWhile_imp hitem)

theorem glued_append (rest : List Item) : glued rest ++ rest.dropWhile isGlued = rest :=
  List.takeWhile_append_dropWhile

theorem separator_ne_nil {rest more : List Item} {other : Item}
    (hrest : rest.dropWhile isGlued = other :: more) : other.separator ≠ [] := by
  simpa only [isGlued, decide_eq_false_iff_not] using stops_of_dropWhile_eq_cons hrest

theorem valid_printed_glued (rest : List Item) : ∀ c ∈ printed (glued rest), valid true c = true := by
  intro c hc
  obtain ⟨other, hother, hc⟩ := List.mem_flatMap.mp hc
  rw [separator_eq_nil_of_mem_glued hother, List.nil_append] at hc
  exact (decimal_token other.number.toInt).2 c hc

theorem drop_printed (rest : List Item) :
    (printed (rest.dropWhile isGlued)).drop 1 = printed (behindToken rest) := by
  unfold behindToken
  cases hrest : rest.dropWhile isGlued with
  | nil => rfl
  | cons other more =>
    obtain ⟨d, separator, hseparator⟩ := List.exists_cons_of_ne_nil (separator_ne_nil hrest)
    simp only [printed_cons, hseparator, List.cons_append, List.drop_succ_cons, List.drop_zero, List.tail_cons]

theorem numbers_behindToken (rest : List Item) :
    numbers (behindToken rest) = numbers (rest.dropWhile isGlued) := by
  unfold behindToken
  split
  · rename_i hrest
    rw [hrest]
  · rename_i hrest
    rw [hrest]
    rfl

/-- A token that takes in no second number leaves all of them but for one character. -/
theorem behindToken_of_glued_nil {rest : List Item} (hglued : glued rest = []) :
    numbers (behindToken rest) = numbers rest ∧ (behindToken rest).length = rest.length ∧
      (behindToken rest).tail = rest.tail := by
  cases rest with
  | nil => exact ⟨rfl, rfl, rfl⟩
  | cons other more =>
    have hother : ¬isGlued other = true := fun hempty => by
      rw [glued, List.takeWhile_cons_of_pos hempty] at hglued
      cases hglued
    rw [behindToken, List.dropWhile_cons_of_neg hother]
    exact ⟨rfl, rfl, rfl⟩

theorem parted_cons_iff {item : Item} {rest : List Item} :
    Parted (item :: rest) ↔ glued rest = [] ∧ Parted (behindToken rest) := by
  constructor
  · intro hparted
    have hglued : glued rest = [] := by
      rw [glued, List.takeWhile_eq_nil_iff]
      intro hlength hempty
      exact hparted _ (List.getElem_mem hlength) (isGlued_iff.mp hempty)
    refine ⟨hglued, fun i hi => hparted i ?_⟩
    rw [(behindToken_of_glued_nil hglued).2.2] at hi
    exact List.mem_of_mem_tail hi
  · rintro ⟨hglued, hparted⟩ i hi
    have htail := (behindToken_of_glued_nil hglued).2.2
    cases rest with
    | nil => simp at hi
    | cons other more =>
      obtain rfl | hi := List.mem_cons.mp hi
      · intro hempty
        rw [glued, List.takeWhile_cons_of_pos (isGlued_iff.mpr hempty)] at hglued
        cases hglued
      · refine hparted i ?_
        rw [htail]
        exact hi

theorem sum_neg {xs : List Int} (hneg : ∀ x ∈ xs, x < 0) : xs.sum ≤ 0 ∧ (xs ≠ [] → xs.sum < 0) := by
  induction xs with
  | nil => simp
  | cons x xs ih =>
    have hx := hneg x (by simp)
    have hrest := (ih fun y hy => hneg y (by simp [hy])).1
    rw [List.sum_cons]
    exact ⟨by omega, fun _ => by omega⟩

section Items

variable {item : Item} {rest : List Item} (hitems : Separated (item :: rest))

include hitems

theorem number_neg_of_mem_glued {other : Item} (hother : other ∈ glued rest) : other.number.toInt < 0 :=
  hitems.apart other ((List.takeWhile_prefix _).subset hother) (separator_eq_nil_of_mem_glued hother)

/-- What a token takes in behind its number starts with a sign. -/
theorem isdigit_head_glued : ∀ c ∈ (printed (glued rest)).head?, isdigit c = false := by
  have hneg (other : Item) (hother : other ∈ glued rest) := number_neg_of_mem_glued hitems hother
  have hempty (other : Item) (hother : other ∈ glued rest) := separator_eq_nil_of_mem_glued hother
  cases hglued : glued rest with
  | nil => simp [printed]
  | cons other more =>
    rw [hglued] at hneg hempty
    have hminus : decimal other.number.toInt = 45 :: http.formatUnsigned other.number.toInt.natAbs :=
      if_pos (hneg other (by simp))
    rw [printed_cons, hempty other (by simp), List.nil_append, hminus]
    intro c hc
    obtain rfl : 45 = c := by simpa using hc
    rfl

theorem valid_head_behind : ∀ c ∈ (printed (rest.dropWhile isGlued)).head?, valid true c = false := by
  cases hrest : rest.dropWhile isGlued with
  | nil => simp [printed]
  | cons other more =>
    have hother : other ∈ rest := (List.dropWhile_suffix _).subset (hrest ▸ List.mem_cons_self)
    have hplain := hitems.plain other (List.mem_cons_of_mem _ hother)
    obtain ⟨d, separator, hseparator⟩ := List.exists_cons_of_ne_nil (separator_ne_nil hrest)
    rw [printed_cons, hseparator]
    intro c hc
    obtain rfl : d = c := by simpa using hc
    exact hplain d (by simp [hseparator])

/-- One call reads the first number, and takes the numbers with it that are glued to it. -/
theorem parseInt_printed :
    parseInt (printed (item :: rest)) = (item.number.toInt, printed (behindToken rest)) := by
  have htoken := decimal_token item.number.toInt
  have hsplit : printed (item :: rest) = item.separator ++
      ((decimal item.number.toInt ++ printed (glued rest)) ++ printed (rest.dropWhile isGlued)) := by
    rw [printed_cons, List.append_assoc, ← printed_append, glued_append]
  have hread : readToken true (-1) (printed (item :: rest)) =
      (decimal item.number.toInt ++ printed (glued rest), printed (behindToken rest)) := by
    rw [readToken, hsplit, readTokenLoop_separator (hitems.plain item (by simp)), readTokenLoop_token,
      readTokenLoop_end (valid_head_behind hitems), List.nil_append, drop_printed]
    · simp [htoken.1]
    · intro c hc
      obtain hc | hc := List.mem_append.mp hc
      · exact htoken.2 c hc
      · exact valid_printed_glued rest c hc
  rw [parseInt, hread, toInt_decimal item.number (isdigit_head_glued hitems)]

theorem separated_behind : Separated (behindToken rest) := by
  unfold behindToken
  cases hrest : rest.dropWhile isGlued with
  | nil => exact ⟨by simp, by simp⟩
  | cons other more =>
    have hsub : ∀ i ∈ other :: more, i ∈ rest := fun i hi => (List.dropWhile_suffix _).subset (hrest ▸ hi)
    constructor
    · intro i hi c hc
      obtain rfl | hi := List.mem_cons.mp hi
      · exact hitems.plain other (by simp [hsub]) c (List.mem_of_mem_tail hc)
      · exact hitems.plain i (by simp [hsub, hi]) c hc
    · exact fun i hi => hitems.apart i (hsub i (List.mem_cons_of_mem _ hi))

/-- What is glued counts less than nothing. -/
theorem sum_numbers_behind :
    (numbers rest).sum ≤ (numbers (behindToken rest)).sum ∧
      (glued rest ≠ [] → (numbers rest).sum < (numbers (behindToken rest)).sum) := by
  have hneg : ∀ x ∈ numbers (glued rest), x < 0 := fun x hx => by
    obtain ⟨other, hother, rfl⟩ := List.mem_map.mp hx
    exact number_neg_of_mem_glued hitems hother
  obtain ⟨hle, hlt⟩ := sum_neg hneg
  have hsplit : numbers rest = numbers (glued rest) ++ numbers (behindToken rest) := by
    rw [numbers_behindToken, numbers, numbers, numbers, ← List.map_append, glued_append]
  rw [hsplit, List.sum_append]
  refine ⟨by omega, fun hglued => ?_⟩
  have hless := hlt (by simpa [numbers] using hglued)
  omega

end Items

theorem length_behindToken_le (rest : List Item) : (behindToken rest).length ≤ rest.length := by
  have hlength := (List.dropWhile_suffix (l := rest) isGlued).length_le
  unfold behindToken
  split
  · exact Nat.zero_le _
  · rename_i hrest
    rw [hrest] at hlength
    exact hlength

theorem parseInt_nil : parseInt [] = (0, []) := by decide

theorem parseInts_nil (n : Nat) : parseInts n [] = (List.replicate n 0, []) := by
  induction n with
  | zero => rfl
  | succ n ih =>
    rw [parseInts, parseInt_nil, ih, List.replicate_succ]

/-- Where nothing is glued, the calls read the numbers one by one. -/
theorem parseInts_parted {items : List Item} (hitems : Separated items) (hparted : Parted items) :
    parseInts items.length (printed items) = (numbers items, []) := by
  induction hlength : items.length generalizing items with
  | zero =>
    rw [List.eq_nil_of_length_eq_zero hlength]
    rfl
  | succ n ih =>
    obtain ⟨item, rest, rfl⟩ := List.exists_cons_of_length_eq_add_one hlength
    obtain ⟨hglued, hbehind⟩ := parted_cons_iff.mp hparted
    obtain ⟨hnumbers, hsame, -⟩ := behindToken_of_glued_nil hglued
    have hrest := ih (separated_behind hitems) hbehind (by rw [hsame]; exact Nat.succ.inj hlength)
    rw [parseInts, parseInt_printed hitems, hrest, hnumbers]
    rfl

/-- However many calls there are, what is glued is missing from the sum. -/
theorem sum_parseInts {items : List Item} (hitems : Separated items) {n : Nat} (hn : items.length ≤ n) :
    (numbers items).sum ≤ (parseInts n (printed items)).1.sum ∧
      (¬Parted items → (numbers items).sum < (parseInts n (printed items)).1.sum) := by
  induction n generalizing items with
  | zero =>
    rw [List.eq_nil_of_length_eq_zero (Nat.le_zero.mp hn)]
    exact ⟨Int.le_refl 0, fun hparted => absurd (by simp [Parted]) hparted⟩
  | succ n ih =>
    cases items with
    | nil =>
      rw [printed, List.flatMap_nil, parseInts_nil]
      simp [numbers, Parted]
    | cons item rest =>
      have hlength := length_behindToken_le rest
      rw [List.length_cons] at hn
      obtain ⟨hle, hlt⟩ := ih (separated_behind hitems) (by omega)
      obtain ⟨hle', hlt'⟩ := sum_numbers_behind hitems
      have hsum : (numbers (item :: rest)).sum = item.number.toInt + (numbers rest).sum := List.sum_cons
      simp only [parseInts, parseInt_printed hitems, List.sum_cons, hsum]
      refine ⟨by omega, fun hparted => ?_⟩
      rw [parted_cons_iff, not_and_or] at hparted
      obtain hglued | hbehind := hparted
      · have hless := hlt' hglued
        omega
      · have hless := hlt hbehind
        omega

/-- Numbers printed one behind the other are read back in order, and a zero after them,
    exactly when there is something between every two of them: a token takes in signs
    wherever they stand, so a negative number right behind another is lost. -/
theorem parseInts_printed_iff (items : List Item) (hitems : Separated items) :
    ((parseInts items.length (printed items)).1 = numbers items ∧
        (parseInt (parseInts items.length (printed items)).2).1 = 0) ↔
      Parted items := by
  constructor
  · rintro ⟨hnumbers, -⟩
    by_contra hparted
    have hless := (sum_parseInts hitems (Nat.le_refl _)).2 hparted
    rw [hnumbers] at hless
    exact Int.lt_irrefl _ hless
  · intro hparted
    rw [parseInts_parted hitems hparted, parseInt_nil]
    exact ⟨rfl, rfl⟩

theorem parseInts_printed_pair :
    (parseInts 2 (printed [⟨[], 12⟩, ⟨[44, 32], -5⟩])).1 = [12, -5] :=
  ((parseInts_printed_iff [⟨[], 12⟩, ⟨[44, 32], -5⟩] ⟨by simp [valid, isdigit], by simp⟩).mpr
    (by simp [Parted])).1

/-- 12 and -5 with nothing between them: the second one is lost. -/
theorem parseInts_glued :
    Separated [⟨[], 12⟩, ⟨[], -5⟩] ∧ printed [⟨[], 12⟩, ⟨[], -5⟩] = ascii "12-5" ∧
      parseInts 2 (ascii "12-5") = ([12, 0], []) :=
  ⟨⟨by simp, by simp⟩, by decide +kernel, by decide +kernel⟩

end HostArduino.stream
