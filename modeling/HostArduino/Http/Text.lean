import HostArduino.Lib.Search
import Mathlib.Algebra.Order.Ring.Int
import Mathlib.Data.List.TakeDrop
import Mathlib.Data.List.TakeWhile

namespace HostArduino.http

open Lib

/-- The bytes of a `String` of less than 2 GiB, whose positions `int` holds; -1 is `none`. -/
abbrev Text := List UInt8

def ascii (s : String) : Text :=
  s.toList.map Char.toUInt8

def isspace (c : UInt8) : Bool :=
  c == 32 || 9 ≤ c && c ≤ 13

def toLower (c : UInt8) : UInt8 :=
  if 65 ≤ c ∧ c ≤ 90 then c + 32 else c

def toLowerCase (s : Text) : Text :=
  s.map toLower

def trim (s : Text) : Text :=
  ((s.dropWhile isspace).reverse.dropWhile isspace).reverse

def startsWith (s str : Text) : Bool :=
  str.isPrefixOf s

def indexOf (s : Text) (ch : UInt8) : Option Nat :=
  s.findIdx? (· == ch)

def indexOfFrom (s : Text) (ch : UInt8) (fromIndex : Nat) : Option Nat :=
  (indexOf (s.drop fromIndex) ch).map (fromIndex + ·)

def indexOfText (s str : Text) : Option Nat :=
  if str.isPrefixOf s then some 0
  else
    match s with
    | [] => none
    | _ :: rest => (indexOfText rest str).map (· + 1)

def lastIndexOf (s : Text) (ch : UInt8) : Option Nat :=
  (indexOf s.reverse ch).map (s.length - 1 - ·)

def substring (s : Text) (beginIndex endIndex : Nat) : Text :=
  let first := min beginIndex endIndex
  let last := max beginIndex endIndex
  if first ≥ s.length then [] else (s.drop first).take (last - first)

def substringFrom (s : Text) (beginIndex : Nat) : Text :=
  substring s beginIndex s.length

/-- `concat` of a C string: a NUL ends what is appended. -/
def concatCString (s other : Text) : Text :=
  s ++ other.takeWhile (· ≠ 0)

/-- The comparison of header names in `HTTPClient`. -/
def equalsIgnoreCase (a b : Text) : Bool :=
  a.map toLower == b.map toLower

/-- The decimal text of an unsigned number. -/
def formatUnsigned (value : Nat) : Text :=
  if value < 10 then [48 + UInt8.ofNat value]
  else formatUnsigned (value / 10) ++ [48 + UInt8.ofNat (value % 10)]

def isdigit (c : UInt8) : Bool :=
  48 ≤ c && c ≤ 57

def digitValue (base : Nat) (c : UInt8) : Option Nat :=
  let value :=
    if 48 ≤ c ∧ c ≤ 57 then c.toNat - 48
    else if 97 ≤ c ∧ c ≤ 122 then c.toNat - 87
    else if 65 ≤ c ∧ c ≤ 90 then c.toNat - 55
    else base
  if value < base then some value else none

/-- The number a text starts with: its digits up to the first byte that is none. -/
def readDigits (base : Nat) : Nat → Text → Nat
  | value, [] => value
  | value, c :: rest =>
    match digitValue base c with
    | some digit => readDigits base (value * base + digit) rest
    | none => value

/-- An optional `0x` before a hexadecimal digit. -/
def dropHexPrefix : Text → Text
  | 48 :: x :: digit :: rest =>
    if (x == 120 || x == 88) && (digitValue 16 digit).isSome then digit :: rest
    else 48 :: x :: digit :: rest
  | s => s

def LONG_MAX : Int := 2 ^ 63 - 1

def LONG_MIN : Int := -2 ^ 63

/-- `strtol` of a text's C string: a NUL is no digit and ends the number. -/
def strtol (s : Text) (base : Nat) : Int :=
  let s := s.dropWhile isspace
  let negative := s.head? == some 45
  let s := if s.head? == some 45 || s.head? == some 43 then s.tail else s
  let value : Int := readDigits base 0 (if base = 16 then dropHexPrefix s else s)
  if negative then max LONG_MIN (-value) else min LONG_MAX value

def toInt (s : Text) : Int :=
  strtol s 10

theorem readDigits_le (base : Nat) (hbase : 0 < base) (value : Nat) (s : Text) :
    value ≤ readDigits base value s := by
  induction s generalizing value with
  | nil => exact Nat.le_refl _
  | cons c s ih =>
    unfold readDigits
    split
    · rename_i digit hdigit
      have hnext := ih (value * base + digit)
      have hgrows : value ≤ value * base := Nat.le_mul_of_pos_right value hbase
      omega
    · exact Nat.le_refl _

theorem readDigits_append {base : Nat} {p : Text} (hp : ∀ d ∈ p, (digitValue base d).isSome) (value : Nat)
    (q : Text) : readDigits base value (p ++ q) = readDigits base (readDigits base value p) q := by
  induction p generalizing value with
  | nil => rfl
  | cons c p ih =>
    obtain ⟨digit, hdigit⟩ := Option.isSome_iff_exists.mp (hp c (by simp))
    simp only [List.cons_append, readDigits, hdigit]
    exact ih (fun d hd => hp d (by simp [hd])) _

/-- A byte that is no digit ends the number. -/
theorem readDigits_of_head {base : Nat} {q : Text} (hq : ∀ b ∈ q.head?, digitValue base b = none) (value : Nat) :
    readDigits base value q = value := by
  cases q with
  | nil => rfl
  | cons b q =>
    unfold readDigits
    rw [hq b rfl]

/-- A number that starts with neither white space nor a sign. -/
theorem strtol_cons {c : UInt8} (hspace : isspace c = false) (hminus : c ≠ 45) (hplus : c ≠ 43) (s : Text)
    (base : Nat) :
    strtol (c :: s) base =
      min LONG_MAX (readDigits base 0 (if base = 16 then dropHexPrefix (c :: s) else c :: s)) := by
  have hnegative : ((c :: s).head? == some 45) = false := by simpa using hminus
  have hpositive : ((c :: s).head? == some 43) = false := by simpa using hplus
  have hdrop : (c :: s).dropWhile isspace = c :: s := List.dropWhile_cons_of_neg (by simp [hspace])
  simp only [strtol, hdrop, hnegative, hpositive, Bool.or_self, Bool.false_eq_true, if_false]

theorem substring_zero (s : Text) (endIndex : Nat) : substring s 0 endIndex = s.take endIndex := by
  cases s with
  | nil => simp [substring]
  | cons c s => simp [substring]

theorem substringFrom_eq (s : Text) (beginIndex : Nat) : substringFrom s beginIndex = s.drop beginIndex := by
  obtain hlt | hge := Nat.lt_or_ge beginIndex s.length
  · have hmin : min beginIndex s.length = beginIndex := Nat.min_eq_left (Nat.le_of_lt hlt)
    have hmax : max beginIndex s.length = s.length := Nat.max_eq_right (Nat.le_of_lt hlt)
    simp only [substringFrom, substring, hmin, hmax, if_neg (Nat.not_le.mpr hlt)]
    refine List.take_of_length_le ?_
    rw [List.length_drop]
  · have hmin : min beginIndex s.length = s.length := Nat.min_eq_right hge
    simp only [substringFrom, substring, hmin, ge_iff_le, Nat.le_refl, if_true, List.drop_of_length_le hge]

theorem substring_left (a b : Text) : substring (a ++ b) 0 a.length = a := by
  rw [substring_zero]
  exact List.take_left

theorem substringFrom_right (a b : Text) : substringFrom (a ++ b) a.length = b := by
  rw [substringFrom_eq]
  exact List.drop_left

theorem substring_middle (a b c : Text) : substring (a ++ (b ++ c)) a.length (a.length + b.length) = b := by
  have hmin : min a.length (a.length + b.length) = a.length := Nat.min_eq_left (Nat.le_add_right _ _)
  have hmax : max a.length (a.length + b.length) = a.length + b.length :=
    Nat.max_eq_right (Nat.le_add_right _ _)
  simp only [substring, hmin, hmax, List.drop_left, Nat.add_sub_cancel_left, List.take_left]
  split
  · rename_i hshort
    refine (List.eq_nil_of_length_eq_zero ?_).symm
    simp only [List.length_append] at hshort
    omega
  · rfl

/-- What follows the byte a text is split at. -/
theorem substringFrom_after (a : Text) (ch : UInt8) (b : Text) :
    substringFrom (a ++ ch :: b) (a.length + 1) = b := by
  have hlength : a.length + 1 = (a ++ [ch]).length := by simp
  rw [List.append_cons, hlength]
  exact substringFrom_right _ b

theorem indexOf_of_not_mem {s : Text} {ch : UInt8} (h : ch ∉ s) : indexOf s ch = none := by
  rw [indexOf, List.findIdx?_eq_none_iff]
  intro b hb
  simpa using fun heq : b = ch => h (heq ▸ hb)

theorem indexOf_append {a : Text} {ch : UInt8} (h : ch ∉ a) (b : Text) :
    indexOf (a ++ ch :: b) ch = some a.length := by
  induction a with
  | nil =>
    rw [indexOf, List.nil_append, List.findIdx?_cons, if_pos (beq_self_eq_true ch)]
    rfl
  | cons c a ih =>
    have hc : c ≠ ch := fun heq => h (by simp [heq])
    have hrest := ih fun hmem => h (by simp [hmem])
    rw [indexOf] at hrest ⊢
    rw [List.cons_append, List.findIdx?_cons, if_neg (by simpa using hc), hrest]
    rfl

theorem lastIndexOf_append {b : Text} {ch : UInt8} (a : Text) (h : ch ∉ b) :
    lastIndexOf (a ++ ch :: b) ch = some a.length := by
  have hreverse : (a ++ ch :: b).reverse = b.reverse ++ ch :: a.reverse := by simp
  rw [lastIndexOf, hreverse, indexOf_append (by simpa using h)]
  simp only [Option.map_some, List.length_append, List.length_cons, List.length_reverse]
  congr 1
  omega

/-- A text in which a byte occurs is split at its first occurrence. -/
theorem exists_first {s : Text} {ch : UInt8} (h : ch ∈ s) : ∃ a b, s = a ++ ch :: b ∧ ch ∉ a :=
  List.eq_append_cons_of_mem h

theorem exists_last {s : Text} {ch : UInt8} (h : ch ∈ s) : ∃ a b, s = a ++ ch :: b ∧ ch ∉ b := by
  obtain ⟨a, b, hsplit, ha⟩ := exists_first (List.mem_reverse.mpr h)
  refine ⟨b.reverse, a.reverse, ?_, by simpa using ha⟩
  rw [← List.reverse_reverse s, hsplit]
  simp

theorem indexOfText_eq_some_iff {s str : Text} {i : Nat} : indexOfText s str = some i ↔ FirstAt str s i := by
  induction s generalizing i with
  | nil =>
    rw [indexOfText]
    split
    · rename_i hbegins
      rw [firstAt_of_isPrefix (List.isPrefixOf_iff_prefix.mp hbegins), Option.some.injEq, eq_comm]
    · rename_i hbegins
      refine iff_of_false (by simp) fun hfirst => hbegins (List.isPrefixOf_iff_prefix.mpr ?_)
      simpa [OccursAt] using hfirst.occurs
  | cons c s ih =>
    rw [indexOfText]
    split
    · rename_i hbegins
      rw [firstAt_of_isPrefix (List.isPrefixOf_iff_prefix.mp hbegins), Option.some.injEq, eq_comm]
    · rename_i hbegins
      rw [firstAt_cons (fun h => hbegins (List.isPrefixOf_iff_prefix.mpr h)), Option.map_eq_some_iff]
      simp only [ih]

/-- A text is found behind bytes that do not occur in it at its first byte. -/
theorem indexOfText_append {a str : Text} {ch : UInt8} (h : ch ∉ a) (b : Text) :
    indexOfText (a ++ (ch :: str ++ b)) (ch :: str) = some a.length :=
  indexOfText_eq_some_iff.mpr (firstAt_append (i := 0) (x := ch) rfl (by simpa using h) b)

theorem isSome_indexOfText_iff {s str : Text} : (indexOfText s str).isSome = true ↔ str <:+: s := by
  rw [infix_iff_occursAt, Option.isSome_iff_exists]
  constructor
  · rintro ⟨i, hi⟩
    exact ⟨i, (indexOfText_eq_some_iff.mp hi).occurs⟩
  · rintro ⟨a, ha⟩
    obtain ⟨i, -, hi⟩ := exists_firstAt ha
    exact ⟨i, indexOfText_eq_some_iff.mpr hi⟩

/-- The byte of a decimal digit. -/
theorem digitValue_decimal {n : Nat} (hn : n < 10) :
    48 ≤ (48 + UInt8.ofNat n).toNat ∧ (48 + UInt8.ofNat n).toNat ≤ 57 ∧
      digitValue 10 (48 + UInt8.ofNat n) = some n := by
  have htoNat : (48 + UInt8.ofNat n).toNat = 48 + n := by
    rw [UInt8.toNat_add, UInt8.toNat_ofNat']
    change (48 + n % 256) % 256 = 48 + n
    omega
  have hle : (48 : UInt8) ≤ 48 + UInt8.ofNat n := by
    rw [UInt8.le_iff_toNat_le, htoNat]
    exact Nat.le_add_right 48 n
  have hge : 48 + UInt8.ofNat n ≤ (57 : UInt8) := by
    rw [UInt8.le_iff_toNat_le, htoNat]
    change 48 + n ≤ 57
    omega
  refine ⟨by omega, by omega, ?_⟩
  simp only [digitValue, hle, hge, and_self, if_true, htoNat, Nat.add_sub_cancel_left, hn]

/-- The decimal digits of a number, and their value. -/
theorem formatUnsigned_spec (n : Nat) :
    (∀ d ∈ formatUnsigned n, 48 ≤ d.toNat ∧ d.toNat ≤ 57 ∧ (digitValue 10 d).isSome) ∧
      formatUnsigned n ≠ [] ∧ readDigits 10 0 (formatUnsigned n) = n := by
  fun_induction formatUnsigned n with
  | case1 n hn =>
    obtain ⟨hle, hge, hvalue⟩ := digitValue_decimal hn
    refine ⟨?_, by simp, ?_⟩
    · intro d hd
      rw [List.mem_singleton.mp hd, hvalue]
      exact ⟨hle, hge, rfl⟩
    · simp only [readDigits, hvalue, Nat.zero_mul, Nat.zero_add]
  | case2 n hn ih =>
    obtain ⟨hdigits, hne, hread⟩ := ih
    obtain ⟨hle, hge, hvalue⟩ := digitValue_decimal (Nat.mod_lt n (by omega : 0 < 10))
    refine ⟨?_, by simp, ?_⟩
    · intro d hd
      obtain hd | hd := List.mem_append.mp hd
      · exact hdigits d hd
      · rw [List.mem_singleton.mp hd, hvalue]
        exact ⟨hle, hge, rfl⟩
    · rw [readDigits_append (fun d hd => (hdigits d hd).2.2), hread]
      simp only [readDigits, hvalue]
      omega

theorem isdigit_iff {c : UInt8} : isdigit c = true ↔ 48 ≤ c.toNat ∧ c.toNat ≤ 57 := by
  rw [isdigit, Bool.and_eq_true, decide_eq_true_iff, decide_eq_true_iff, UInt8.le_iff_toNat_le,
    UInt8.le_iff_toNat_le]
  exact Iff.rfl

theorem digitValue_of_isdigit {c : UInt8} (hc : isdigit c = true) : digitValue 10 c = some (c.toNat - 48) := by
  obtain ⟨hle, hge⟩ := isdigit_iff.mp hc
  have hrange : 48 ≤ c ∧ c ≤ 57 := ⟨UInt8.le_iff_toNat_le.mpr hle, UInt8.le_iff_toNat_le.mpr hge⟩
  have hlt : c.toNat - 48 < 10 := by omega
  simp only [digitValue, if_pos hrange, if_pos hlt]

theorem digitValue_eq_none {c : UInt8} (hc : isdigit c = false) : digitValue 10 c = none := by
  have hrange : ¬(48 ≤ c ∧ c ≤ 57) := by
    rintro ⟨hle, hge⟩
    have hdigit := isdigit_iff.mpr ⟨UInt8.le_iff_toNat_le.mp hle, UInt8.le_iff_toNat_le.mp hge⟩
    exact absurd (hc.symm.trans hdigit) Bool.false_ne_true
  have hlower (h : 97 ≤ c ∧ c ≤ 122) : 97 ≤ c.toNat := UInt8.le_iff_toNat_le.mp h.1
  have hupper (h : 65 ≤ c ∧ c ≤ 90) : 65 ≤ c.toNat := UInt8.le_iff_toNat_le.mp h.1
  simp only [digitValue, if_neg hrange]
  refine if_neg ?_
  split
  · have hge := hlower ‹_›
    omega
  · split
    · have hge := hupper ‹_›
      omega
    · exact Nat.lt_irrefl 10

theorem isdigit_formatUnsigned (n : Nat) : ∀ d ∈ formatUnsigned n, isdigit d = true := by
  intro d hd
  obtain ⟨hle, hge, -⟩ := (formatUnsigned_spec n).1 d hd
  exact isdigit_iff.mpr ⟨hle, hge⟩

/-- The first digit of a number is neither white space nor a sign. -/
theorem isdigit_ne {c : UInt8} (hc : isdigit c = true) : isspace c = false ∧ c ≠ 45 ∧ c ≠ 43 := by
  obtain ⟨hle, hge⟩ := isdigit_iff.mp hc
  have h32 : c ≠ 32 := fun heq => absurd hle (by simp [heq])
  have h13 : ¬c ≤ 13 := fun hle' => by
    have hlt : c.toNat ≤ 13 := UInt8.le_iff_toNat_le.mp hle'
    omega
  exact ⟨by simp [isspace, h32, h13], fun heq => absurd hle (by simp [heq]),
    fun heq => absurd hle (by simp [heq])⟩

theorem readDigits_digits {s rest : Text} (hdigits : ∀ d ∈ s, isdigit d = true)
    (hrest : ∀ b ∈ rest.head?, isdigit b = false) (value : Nat) :
    readDigits 10 value (s ++ rest) = readDigits 10 value s := by
  have hsome : ∀ d ∈ s, (digitValue 10 d).isSome := fun d hd => by
    rw [digitValue_of_isdigit (hdigits d hd)]
    rfl
  rw [readDigits_append hsome]
  exact readDigits_of_head (fun b hb => digitValue_eq_none (hrest b hb)) _

/-- The digits that a text starts with are its number, up to the greatest `long`. -/
theorem toInt_digits {s rest : Text} (hne : s ≠ []) (hdigits : ∀ d ∈ s, isdigit d = true)
    (hrest : ∀ b ∈ rest.head?, isdigit b = false) :
    toInt (s ++ rest) = min LONG_MAX (readDigits 10 0 s) := by
  obtain ⟨c, s, rfl⟩ := List.exists_cons_of_ne_nil hne
  obtain ⟨hspace, hminus, hplus⟩ := isdigit_ne (hdigits c (by simp))
  rw [toInt, List.cons_append, strtol_cons hspace hminus hplus, if_neg (by decide), ← List.cons_append,
    readDigits_digits hdigits hrest]

theorem toInt_minus {s rest : Text} (hdigits : ∀ d ∈ s, isdigit d = true)
    (hrest : ∀ b ∈ rest.head?, isdigit b = false) :
    toInt (45 :: s ++ rest) = max LONG_MIN (-(readDigits 10 0 s : Int)) := by
  have hspace : (45 :: s ++ rest).dropWhile isspace = 45 :: (s ++ rest) :=
    List.dropWhile_cons_of_neg (by decide)
  simp only [toInt, strtol, hspace, List.head?_cons, beq_self_eq_true, Bool.true_or, if_true, List.tail_cons]
  rw [if_neg (by decide), readDigits_digits hdigits hrest]

theorem toInt_formatUnsigned {n : Nat} (hn : n < 2 ^ 63) : toInt (formatUnsigned n) = n := by
  obtain ⟨-, hne, hread⟩ := formatUnsigned_spec n
  have hvalue : toInt (formatUnsigned n ++ []) = _ := toInt_digits hne (isdigit_formatUnsigned n) (by simp)
  rw [List.append_nil, hread] at hvalue
  rw [hvalue]
  refine Int.min_eq_right ?_
  rw [LONG_MAX]
  omega

end HostArduino.http
