import HostArduino.Http.Text
import Mathlib.Data.Nat.Digits.Defs

namespace HostArduino.print

open http

/-- What `ostream << value` writes. -/
def decimal (value : Int) : Text :=
  if value < 0 then 45 :: http.formatUnsigned value.natAbs else http.formatUnsigned value.natAbs

def digit (value : Nat) : UInt8 :=
  (ascii "0123456789ABCDEFGHIJKLMNOPQRSTUVWXYZ").getD value 0

theorem div_base_lt {base value : Nat} (hbase : 2 ≤ base) (hmore : value / base ≠ 0) : value / base < value := by
  refine Nat.div_lt_self ?_ hbase
  refine Nat.pos_of_ne_zero fun hzero => hmore ?_
  rw [hzero, Nat.zero_div]

/-- The loop of `formatUnsigned`, which puts each digit in front of those it has. -/
def digitLoop (base : Nat) (hbase : 2 ≤ base) (value : Nat) (out : Text) : Text :=
  if value / base = 0 then digit (value % base) :: out
  else digitLoop base hbase (value / base) (digit (value % base) :: out)
termination_by value
decreasing_by exact div_base_lt hbase ‹_›

theorem two_le_base {base : UInt8} (hbase : ¬(base = 10 ∨ base < 2 ∨ 36 < base)) : 2 ≤ base.toNat := by
  rw [not_or, not_or, UInt8.not_lt, UInt8.not_lt] at hbase
  exact UInt8.le_iff_toNat_le.mp hbase.2.1

theorem base_le {base : UInt8} (hbase : ¬(base = 10 ∨ base < 2 ∨ 36 < base)) : base.toNat ≤ 36 := by
  rw [not_or, not_or, UInt8.not_lt, UInt8.not_lt] at hbase
  exact UInt8.le_iff_toNat_le.mp hbase.2.2

def formatUnsigned (value : UInt64) (base : UInt8) : Text :=
  if hbase : base = 10 ∨ base < 2 ∨ 36 < base then decimal value.toNat
  else digitLoop base.toNat (two_le_base hbase) value.toNat []

def formatSigned (value : Int64) (base : UInt8) : Text :=
  if base = 10 then decimal value.toInt else formatUnsigned value.toUInt64 base

/-- `String(value, base)` of an `int`. -/
def ofInt (value : Int32) (base : UInt8) : Text :=
  formatSigned value.toInt64 base

/-- The digits of a number, the most significant first, and a zero for no digits. -/
def digitsText (base n : Nat) : Text :=
  if n = 0 then [digit 0] else (base.digits n).reverse.map digit

/-- The text of an `int` where `int` has 32 bits: signed in decimal, and so in every base
    that is not supported; in any other base that of its bits. -/
def integerText (value : Int32) (base : UInt8) : Text :=
  if base = 10 ∨ base < 2 ∨ 36 < base then decimal value.toInt
  else digitsText base.toNat (value.toInt % 2 ^ 32).toNat

theorem digitsText_of_lt {base n : Nat} (hn : n < base) : digitsText base n = [digit n] := by
  unfold digitsText
  split
  · rename_i hzero
    rw [hzero]
  · rename_i hpos
    rw [Nat.digits_of_lt base n hpos hn]
    rfl

theorem digitsText_of_div {base n : Nat} (hbase : 2 ≤ base) (hmore : n / base ≠ 0) :
    digitsText base n = digitsText base (n / base) ++ [digit (n % base)] := by
  have hpos : 0 < n := Nat.lt_of_le_of_lt (Nat.zero_le _) (div_base_lt hbase hmore)
  rw [digitsText, if_neg (Nat.ne_of_gt hpos), digitsText, if_neg hmore, Nat.digits_def' hbase hpos]
  simp

theorem digitLoop_eq (base : Nat) (hbase : 2 ≤ base) (value : Nat) (out : Text) :
    digitLoop base hbase value out = digitsText base value ++ out := by
  fun_induction digitLoop base hbase value out with
  | case1 value out hlast =>
    have hlt : value < base := (Nat.div_eq_zero_iff_lt (by omega)).mp hlast
    rw [Nat.mod_eq_of_lt hlt, digitsText_of_lt hlt, List.singleton_append]
  | case2 value out hmore ih =>
    rw [ih, digitsText_of_div hbase hmore, List.append_assoc, List.singleton_append]

theorem digitValue_digit {base n : Nat} (hbase : base ≤ 36) (hn : n < base) :
    digitValue base (digit n) = some n := by
  have htable : ∀ n : Fin 36, digitValue 36 (digit n) = some n.val := by decide
  have hvalue := htable ⟨n, by omega⟩
  generalize digit n = c at hvalue
  simp only [digitValue, Option.ite_none_right_eq_some, Option.some.injEq] at hvalue ⊢
  obtain ⟨hlt, hraw⟩ := hvalue
  -- A byte that is no digit at all would have the value 36 here.
  have hsame : (if 48 ≤ c ∧ c ≤ 57 then c.toNat - 48
      else if 97 ≤ c ∧ c ≤ 122 then c.toNat - 87
      else if 65 ≤ c ∧ c ≤ 90 then c.toNat - 55 else base) = n := by
    split_ifs at hlt hraw ⊢ <;> first | exact hraw | exact absurd hlt (Nat.lt_irrefl 36)
  exact ⟨hsame ▸ hn, hsame⟩

/-- Reading the digits gives the number back. -/
theorem readDigits_digitsText {base : Nat} (hbase : 2 ≤ base) (hsupported : base ≤ 36) (n : Nat) :
    readDigits base 0 (digitsText base n) = n ∧ ∀ d ∈ digitsText base n, (digitValue base d).isSome := by
  induction n using Nat.strongRecOn with
  | ind n ih =>
    have hlast : digitValue base (digit (n % base)) = some (n % base) :=
      digitValue_digit hsupported (Nat.mod_lt n (by omega))
    by_cases hmore : n / base = 0
    · have hlt : n < base := (Nat.div_eq_zero_iff_lt (by omega)).mp hmore
      rw [Nat.mod_eq_of_lt hlt] at hlast
      rw [digitsText_of_lt hlt]
      simp [readDigits, hlast]
    · obtain ⟨hread, hdigits⟩ := ih (n / base) (div_base_lt hbase hmore)
      rw [digitsText_of_div hbase hmore]
      constructor
      · rw [readDigits_append hdigits, hread]
        simp only [readDigits, hlast]
        rw [Nat.mul_comm]
        exact Nat.div_add_mod n base
      · intro d hd
        obtain hd | hd := List.mem_append.mp hd
        · exact hdigits d hd
        · rw [List.mem_singleton.mp hd, hlast]
          rfl

theorem toNat_toUInt64_of_neg {value : Int64} (hneg : value.toInt < 0) :
    (value.toUInt64.toNat : Int) = value.toInt + 2 ^ 64 := by
  have hlt := value.toUInt64.toNat_lt
  have hvalue : value.toInt = if 2 * value.toUInt64.toNat < 2 ^ 64 then (value.toUInt64.toNat : Int)
      else value.toUInt64.toNat - (2 ^ 64 : Nat) := BitVec.toInt_eq_toNat_cond value.toBitVec
  split at hvalue
  · omega
  · rw [hvalue]
    omega

theorem toNat_toUInt64_of_nonneg {value : Int64} (hnonneg : 0 ≤ value.toInt) :
    (value.toUInt64.toNat : Int) = value.toInt := by
  have hlt := value.toUInt64.toNat_lt
  have hvalue : value.toInt = if 2 * value.toUInt64.toNat < 2 ^ 64 then (value.toUInt64.toNat : Int)
      else value.toUInt64.toNat - (2 ^ 64 : Nat) := BitVec.toInt_eq_toNat_cond value.toBitVec
  split at hvalue
  · exact hvalue.symm
  · omega

/-- A number without a sign never has the text of a negative one. -/
theorem decimal_ne {n : Nat} {value : Int} (hneg : value < 0) : decimal n ≠ decimal value := by
  have hpos : ¬(n : Int) < 0 := by omega
  rw [decimal, decimal, if_neg hpos, if_pos hneg]
  intro heq
  have hdigit := isdigit_formatUnsigned (n : Int).natAbs 45 (by rw [heq]; simp)
  exact absurd hdigit (by decide)

/-- The text of an `int` is the expected one exactly when the value is not negative or
    the base is ten: widening to 64 bits shows in the digits of a negative one, and only
    `formatUnsigned` knows which bases are supported. -/
theorem ofInt_eq_iff (value : Int32) (base : UInt8) :
    ofInt value base = integerText value base ↔ 0 ≤ value.toInt ∨ base = 10 := by
  have hwide : value.toInt64.toInt = value.toInt := value.toInt_toInt64
  have hlow := value.le_toInt
  have hhigh := value.toInt_lt
  unfold ofInt formatSigned
  rw [hwide]
  by_cases hten : base = 10
  · rw [if_pos hten, integerText, if_pos (.inl hten)]
    simp [hten]
  · rw [if_neg hten]
    simp only [hten, or_false]
    unfold formatUnsigned integerText
    by_cases hunsupported : base = 10 ∨ base < 2 ∨ 36 < base
    · rw [dif_pos hunsupported, if_pos hunsupported]
      constructor
      · intro heq
        by_contra hneg
        exact decimal_ne (Int.not_le.mp hneg) heq
      · intro hnonneg
        rw [toNat_toUInt64_of_nonneg (hwide ▸ hnonneg), hwide]
    · have hbase := two_le_base hunsupported
      have hsupported := base_le hunsupported
      rw [dif_neg hunsupported, if_neg hunsupported, digitLoop_eq, List.append_nil]
      constructor
      · intro heq
        by_contra hneg
        have hvalue := congrArg (readDigits base.toNat 0) heq
        rw [(readDigits_digitsText hbase hsupported _).1, (readDigits_digitsText hbase hsupported _).1] at hvalue
        have hbits := toNat_toUInt64_of_neg (show value.toInt64.toInt < 0 by omega)
        omega
      · intro hnonneg
        have hbits := toNat_toUInt64_of_nonneg (show 0 ≤ value.toInt64.toInt by omega)
        congr 1
        omega

end HostArduino.print
