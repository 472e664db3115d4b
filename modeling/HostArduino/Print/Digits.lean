import HostArduino.Print.Format

namespace HostArduino.print

open http

theorem digit_decimal {n : Nat} (hn : n < 10) : 48 + UInt8.ofNat n = digit n := by
  have htable : ∀ n : Fin 10, 48 + UInt8.ofNat n.val = digit n.val := by decide
  exact htable ⟨n, hn⟩

/-- The digits are `0` to `9`, and behind them `A` to `Z`. -/
theorem digit_toNat {d : Nat} (hd : d < 36) : (digit d).toNat = if d < 10 then 48 + d else 55 + d := by
  have htable : ∀ d : Fin 36, (digit d.val).toNat = if d.val < 10 then 48 + d.val else 55 + d.val := by decide
  exact htable ⟨d, hd⟩

/-- The separate path for decimal numbers writes the same digits as the loop. -/
theorem formatUnsigned_decimal (n : Nat) : http.formatUnsigned n = digitsText 10 n := by
  fun_induction http.formatUnsigned n with
  | case1 n hn => rw [digitsText_of_lt hn, digit_decimal hn]
  | case2 n hn ih =>
    have hmore : n / 10 ≠ 0 := by omega
    rw [ih, digitsText_of_div (by omega) hmore, digit_decimal (Nat.mod_lt n (by omega))]

section Base

variable {base : UInt8} (hlow : 2 ≤ base) (hhigh : base ≤ 36)

include hlow hhigh

theorem formatUnsigned_eq (value : UInt64) :
    formatUnsigned value base = digitsText base.toNat value.toNat := by
  have hlow' : ¬base < 2 := UInt8.not_lt.mpr hlow
  have hhigh' : ¬36 < base := UInt8.not_lt.mpr hhigh
  by_cases hten : base = 10
  · subst hten
    exact formatUnsigned_decimal value.toNat
  · rw [formatUnsigned, dif_neg (by simp [hten, hlow', hhigh']), digitLoop_eq, List.append_nil]

end Base

section Digits

variable {base : Nat} (hbase : 2 ≤ base)

include hbase

/-- The digits of a number, and what stands in front of them unless the number is 0. -/
theorem digitsText_spec (n : Nat) :
    (∀ c ∈ digitsText base n, ∃ d < base, c = digit d) ∧
      ∃ d, d < base ∧ (digitsText base n).head? = some (digit d) ∧ (d = 0 → n = 0) := by
  induction n using Nat.strongRecOn with
  | ind n ih =>
    have hlast : n % base < base := Nat.mod_lt n (by omega)
    by_cases hmore : n / base = 0
    · have hlt : n < base := (Nat.div_eq_zero_iff_lt (by omega)).mp hmore
      rw [digitsText_of_lt hlt]
      exact ⟨fun c hc => ⟨n, hlt, List.mem_singleton.mp hc⟩, n, hlt, rfl, id⟩
    · obtain ⟨hdigits, d, hd, hhead, hzero⟩ := ih (n / base) (div_base_lt hbase hmore)
      rw [digitsText_of_div hbase hmore]
      refine ⟨fun c hc => ?_, d, hd, ?_, fun hd => absurd (hzero hd) hmore⟩
      · obtain hc | hc := List.mem_append.mp hc
        · exact hdigits c hc
        · exact ⟨n % base, hlast, List.mem_singleton.mp hc⟩
      · rw [List.head?_append, hhead]
        rfl

end Digits

/-- In every base from 2 to 36 the text of a number is not empty, has only digits of the
    base, begins with a zero for the number 0 alone, and reads back as the number; so two
    numbers never have the same text. -/
theorem formatUnsigned_denotes (value : UInt64) {base : UInt8} (hlow : 2 ≤ base) (hhigh : base ≤ 36) :
    formatUnsigned value base ≠ [] ∧
      (∀ c ∈ formatUnsigned value base, ∃ d < base.toNat, c = digit d ∧
        c.toNat = if d < 10 then 48 + d else 55 + d) ∧
      ((formatUnsigned value base).head? = some (digit 0) ↔ value = 0) ∧
      readDigits base.toNat 0 (formatUnsigned value base) = value.toNat ∧
      ∀ other, formatUnsigned other base = formatUnsigned value base → other = value := by
  have hbase : 2 ≤ base.toNat := UInt8.le_iff_toNat_le.mp hlow
  have hsupported : base.toNat ≤ 36 := UInt8.le_iff_toNat_le.mp hhigh
  have hread (value : UInt64) : readDigits base.toNat 0 (formatUnsigned value base) = value.toNat := by
    rw [formatUnsigned_eq hlow hhigh]
    exact (readDigits_digitsText hbase hsupported _).1
  obtain ⟨hdigits, d, hd, hhead, hzero⟩ := digitsText_spec hbase value.toNat
  rw [← formatUnsigned_eq hlow hhigh] at hdigits hhead
  refine ⟨?_, fun c hc => ?_, ?_, hread value, fun other heq => ?_⟩
  · rintro hnil
    rw [hnil] at hhead
    cases hhead
  · obtain ⟨d, hd, rfl⟩ := hdigits c hc
    exact ⟨d, hd, rfl, digit_toNat (hd.trans_le hsupported)⟩
  · rw [hhead, Option.some.injEq]
    constructor
    · intro heq
      have hvalue := digitValue_digit hsupported hd
      rw [heq, digitValue_digit hsupported (by omega)] at hvalue
      exact UInt64.toNat_inj.mp (hzero (Option.some.inj hvalue).symm)
    · rintro rfl
      have htext : digitsText base.toNat 0 = [digit 0] := rfl
      rw [formatUnsigned_eq hlow hhigh] at hhead
      have hhead' : (digitsText base.toNat 0).head? = some (digit d) := hhead
      rw [htext] at hhead'
      exact (Option.some.inj hhead').symm
  · rw [← UInt64.toNat_inj, ← hread, ← hread, heq]

theorem formatUnsigned_denotes_ff : readDigits 16 0 (formatUnsigned 255 16) = 255 :=
  (formatUnsigned_denotes 255 (by decide : (2 : UInt8) ≤ 16) (by decide)).2.2.2.1

end HostArduino.print
