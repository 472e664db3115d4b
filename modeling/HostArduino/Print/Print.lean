import HostArduino.Preferences.SharedMap
import HostArduino.Print.Format

namespace HostArduino.print

open http preferences

/-- What a subclass of `Print` provides over a world: the two virtual `write`s. -/
structure Print (σ : Type) where
  write : UInt8 → σ → Nat × σ
  writeBuffer : List UInt8 → σ → Nat × σ

variable {σ : Type}

/-- `write(buffer, size)` where a subclass does not override it. -/
def writeEach (write : UInt8 → σ → Nat × σ) : List UInt8 → σ → Nat × σ
  | [], w => (0, w)
  | b :: buffer, w =>
    let first := write b w
    let rest := writeEach write buffer first.2
    (first.1 + rest.1, rest.2)

namespace Print

variable (P : Print σ)

/-- `write(str)`; `none` is a null pointer. -/
def writeStr (str : Option Text) (w : σ) : Nat × σ :=
  match str with
  | some str => P.writeBuffer (c_str str) w
  | none => (0, w)

/-- `print` of a `String`. -/
def printText (value : Text) (w : σ) : Nat × σ :=
  P.writeStr (some value) w

def printSigned (value : Int64) (base : Int) (w : σ) : Nat × σ :=
  P.printText (formatSigned value (UInt8.ofInt base)) w

def printInt (value : Int32) (base : Int) (w : σ) : Nat × σ :=
  P.printSigned value.toInt64 base w

end Print

/-- A sink that accepts all it is given, and keeps it. -/
structure AcceptingSink (σ : Type) extends Print σ where
  received : σ → List UInt8
  accepts : ∀ buffer w, (writeBuffer buffer w).1 = buffer.length ∧
    received (writeBuffer buffer w).2 = received w ++ buffer

/-- The sink that overrides only `write(value)`. -/
def byteSink : AcceptingSink (List UInt8) where
  write b w := (1, w ++ [b])
  writeBuffer := writeEach fun b w => (1, w ++ [b])
  received w := w
  accepts buffer w := by
    induction buffer generalizing w with
    | nil => simp [writeEach]
    | cons b buffer ih =>
      obtain ⟨hcount, hreceived⟩ := ih (w ++ [b])
      simp only [writeEach, hcount, hreceived, List.length_cons, List.append_assoc, List.singleton_append,
        and_true]
      exact Nat.add_comm _ _

theorem c_str_eq_self_iff {text : Text} : c_str text = text ↔ 0 ∉ text := by
  rw [c_str, List.takeWhile_eq_self_iff]
  constructor
  · intro hall hnul
    simpa using hall 0 hnul
  · intro hnul b hb
    simpa using fun hzero : b = 0 => hnul (hzero ▸ hb)

theorem c_str_length_eq_iff {text : Text} : (c_str text).length = text.length ↔ 0 ∉ text := by
  rw [← c_str_eq_self_iff]
  constructor
  · exact fun hlength => (List.takeWhile_prefix _).eq_of_length hlength
  · exact congrArg List.length

/-- What a sink that accepts all gets of a `String`: its bytes up to the first NUL. -/
theorem AcceptingSink.printText_spec (sink : AcceptingSink σ) (value : Text) (w : σ) :
    (sink.printText value w).1 = (c_str value).length ∧
      sink.received (sink.printText value w).2 = sink.received w ++ c_str value :=
  sink.accepts (c_str value) w

theorem nul_notMem_decimal (value : Int) : 0 ∉ decimal value := by
  have hdigits : (0 : UInt8) ∉ http.formatUnsigned value.natAbs := fun hmem =>
    absurd (isdigit_formatUnsigned _ 0 hmem) (by decide)
  unfold decimal
  split
  · simpa using hdigits
  · exact hdigits

theorem nul_notMem_formatUnsigned (value : UInt64) (base : UInt8) : 0 ∉ formatUnsigned value base := by
  unfold formatUnsigned
  split
  · exact nul_notMem_decimal _
  · rename_i hunsupported
    have hbase := two_le_base hunsupported
    have hsupported : base.toNat ≤ 36 := base_le hunsupported
    rw [digitLoop_eq, List.append_nil]
    intro hmem
    have hsome := (readDigits_digitsText hbase hsupported _).2 0 hmem
    have hnone : digitValue base.toNat 0 = none := if_neg (Nat.lt_irrefl _)
    rw [hnone] at hsome
    cases hsome

theorem nul_notMem_formatSigned (value : Int64) (base : UInt8) : 0 ∉ formatSigned value base := by
  unfold formatSigned
  split
  · exact nul_notMem_decimal _
  · exact nul_notMem_formatUnsigned _ _

theorem AcceptingSink.received_printInt (sink : AcceptingSink σ) (value : Int32) (base : UInt8) (w : σ) :
    sink.received (sink.printInt value base.toNat w).2 = sink.received w ++ ofInt value base := by
  have hbase : UInt8.ofInt base.toNat = base := by
    have hlt := base.toNat_lt
    rw [UInt8.ofInt, Int.emod_eq_of_lt (by omega) (by omega), Int.toNat_natCast, UInt8.ofNat_toNat]
  have hspec := (sink.printText_spec (formatSigned value.toInt64 base) w).2
  rw [c_str_eq_self_iff.mpr (nul_notMem_formatSigned _ _)] at hspec
  rw [Print.printInt, Print.printSigned, hbase]
  exact hspec

/-- `String(value, base)` and `print(value, base)` give the expected text exactly when the
    value is not negative or the base is ten. -/
theorem int_text_iff (value : Int32) (base : UInt8) :
    (ofInt value base = integerText value base ↔ 0 ≤ value.toInt ∨ base = 10) ∧
      ∀ (σ : Type) (sink : AcceptingSink σ) (w : σ),
        sink.received (sink.printInt value base.toNat w).2 = sink.received w ++ integerText value base ↔
          0 ≤ value.toInt ∨ base = 10 := by
  refine ⟨ofInt_eq_iff value base, fun σ sink w => ?_⟩
  rw [sink.received_printInt, List.append_cancel_left_eq]
  exact ofInt_eq_iff value base

/-- -1 in base 16 has the digits of 64 bits, and in an unsupported base it loses its sign. -/
theorem int_text_minus_one :
    ofInt (-1) 16 = ascii "FFFFFFFFFFFFFFFF" ∧ integerText (-1) 16 = ascii "FFFFFFFF" ∧
      ofInt (-1) 0 = ascii "18446744073709551615" ∧ integerText (-1) 0 = ascii "-1" := by
  decide +kernel

/-- A `String` gets through a sink that accepts all, and through a put and a get of a
    handle that may write, exactly when there is no NUL in it: both take it as a C string. -/
theorem text_survives_iff (s : Text) :
    (∀ (σ : Type) (sink : AcceptingSink σ) (w : σ),
      (sink.printText s w).1 = s.length ∧ sink.received (sink.printText s w).2 = sink.received w ++ s ↔
        0 ∉ s) ∧
      ∀ (p : Preferences) (store : Store) (key : Name) (d : Text), p.started_ = true → p.read_only_ = false →
        (p.getString (p.putString store (some key) (some s)).1 (some key) d = s ↔ 0 ∉ s) := by
  constructor
  · intro σ sink w
    obtain ⟨hcount, hreceived⟩ := sink.printText_spec s w
    rw [hcount, hreceived, List.append_cancel_left_eq, c_str_length_eq_iff, c_str_eq_self_iff, and_self]
  · intro p store key d hstarted hwritable
    have hentry : (p.putString store (some key) (some s)).1 p.ns_ key = some ⟨.PT_STR, c_str s⟩ :=
      putString_entry ⟨hstarted, hwritable, rfl⟩ s
    have htwice : c_str (c_str s) = c_str s := List.takeWhile_idem
    rw [getString_found ⟨hstarted, rfl⟩ hentry, if_neg (not_not.mpr rfl), htwice, c_str_eq_self_iff]

theorem text_survives_ok :
    (Preferences.mk [110] true false).getString
        ((Preferences.mk [110] true false).putString (fun _ _ => none) (some [107]) (some (ascii "ok"))).1
        (some [107]) [] = ascii "ok" :=
  ((text_survives_iff (ascii "ok")).2 _ _ _ _ rfl rfl).mpr (by decide)

/-- Three bytes with a NUL as the second: only the first one gets through. -/
theorem text_cut_at_nul :
    byteSink.printText [97, 0, 98] [] = (1, [97]) ∧
      (Preferences.mk [110] true false).getString
        ((Preferences.mk [110] true false).putString (fun _ _ => none) (some [107]) (some [97, 0, 98])).1
        (some [107]) [] = [97] := by
  decide

end HostArduino.print
