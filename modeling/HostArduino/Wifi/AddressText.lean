import HostArduino.Print.Print
import HostArduino.Wifi.IPAddress

namespace HostArduino.wifi

open Lib
open http (Text isdigit readDigits)

/-- `snprintf(buf, size, ..)` of a text: as much of it as fits in front of a NUL. -/
def snprintf (size : Nat) (text : Text) : Text :=
  text.take (size - 1)

namespace IPAddress

/-- What `"%u.%u.%u.%u"` is for the four bytes. -/
def dotted (ip : IPAddress) : Text :=
  http.formatUnsigned ip.a.toNat ++ 46 :: (http.formatUnsigned ip.b.toNat ++ 46 ::
    (http.formatUnsigned ip.c.toNat ++ 46 :: http.formatUnsigned ip.d.toNat))

def toString (ip : IPAddress) : Text :=
  snprintf 16 ip.dotted

/-- The loop of `printTo` over the bytes that are left, with a dot behind each but the last. -/
def printFrom {σ : Type} (p : print.Print σ) : List UInt8 → σ → Nat × σ
  | [], w => (0, w)
  | byte :: bytes, w =>
    let number := p.printText (print.formatUnsigned byte.toUInt64 10) w
    let dot := if bytes ≠ [] then p.write 46 number.2 else (0, number.2)
    let rest := printFrom p bytes dot.2
    (number.1 + dot.1 + rest.1, rest.2)

def printTo {σ : Type} (p : print.Print σ) (ip : IPAddress) (w : σ) : Nat × σ :=
  printFrom p [ip.a, ip.b, ip.c, ip.d] w

end IPAddress

theorem length_formatUnsigned_le {k n : Nat} (hn : n < 10 ^ (k + 1)) :
    (http.formatUnsigned n).length ≤ k + 1 := by
  induction k generalizing n with
  | zero =>
    rw [http.formatUnsigned, if_pos (by simpa using hn)]
    exact Nat.le_refl 1
  | succ k ih =>
    rw [http.formatUnsigned]
    split
    · exact Nat.le_add_left 1 (k + 1)
    · have hless : n / 10 < 10 ^ (k + 1) := Nat.div_lt_of_lt_mul (by rwa [← Nat.pow_succ'])
      rw [List.length_append]
      exact Nat.succ_le_succ (ih hless)

theorem Field.number_ofByte (byte : UInt8) : (Field.ofByte byte).number = byte.toNat :=
  (http.formatUnsigned_spec _).2.2

theorem Field.octet_ofByte (byte : UInt8) : (Field.ofByte byte).Octet where
  spaces := rfl
  sign := rfl
  number_le := by
    rw [Field.number_ofByte]
    exact Nat.le_of_lt_succ byte.toNat_lt

namespace IPAddress

variable (ip : IPAddress)

theorem dotted_spec : Dotted ip.dotted ip := by
  let q : Quad :=
    { a := .ofByte ip.a, b := .ofByte ip.b, c := .ofByte ip.c, d := .ofByte ip.d, rest := [], rest_stops := by simp }
  refine ⟨q, ⟨?_, rfl⟩, ?_, ?_⟩
  · simp only [q, List.forall_mem_cons, List.not_mem_nil, false_implies, implies_true, and_true]
    exact ⟨Field.octet_ofByte _, Field.octet_ofByte _, Field.octet_ofByte _, Field.octet_ofByte _⟩
  · simp [q, Quad.text, Field.text, Field.ofByte, dotted]
  · simp only [q, List.map_cons, List.map_nil, Field.number_ofByte]

/-- The buffer of `toString` has room for every address. -/
theorem toString_eq : ip.toString = ip.dotted := by
  refine List.take_of_length_le ?_
  have hbyte (byte : UInt8) : (http.formatUnsigned byte.toNat).length ≤ 3 :=
    length_formatUnsigned_le (Nat.lt_trans byte.toNat_lt (by decide))
  have ha := hbyte ip.a
  have hb := hbyte ip.b
  have hc := hbyte ip.c
  have hd := hbyte ip.d
  simp only [dotted, List.length_append, List.length_cons]
  omega

theorem printText_byte {σ : Type} (sink : print.AcceptingSink σ) (byte : UInt8) (w : σ) :
    (sink.printText (print.formatUnsigned byte.toUInt64 10) w).1 = (http.formatUnsigned byte.toNat).length ∧
      sink.received (sink.printText (print.formatUnsigned byte.toUInt64 10) w).2 =
        sink.received w ++ http.formatUnsigned byte.toNat := by
  have htext : print.formatUnsigned byte.toUInt64 10 = http.formatUnsigned byte.toNat := by
    rw [print.formatUnsigned, dif_pos (.inl rfl), print.decimal, if_neg (by omega)]
    simp
  obtain ⟨hcount, hreceived⟩ := sink.printText_spec (print.formatUnsigned byte.toUInt64 10) w
  rw [print.c_str_eq_self_iff.mpr (print.nul_notMem_formatUnsigned _ _)] at hcount hreceived
  rw [htext] at hcount hreceived ⊢
  exact ⟨hcount, hreceived⟩

/-- What `printTo` sends to a sink that accepts all, with dots between the bytes. -/
theorem printFrom_spec {σ : Type} (sink : print.AcceptingSink σ)
    (hwrite : ∀ b w, (sink.write b w).1 = 1 ∧ sink.received (sink.write b w).2 = sink.received w ++ [b])
    (bytes : List UInt8) (w : σ) :
    (printFrom sink.toPrint bytes w).1 =
        (List.intercalate [46] (bytes.map fun byte => http.formatUnsigned byte.toNat)).length ∧
      sink.received (printFrom sink.toPrint bytes w).2 =
        sink.received w ++ List.intercalate [46] (bytes.map fun byte => http.formatUnsigned byte.toNat) := by
  induction bytes generalizing w with
  | nil => exact ⟨rfl, (List.append_nil _).symm⟩
  | cons byte bytes ih =>
    obtain ⟨hnumber, hreceived⟩ := printText_byte sink byte w
    cases bytes with
    | nil => simp [printFrom, hnumber, hreceived]
    | cons next bytes =>
      obtain ⟨hdot, hdotted⟩ := hwrite 46 (sink.printText (print.formatUnsigned byte.toUInt64 10) w).2
      obtain ⟨hrest, hall⟩ := ih (sink.write 46 (sink.printText (print.formatUnsigned byte.toUInt64 10) w).2).2
      rw [List.map_cons] at hrest hall
      rw [printFrom, List.map_cons, List.map_cons, List.intercalate_cons_cons]
      simp only [if_pos (List.cons_ne_nil next bytes)]
      refine ⟨?_, ?_⟩
      · rw [hnumber, hdot, hrest, List.length_append, List.length_append]
        rfl
      · rw [hall, hdotted, hreceived]
        simp only [List.append_assoc]

theorem dotted_eq : ip.dotted =
    List.intercalate [46] ([ip.a, ip.b, ip.c, ip.d].map fun byte => http.formatUnsigned byte.toNat) := by
  simp [dotted, List.intercalate_cons_cons]

end IPAddress

/-- The text of an address stands for it: whatever `%u` makes of numbers that C leaves open,
    `fromString` reads it back as that address, `connect` and `beginPacket` go to the address
    without the resolver, and `printTo` sends the same text, and no other address has it. -/
theorem address_text (conv : Conversion) (ip : IPAddress) :
    (∀ old : IPAddress, old.fromString conv (some ip.toString) = (true, ip)) ∧
      (∀ {σ : Type} (N : Network σ) port w, N.connectHost conv (some ip.toString) port w = N.connect ip port w) ∧
      (∀ getaddrinfo (u : WiFiUDP) port, u.beginPacketHost conv getaddrinfo (some ip.toString) port =
        u.beginPacket ip port) ∧
      (∀ {σ : Type} (sink : print.AcceptingSink σ),
        (∀ b w, (sink.write b w).1 = 1 ∧ sink.received (sink.write b w).2 = sink.received w ++ [b]) →
          ∀ w, (ip.printTo sink.toPrint w).1 = ip.toString.length ∧
            sink.received (ip.printTo sink.toPrint w).2 = sink.received w ++ ip.toString) ∧
      ∀ other : IPAddress, other.toString = ip.toString → other = ip := by
  have hread : ∀ ip old : IPAddress, old.fromString conv (some ip.toString) = (true, ip) := by
    intro ip old
    obtain ⟨q, hstrict, htext, haddress⟩ := (dotted_iff conv).mp ip.dotted_spec
    rw [ip.toString_eq, htext, (old.fromString_text conv q).1 (hstrict.small conv), ← haddress]
  refine ⟨hread ip, fun N port w => ?_, fun getaddrinfo u port => ?_, fun sink hwrite w => ?_, fun other hsame => ?_⟩
  · simp only [Network.connectHost, hread ip IPAddress.zero, if_true]
  · simp only [WiFiUDP.beginPacketHost, hread ip IPAddress.zero, if_true]
    split
    · rename_i hclosed
      rw [WiFiUDP.beginPacket, if_pos hclosed]
    · rfl
  · rw [ip.toString_eq, ip.dotted_eq]
    exact IPAddress.printFrom_spec sink hwrite _ w
  · have hother := hread other IPAddress.zero
    rw [hsame, hread ip IPAddress.zero] at hother
    exact (Prod.mk.inj hother).2.symm

theorem address_text_loopback :
    IPAddress.toString ⟨127, 0, 0, 1⟩ = http.ascii "127.0.0.1" ∧
      IPAddress.zero.fromString .gnu (some (http.ascii "127.0.0.1")) = (true, ⟨127, 0, 0, 1⟩) ∧
      (IPAddress.printTo print.byteSink.toPrint ⟨127, 0, 0, 1⟩ []).1 = 9 := by
  have htext : IPAddress.toString ⟨127, 0, 0, 1⟩ = http.ascii "127.0.0.1" := by
    simp [IPAddress.toString, IPAddress.dotted, snprintf, http.formatUnsigned]
    decide
  obtain ⟨hread, -, -, hprint, -⟩ := address_text .gnu ⟨127, 0, 0, 1⟩
  have hcount := (hprint print.byteSink (fun b w => ⟨rfl, rfl⟩) []).1
  rw [htext] at hread hcount
  exact ⟨htext, hread _, hcount⟩

end HostArduino.wifi
