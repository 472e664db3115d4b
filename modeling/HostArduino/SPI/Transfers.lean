import HostArduino.SPI.SPIClass

namespace HostArduino.spi

open Lib

variable {δ : Type*}

namespace SPIClass

/-- The device at the other end: without a hook the bus is idle. -/
def respond (s : SPIClass δ) : Mealy δ UInt8 UInt8 :=
  fun device byte =>
    match s.transferHook with
    | some hook => hook byte device
    | none => (0xFF, device)

/-- Bytes handed to the device one after the other, each counted, and its answers. -/
def exchange (s : SPIClass δ) (bytes : List UInt8) : List UInt8 × SPIClass δ :=
  let (answers, device) := Mealy.feed s.respond s.device bytes
  (answers, { s with transferCount := s.transferCount + UInt32.ofNat bytes.length, device })

/-- The low bytes of a number in the order in which they are sent. -/
def wireBytes (s : SPIClass δ) (count value : Nat) : List UInt8 :=
  if s.settings.bitOrder = MSBFIRST then (LittleEndian.encode count value).reverse
  else LittleEndian.encode count value

/-- The bytes of `value` are exchanged for those of `result`: each answer is at the place of
    the byte that it answers. -/
structure Exchanges (s : SPIClass δ) (count value result : Nat) (s' : SPIClass δ) : Prop where
  exchange : s.exchange (s.wireBytes count value) = (s.wireBytes count result, s')
  result_lt : result < 256 ^ count

end SPIClass

open SPIClass

variable {s : SPIClass δ}

theorem transfer_eq (s : SPIClass δ) (data : UInt8) :
    s.transfer data =
      ((s.respond s.device data).1,
        { s with transferCount := s.transferCount + 1, device := (s.respond s.device data).2 }) := by
  unfold transfer respond
  cases s.transferHook with
  | none => rfl
  | some hook => rfl

theorem feed_transfer (s : SPIClass δ) (bytes : List UInt8) : Mealy.feed transfer s bytes = s.exchange bytes := by
  induction bytes generalizing s with
  | nil => simp [Mealy.feed, exchange]
  | cons byte bytes ih =>
    rw [Mealy.feed_cons, ih, transfer_eq]
    unfold exchange
    rw [Mealy.feed_cons, List.length_cons, Nat.add_comm, UInt32.ofNat_add, ← UInt32.add_assoc]
    rfl

theorem exchange_append (s : SPIClass δ) (xs ys : List UInt8) :
    s.exchange (xs ++ ys) =
      ((s.exchange xs).1 ++ ((s.exchange xs).2.exchange ys).1, ((s.exchange xs).2.exchange ys).2) := by
  simp only [← feed_transfer, Mealy.feed_append]

theorem exchange_cons (s : SPIClass δ) (byte : UInt8) (bytes : List UInt8) :
    s.exchange (byte :: bytes) =
      ((s.transfer byte).1 :: ((s.transfer byte).2.exchange bytes).1, ((s.transfer byte).2.exchange bytes).2) := by
  simp only [← feed_transfer, Mealy.feed_cons]

theorem length_exchange (s : SPIClass δ) (bytes : List UInt8) : (s.exchange bytes).1.length = bytes.length :=
  Mealy.length_feed s.device bytes

section Word

theorem encode_eq_map (count value : Nat) :
    LittleEndian.encode count value = (List.range count).map fun i => UInt8.ofNat (value / 256 ^ i) := by
  induction count generalizing value with
  | zero => rfl
  | succ count ih =>
    rw [LittleEndian.encode, ih, List.range_succ_eq_map, List.map_cons, List.map_map, Nat.pow_zero, Nat.div_one]
    refine congrArg (UInt8.ofNat value :: ·) (List.map_congr_left fun i _ => ?_)
    rw [Nat.div_div_eq_div_mul, Function.comp_apply, Nat.succ_eq_add_one, Nat.pow_succ, Nat.mul_comm]

/-- The byte of a word that is sent for a shift. -/
def byteAt (data : UInt32) (shift : Nat) : UInt8 :=
  ((data >>> UInt32.ofNat shift) &&& 0xFF).toUInt8

theorem toNat_shift {i : Nat} (hi : i < 4) : (UInt32.ofNat (i * 8)).toNat % 32 = i * 8 := by
  rw [UInt32.toNat_ofNat']
  omega

theorem byteAt_eq (data : UInt32) {i : Nat} (hi : i < 4) :
    byteAt data (i * 8) = UInt8.ofNat (data.toNat / 256 ^ i) := by
  have hpow : 2 ^ (i * 8) = 256 ^ i := by rw [Nat.mul_comm, Nat.pow_mul]
  have hmask : ∀ n, n &&& (0xFF : UInt32).toNat = n % 256 := fun n => Nat.and_two_pow_sub_one_eq_mod n 8
  rw [← UInt8.toNat_inj, byteAt, UInt32.toNat_toUInt8, UInt32.toNat_and, UInt32.toNat_shiftRight,
    toNat_shift hi, Nat.shiftRight_eq_div_pow, hpow, hmask, UInt8.toNat_ofNat', Nat.mod_mod]

/-- A byte shifted to its place. -/
theorem toNat_shifted (byte : UInt8) {i : Nat} (hi : i < 4) :
    (byte.toUInt32 <<< UInt32.ofNat (i * 8)).toNat = byte.toNat <<< (i * 8) := by
  rw [UInt32.toNat_shiftLeft, toNat_shift hi, UInt8.toNat_toUInt32]
  refine Nat.mod_eq_of_lt ?_
  have hbyte := byte.toNat_lt
  have hpow : 2 ^ (i * 8) ≤ 2 ^ 24 := Nat.pow_le_pow_right (by omega) (by omega)
  rw [Nat.shiftLeft_eq]
  calc byte.toNat * 2 ^ (i * 8) ≤ byte.toNat * 2 ^ 24 := Nat.mul_le_mul_left _ hpow
    _ < 2 ^ 32 := by omega

theorem shiftLeft_eight (n i : Nat) : n <<< (i * 8) = 256 ^ i * n := by
  rw [Nat.shiftLeft_eq, Nat.mul_comm i, Nat.pow_mul, Nat.mul_comm]

/-- A byte put above all that has come in. -/
theorem toNat_or_above {in_ : UInt32} {i : Nat} (hi : i < 4) (hin : in_.toNat < 256 ^ i) (byte : UInt8) :
    (in_ ||| byte.toUInt32 <<< UInt32.ofNat (i * 8)).toNat = in_.toNat + 256 ^ i * byte.toNat := by
  have hlt : in_.toNat < 2 ^ (i * 8) := by
    rw [Nat.mul_comm, Nat.pow_mul]
    exact hin
  rw [UInt32.toNat_or, toNat_shifted byte hi, Nat.or_comm, ← Nat.shiftLeft_add_eq_or_of_lt hlt, shiftLeft_eight,
    Nat.add_comm]

/-- A byte put below all that has come in. -/
theorem toNat_or_below {in_ : UInt32} {i : Nat} (hi : i < 4) (hin : 256 ^ (i + 1) ∣ in_.toNat) (byte : UInt8) :
    (in_ ||| byte.toUInt32 <<< UInt32.ofNat (i * 8)).toNat = in_.toNat + 256 ^ i * byte.toNat := by
  obtain ⟨q, hq⟩ := hin
  have hlt : byte.toNat <<< (i * 8) < 2 ^ ((i + 1) * 8) := by
    have hbyte := byte.toNat_lt
    rw [shiftLeft_eight, Nat.mul_comm (i + 1), Nat.pow_mul, Nat.pow_succ]
    exact Nat.mul_lt_mul_of_pos_left hbyte (Nat.pow_pos (by omega))
  rw [UInt32.toNat_or, toNat_shifted byte hi, hq, ← shiftLeft_eight, ← Nat.shiftLeft_add_eq_or_of_lt hlt,
    shiftLeft_eight, shiftLeft_eight]

end Word

section ShiftLoop

/-- What the answers come to, each put at the shift of the byte it answers. -/
def place (in_ : UInt32) : List Nat → List UInt8 → UInt32
  | shift :: shifts, byte :: bytes => place (in_ ||| byte.toUInt32 <<< UInt32.ofNat shift) shifts bytes
  | _, _ => in_

theorem shiftLoop_eq (s : SPIClass δ) (data in_ : UInt32) (shifts : List Nat) :
    s.shiftLoop data in_ shifts =
      (place in_ shifts (s.exchange (shifts.map (byteAt data))).1, (s.exchange (shifts.map (byteAt data))).2) := by
  induction shifts generalizing s in_ with
  | nil => simp [shiftLoop, place, exchange, Mealy.feed]
  | cons shift shifts ih =>
    rw [List.map_cons, exchange_cons, place]
    exact ih _ _

/-- Upwards, from the place of the first answer on. -/
theorem toNat_place_up {answers : List UInt8} {k : Nat} (hfits : k + answers.length ≤ 4) {in_ : UInt32}
    (hin : in_.toNat < 256 ^ k) :
    (place in_ ((List.range' k answers.length).map fun i => i * 8) answers).toNat =
      in_.toNat + 256 ^ k * LittleEndian.decode answers := by
  induction answers generalizing k in_ with
  | nil => simp [place, LittleEndian.decode]
  | cons byte answers ih =>
    rw [List.length_cons] at hfits
    have hstep := toNat_or_above (i := k) (by omega) hin byte
    have hbyte := byte.toNat_lt
    have hnext : (in_ ||| byte.toUInt32 <<< UInt32.ofNat (k * 8)).toNat < 256 ^ (k + 1) := by
      rw [hstep, Nat.pow_succ]
      calc in_.toNat + 256 ^ k * byte.toNat < 256 ^ k + 256 ^ k * byte.toNat := Nat.add_lt_add_right hin _
        _ = 256 ^ k * (byte.toNat + 1) := by rw [Nat.mul_succ, Nat.add_comm]
        _ ≤ 256 ^ k * 256 := Nat.mul_le_mul_left _ hbyte
    rw [List.length_cons, List.range'_succ, List.map_cons, place, ih (by omega) hnext, hstep,
      LittleEndian.decode, Nat.pow_succ, Nat.mul_add, Nat.mul_assoc, Nat.add_assoc]

/-- Downwards, to the place of the last answer. -/
theorem toNat_place_down {answers : List UInt8} (hfits : answers.length ≤ 4) {in_ : UInt32}
    (hin : 256 ^ answers.length ∣ in_.toNat) :
    (place in_ ((List.range answers.length).map fun i => i * 8).reverse answers).toNat =
      in_.toNat + LittleEndian.decode answers.reverse := by
  induction answers generalizing in_ with
  | nil => simp [place, LittleEndian.decode]
  | cons byte answers ih =>
    rw [List.length_cons] at hfits hin
    have hstep := toNat_or_below (i := answers.length) (by omega) hin byte
    have hnext : 256 ^ answers.length ∣ (in_ ||| byte.toUInt32 <<< UInt32.ofNat (answers.length * 8)).toNat := by
      rw [hstep]
      exact Nat.dvd_add (Nat.dvd_trans (Nat.pow_dvd_pow 256 (Nat.le_succ _)) hin) (Nat.dvd_mul_right _ _)
    rw [List.length_cons, List.range_succ, List.map_append, List.map_singleton, List.reverse_append,
      List.reverse_singleton, List.singleton_append, place, ih (by omega) hnext, hstep, List.reverse_cons,
      LittleEndian.decode_append, List.length_reverse, LittleEndian.decode, LittleEndian.decode, Nat.mul_zero,
      Nat.add_zero, Nat.add_assoc, Nat.add_comm (256 ^ answers.length * byte.toNat)]

/-- The number whose bytes the answers are. -/
def SPIClass.wireValue (s : SPIClass δ) (answers : List UInt8) : Nat :=
  LittleEndian.decode (if s.settings.bitOrder = MSBFIRST then answers.reverse else answers)

theorem wireBytes_wireValue (s : SPIClass δ) {count : Nat} {answers : List UInt8} (hlength : answers.length = count) :
    s.wireBytes count (s.wireValue answers) = answers ∧ s.wireValue answers < 256 ^ count := by
  subst hlength
  unfold wireBytes wireValue
  by_cases horder : s.settings.bitOrder = MSBFIRST
  · have hencode := LittleEndian.encode_decode answers.reverse
    have hlt := LittleEndian.decode_lt answers.reverse
    rw [List.length_reverse] at hencode hlt
    rw [if_pos horder, if_pos horder, hencode, List.reverse_reverse]
    exact ⟨rfl, hlt⟩
  · rw [if_neg horder, if_neg horder]
    exact ⟨LittleEndian.encode_decode answers, LittleEndian.decode_lt answers⟩

theorem length_wireBytes (s : SPIClass δ) (count value : Nat) : (s.wireBytes count value).length = count := by
  unfold wireBytes
  split
  · rw [List.length_reverse, LittleEndian.length_encode]
  · exact LittleEndian.length_encode count value

/-- A number made of the answers is exchanged for the bytes sent. -/
theorem exchanges_wireValue (s : SPIClass δ) (count value : Nat) :
    s.Exchanges count value (s.wireValue (s.exchange (s.wireBytes count value)).1)
      (s.exchange (s.wireBytes count value)).2 := by
  have hlength := length_exchange s (s.wireBytes count value)
  rw [length_wireBytes] at hlength
  obtain ⟨hbytes, hlt⟩ := wireBytes_wireValue s hlength
  exact ⟨Prod.ext hbytes.symm rfl, hlt⟩

/-- The shifts of a word's low bytes, in the order in which they are sent. -/
def SPIClass.shifts (s : SPIClass δ) (count : Nat) : List Nat :=
  if s.settings.bitOrder = MSBFIRST then ((List.range count).map fun i => i * 8).reverse
  else (List.range count).map fun i => i * 8

theorem map_byteAt_shifts (s : SPIClass δ) {count : Nat} (hcount : count ≤ 4) (data : UInt32) :
    (s.shifts count).map (byteAt data) = s.wireBytes count data.toNat := by
  have hbytes : ((List.range count).map fun i => i * 8).map (byteAt data) =
      LittleEndian.encode count data.toNat := by
    rw [encode_eq_map, List.map_map]
    refine List.map_congr_left fun i hi => byteAt_eq data ?_
    have hlt := List.mem_range.mp hi
    omega
  unfold shifts wireBytes
  split
  · rw [List.map_reverse, hbytes]
  · exact hbytes

theorem toNat_place_shifts (s : SPIClass δ) {answers : List UInt8} (hfits : answers.length ≤ 4) :
    (place 0 (s.shifts answers.length) answers).toNat = s.wireValue answers := by
  unfold shifts wireValue
  split
  · rw [toNat_place_down hfits (Nat.dvd_zero _), UInt32.toNat_zero, Nat.zero_add]
  · rw [List.range_eq_range', toNat_place_up (by omega) Nat.one_pos, UInt32.toNat_zero, Nat.zero_add,
      Nat.pow_zero, Nat.one_mul]

/-- The loop over a word's low bytes. -/
theorem shiftLoop_exchanges (s : SPIClass δ) {count : Nat} (hcount : count ≤ 4) (data : UInt32) :
    s.Exchanges count data.toNat (s.shiftLoop data 0 (s.shifts count)).1.toNat
      (s.shiftLoop data 0 (s.shifts count)).2 := by
  have hlength := length_exchange s (s.wireBytes count data.toNat)
  rw [length_wireBytes] at hlength
  have hvalue := toNat_place_shifts s (hlength.trans_le hcount)
  rw [hlength] at hvalue
  rw [shiftLoop_eq, map_byteAt_shifts s hcount, hvalue]
  exact exchanges_wireValue s count data.toNat

end ShiftLoop

section Transfers

theorem toNat_halves (hi lo : UInt8) :
    (hi.toUInt16 <<< 8 ||| lo.toUInt16).toNat = lo.toNat + 256 * hi.toNat := by
  have hhi := hi.toNat_lt
  have hlo : lo.toNat < 2 ^ 8 := lo.toNat_lt
  have hshift : (hi.toUInt16 <<< 8).toNat = hi.toNat <<< 8 := by
    rw [UInt16.toNat_shiftLeft, UInt8.toNat_toUInt16]
    refine Nat.mod_eq_of_lt ?_
    change hi.toNat <<< 8 < 2 ^ 16
    rw [Nat.shiftLeft_eq]
    omega
  rw [UInt16.toNat_or, hshift, UInt8.toNat_toUInt16, ← Nat.shiftLeft_add_eq_or_of_lt hlo, Nat.shiftLeft_eq]
  omega

theorem low_byte (data : UInt16) : (data &&& 0xFF).toUInt8 = UInt8.ofNat data.toNat := by
  have hmask : data.toNat &&& (0xFF : UInt16).toNat = data.toNat % 256 :=
    Nat.and_two_pow_sub_one_eq_mod data.toNat 8
  rw [← UInt8.toNat_inj, UInt16.toNat_toUInt8, UInt16.toNat_and, hmask, UInt8.toNat_ofNat', Nat.mod_mod]

theorem high_byte (data : UInt16) : (data >>> 8).toUInt8 = UInt8.ofNat (data.toNat / 256) := by
  have hshift : data.toNat >>> ((8 : UInt16).toNat % 16) = data.toNat / 256 := Nat.shiftRight_eq_div_pow _ 8
  rw [← UInt8.toNat_inj, UInt16.toNat_toUInt8, UInt16.toNat_shiftRight, hshift, UInt8.toNat_ofNat']

theorem transfer16_exchanges (s : SPIClass δ) (data : UInt16) :
    s.Exchanges 2 data.toNat (s.transfer16 data).1.toNat (s.transfer16 data).2 := by
  have hexchanges := exchanges_wireValue s 2 data.toNat
  have htwo (first second : UInt8) :
      s.exchange [first, second] =
        ([(s.transfer first).1, ((s.transfer first).2.transfer second).1],
          ((s.transfer first).2.transfer second).2) := by
    rw [exchange_cons, exchange_cons]
    simp [exchange, Mealy.feed]
  unfold wireBytes wireValue at hexchanges
  unfold transfer16
  by_cases horder : s.settings.bitOrder = MSBFIRST
  · simp only [if_pos horder, LittleEndian.encode, List.reverse_cons, List.reverse_nil, List.nil_append,
      List.singleton_append, htwo, LittleEndian.decode] at hexchanges
    simpa only [if_pos horder, low_byte, high_byte, toNat_halves, Nat.mul_zero, Nat.add_zero] using hexchanges
  · simp only [if_neg horder, LittleEndian.encode, htwo, LittleEndian.decode] at hexchanges
    simpa only [if_neg horder, low_byte, high_byte, toNat_halves, Nat.mul_zero, Nat.add_zero] using hexchanges

theorem transfer32_exchanges (s : SPIClass δ) (data : UInt32) :
    s.Exchanges 4 data.toNat (s.transfer32 data).1.toNat (s.transfer32 data).2 := by
  have hloop : s.transfer32 data = s.shiftLoop data 0 (s.shifts 4) := by
    unfold transfer32 shifts
    split <;> rfl
  rw [hloop]
  exact shiftLoop_exchanges s (Nat.le_refl 4) data

theorem transferBits_exchanges (s : SPIClass δ) (data : UInt32) {bits : UInt8} (hlow : 1 ≤ bits) (hhigh : bits ≤ 32) :
    ∃ result, ∀ out, (s.transferBits data out bits).1 = (if out then some result else none) ∧
      s.Exchanges ((bits.toNat + 7) / 8) data.toNat result.toNat (s.transferBits data out bits).2 := by
  have hlow' : 1 ≤ bits.toNat := UInt8.le_iff_toNat_le.mp hlow
  have hhigh' : bits.toNat ≤ 32 := UInt8.le_iff_toNat_le.mp hhigh
  have hbits : ¬(bits = 0 ∨ 32 < bits) := by
    rw [not_or, UInt8.not_lt]
    refine ⟨?_, hhigh⟩
    rintro rfl
    cases hlow'
  have hloop (out : Bool) : s.transferBits data out bits =
      (if out then some (s.shiftLoop data 0 (s.shifts ((bits.toNat + 7) / 8))).1 else none,
        (s.shiftLoop data 0 (s.shifts ((bits.toNat + 7) / 8))).2) := by
    unfold transferBits shifts
    rw [if_neg hbits]
    by_cases horder : s.settings.bitOrder = MSBFIRST
    · simp only [if_pos horder]
    · simp only [if_neg horder]
  refine ⟨_, fun out => ⟨congrArg Prod.fst (hloop out), ?_⟩⟩
  rw [hloop]
  exact shiftLoop_exchanges s (by omega) data

/-- What is sent of a buffer, or of a null pointer. -/
def sourceBytes {size : Nat} (data : Option (Vector UInt8 size)) : List UInt8 :=
  data.elim (List.replicate size 0) Vector.toList

theorem map_sourceByte {size : Nat} (data : Option (Vector UInt8 size)) :
    (List.finRange size).map (sourceByte data) = sourceBytes data := by
  cases data with
  | none =>
    have hconst : sourceByte (none : Option (Vector UInt8 size)) = fun _ => 0 := rfl
    rw [hconst, List.map_const', List.length_finRange]
    rfl
  | some bytes =>
    refine List.ext_getElem (by simp [sourceBytes]) fun i hi hi' => ?_
    simp [sourceByte, sourceBytes]

theorem feed_sourceByte (s : SPIClass δ) {size : Nat} (data : Option (Vector UInt8 size)) :
    Mealy.feed (fun (s : SPIClass δ) i => s.transfer (sourceByte data i)) s (List.finRange size) =
      s.exchange (sourceBytes data) := by
  rw [← map_sourceByte, ← feed_transfer, Mealy.feed_map]

theorem transferBytes_eq (s : SPIClass δ) {size : Nat} (data : Option (Vector UInt8 size)) (out : Bool) :
    s.transferBytes data out =
      (if out then some (s.exchange (sourceBytes data)).1 else none, (s.exchange (sourceBytes data)).2) := by
  rw [transferBytes, feed_sourceByte]

theorem writeBytes_eq (s : SPIClass δ) {size : Nat} (data : Option (Vector UInt8 size)) :
    s.writeBytes data = (s.exchange (sourceBytes data)).2 := by
  rw [writeBytes, feed_sourceByte]

theorem writePattern_eq (s : SPIClass δ) {size : Nat} (pattern : Vector UInt8 size) (repeat_ : UInt32) :
    s.writePattern (some pattern) repeat_ =
      (s.exchange (List.replicate repeat_.toNat pattern.toList).flatten).2 := by
  have hloop (n : Nat) (s : SPIClass δ) :
      (fun s : SPIClass δ => s.writeBytes (some pattern))^[n] s =
        (s.exchange (List.replicate n pattern.toList).flatten).2 := by
    induction n generalizing s with
    | zero => simp [exchange, Mealy.feed]
    | succ n ih =>
      rw [Function.iterate_succ_apply, ih, writeBytes_eq, List.replicate_succ, List.flatten_cons, exchange_append]
      rfl
  unfold writePattern
  split
  · rename_i hnothing
    obtain hnone | rfl := hnothing
    · cases hnone
    · have hempty : pattern.toList = [] := List.eq_nil_of_length_eq_zero (by simp)
      simp [hempty, exchange, Mealy.feed]
  · exact hloop _ s

theorem wireBytes_inj (s : SPIClass δ) {count m n : Nat} (hm : m < 256 ^ count) (hn : n < 256 ^ count)
    (heq : s.wireBytes count m = s.wireBytes count n) : m = n := by
  have hencode : LittleEndian.encode count m = LittleEndian.encode count n := by
    unfold wireBytes at heq
    split at heq
    · exact List.reverse_injective heq
    · exact heq
  have hvalue := congrArg LittleEndian.decode hencode
  rwa [LittleEndian.decode_encode hm, LittleEndian.decode_encode hn] at hvalue

/-- The bytes of a word are those of its halves. -/
theorem wireBytes_halves (s : SPIClass δ) {low : Nat} (hlow : low < 256 ^ 2) (high : Nat) :
    s.wireBytes 4 (low + 256 ^ 2 * high) =
      if s.settings.bitOrder = MSBFIRST then s.wireBytes 2 high ++ s.wireBytes 2 low
      else s.wireBytes 2 low ++ s.wireBytes 2 high := by
  have hmod : (low + 256 ^ 2 * high) % 256 ^ 2 = low := by
    rw [Nat.add_mul_mod_self_left, Nat.mod_eq_of_lt hlow]
  have hdiv : (low + 256 ^ 2 * high) / 256 ^ 2 = high := by
    rw [Nat.add_mul_div_left _ _ (by omega), Nat.div_eq_of_lt hlow, Nat.zero_add]
  have hencode : LittleEndian.encode 4 (low + 256 ^ 2 * high) =
      LittleEndian.encode 2 low ++ LittleEndian.encode 2 high := by
    rw [LittleEndian.encode_add 2 2, hdiv, ← LittleEndian.encode_mod, hmod]
  unfold wireBytes
  rw [hencode, List.reverse_append]
  split <;> rfl

/-- The same bytes are answered with the same bytes. -/
theorem SPIClass.Exchanges.unique {count value result result' : Nat} {s' s'' : SPIClass δ}
    (h : s.Exchanges count value result s') (h' : s.Exchanges count value result' s'') :
    (result, s') = (result', s'') := by
  obtain ⟨hbytes, hstate⟩ := Prod.mk.inj (h.exchange.symm.trans h'.exchange)
  rw [wireBytes_inj s h.result_lt h'.result_lt hbytes, hstate]

theorem SPIClass.Exchanges.settings {count value result : Nat} {s' : SPIClass δ}
    (h : s.Exchanges count value result s') : s'.settings = s.settings := by
  obtain rfl := congrArg Prod.snd h.exchange
  rfl

/-- One word after the other. -/
theorem SPIClass.Exchanges.pair {a b a' b' : Nat} {s₁ s₂ : SPIClass δ} (hfirst : s.Exchanges 2 a a' s₁)
    (hsecond : s₁.Exchanges 2 b b' s₂) :
    s.exchange (s.wireBytes 2 a ++ s.wireBytes 2 b) = (s.wireBytes 2 a' ++ s.wireBytes 2 b', s₂) := by
  have hbytes := hsecond.exchange
  unfold wireBytes at hbytes
  rw [hfirst.settings] at hbytes
  rw [exchange_append, hfirst.exchange]
  exact congrArg (fun r : List UInt8 × SPIClass δ => (s.wireBytes 2 a' ++ r.1, r.2)) hbytes

/-- Two words of 16 bits sent one after the other, the upper half first for `MSBFIRST`. -/
def SPIClass.transferHalves (s : SPIClass δ) (high low : UInt16) : Nat × SPIClass δ :=
  if s.settings.bitOrder = MSBFIRST then
    let (high, s) := s.transfer16 high
    let (low, s) := s.transfer16 low
    (low.toNat + 256 ^ 2 * high.toNat, s)
  else
    let (low, s) := s.transfer16 low
    let (high, s) := s.transfer16 high
    (low.toNat + 256 ^ 2 * high.toNat, s)

/-- Two halves are exchanged as the word that they make up. -/
theorem transferHalves_exchanges (s : SPIClass δ) (high low : UInt16) :
    s.Exchanges 4 (low.toNat + 256 ^ 2 * high.toNat) (s.transferHalves high low).1
      (s.transferHalves high low).2 := by
  have hword {a b : Nat} (ha : a < 256 ^ 2) (hb : b < 256 ^ 2) : a + 256 ^ 2 * b < 256 ^ 4 := by omega
  unfold transferHalves
  by_cases horder : s.settings.bitOrder = MSBFIRST
  · have hfirst := transfer16_exchanges s high
    have hsecond := transfer16_exchanges (s.transfer16 high).2 low
    rw [if_pos horder]
    refine ⟨?_, hword hsecond.result_lt hfirst.result_lt⟩
    rw [wireBytes_halves s low.toNat_lt, wireBytes_halves s hsecond.result_lt, if_pos horder, if_pos horder]
    exact hfirst.pair hsecond
  · have hfirst := transfer16_exchanges s low
    have hsecond := transfer16_exchanges (s.transfer16 low).2 high
    rw [if_neg horder]
    refine ⟨?_, hword hfirst.result_lt hsecond.result_lt⟩
    rw [wireBytes_halves s low.toNat_lt, wireBytes_halves s hfirst.result_lt, if_neg horder, if_neg horder]
    exact hfirst.pair hsecond

theorem transfer32_eq_halves (s : SPIClass δ) (data : UInt32) :
    s.transferHalves (data >>> 16).toUInt16 data.toUInt16 =
      ((s.transfer32 data).1.toNat, (s.transfer32 data).2) := by
  have hlt := data.toNat_lt
  have hhigh : (data >>> 16).toUInt16.toNat = data.toNat / 256 ^ 2 := by
    have hshift : data.toNat >>> ((16 : UInt32).toNat % 32) = data.toNat / 2 ^ 16 := Nat.shiftRight_eq_div_pow _ 16
    rw [UInt32.toNat_toUInt16, UInt32.toNat_shiftRight, hshift]
    omega
  have hlow : data.toUInt16.toNat = data.toNat % 256 ^ 2 := UInt32.toNat_toUInt16 data
  have hword : data.toUInt16.toNat + 256 ^ 2 * (data >>> 16).toUInt16.toNat = data.toNat := by
    rw [hhigh, hlow]
    omega
  have hhalves := transferHalves_exchanges s (data >>> 16).toUInt16 data.toUInt16
  rw [hword] at hhalves
  exact hhalves.unique (transfer32_exchanges s data)

/-- Every transfer of more than a byte is one of bytes: the words hand over their bytes in
    the order that the settings say and are made of the answers in that order, the buffers
    hand over theirs from the front, and each byte is counted. -/
theorem transfers_reduce (s : SPIClass δ) {bits : UInt8} (hlow : 1 ≤ bits) (hhigh : bits ≤ 32) :
    (∀ data : UInt16, s.Exchanges 2 data.toNat (s.transfer16 data).1.toNat (s.transfer16 data).2) ∧
    (∀ data : UInt32, s.Exchanges 4 data.toNat (s.transfer32 data).1.toNat (s.transfer32 data).2) ∧
    (∀ data : UInt32, ∃ result, ∀ out,
      (s.transferBits data out bits).1 = (if out then some result else none) ∧
        s.Exchanges ((bits.toNat + 7) / 8) data.toNat result.toNat (s.transferBits data out bits).2) ∧
    (∀ data, s.transferBuffer data = s.exchange data) ∧
    (∀ (size : Nat) (data : Option (Vector UInt8 size)) (out : Bool),
      s.transferBytes data out =
        (if out then some (s.exchange (sourceBytes data)).1 else none, (s.exchange (sourceBytes data)).2)) ∧
    (∀ (size : Nat) (data : Option (Vector UInt8 size)),
      s.writeBytes data = (s.exchange (sourceBytes data)).2) ∧
    (∀ (size : Nat) (pattern : Vector UInt8 size) (repeat_ : UInt32),
      s.writePattern (some pattern) repeat_ =
        (s.exchange (List.replicate repeat_.toNat pattern.toList).flatten).2) ∧
    (∀ bytes, (s.exchange bytes).2.transferCount = s.transferCount + UInt32.ofNat bytes.length) ∧
    ∀ data : UInt32, s.transferHalves (data >>> 16).toUInt16 data.toUInt16 =
      ((s.transfer32 data).1.toNat, (s.transfer32 data).2) :=
  ⟨transfer16_exchanges s, transfer32_exchanges s, fun data => transferBits_exchanges s data hlow hhigh,
    feed_transfer s, fun _ data out => transferBytes_eq s data out, fun _ data => writeBytes_eq s data,
    fun _ pattern repeat_ => writePattern_eq s pattern repeat_, fun _ => rfl, transfer32_eq_halves s⟩

/-- A device that keeps what it is handed and answers the complement. -/
def complementing (bitOrder : UInt8) : SPIClass (List UInt8) where
  settings := { clock := 1000000, bitOrder, dataMode := 0 }
  transferCount := 0
  transferHook := some fun byte seen => (~~~byte, seen ++ [byte])
  device := []

theorem transfers_reduce_nine :
    ∃ result, ∀ out, ((complementing LSBFIRST).transferBits 0x12A out 9).1 = (if out then some result else none) ∧
      (complementing LSBFIRST).Exchanges 2 0x12A result.toNat ((complementing LSBFIRST).transferBits 0x12A out 9).2 :=
  (transfers_reduce (complementing LSBFIRST) (by decide : (1 : UInt8) ≤ 9) (by decide)).2.2.1 0x12A

example : ((complementing MSBFIRST).transfer16 0xBEEF).1 = 0x4110 ∧
    ((complementing MSBFIRST).transfer16 0xBEEF).2.device = [0xBE, 0xEF] := by
  decide

end Transfers

end HostArduino.spi
