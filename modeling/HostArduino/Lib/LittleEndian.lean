import Mathlib.Algebra.Order.Ring.Int

namespace Lib

universe u

namespace LittleEndian

/-- The lowest `size` bytes of a number, the lowest first. -/
def encode : Nat → Nat → List UInt8
  | 0, _ => []
  | size + 1, value => UInt8.ofNat value :: encode size (value / 256)

def decode : List UInt8 → Nat
  | [] => 0
  | low :: rest => low.toNat + 256 * decode rest

theorem length_encode (size value : Nat) : (encode size value).length = size := by
  induction size generalizing value with
  | zero => rfl
  | succ size ih => exact congrArg (· + 1) (ih (value / 256))

theorem decode_encode {size value : Nat} (hfits : value < 256 ^ size) :
    decode (encode size value) = value := by
  induction size generalizing value with
  | zero =>
    rw [Nat.pow_zero] at hfits
    obtain rfl : value = 0 := by omega
    rfl
  | succ size ih =>
    have hrest : value / 256 < 256 ^ size := by
      rw [Nat.pow_succ] at hfits
      exact Nat.div_lt_of_lt_mul (by omega)
    have hlow : (UInt8.ofNat value).toNat = value % 256 := UInt8.toNat_ofNat'
    change (UInt8.ofNat value).toNat + 256 * decode (encode size (value / 256)) = value
    rw [ih hrest, hlow]
    omega

theorem decode_lt (bytes : List UInt8) : decode bytes < 256 ^ bytes.length := by
  induction bytes with
  | nil => exact Nat.one_pos
  | cons low rest ih =>
    have hlow := low.toNat_lt
    rw [decode, List.length_cons, Nat.pow_succ]
    omega

theorem encode_decode (bytes : List UInt8) : encode bytes.length (decode bytes) = bytes := by
  induction bytes with
  | nil => rfl
  | cons low rest ih =>
    have hlow := low.toNat_lt
    have hbyte : UInt8.ofNat (low.toNat + 256 * decode rest) = low := by
      rw [← UInt8.toNat_inj, UInt8.toNat_ofNat']
      omega
    have hrest : (low.toNat + 256 * decode rest) / 256 = decode rest := by omega
    rw [List.length_cons, decode, encode, hbyte, hrest, ih]

theorem decode_append (low high : List UInt8) :
    decode (low ++ high) = decode low + 256 ^ low.length * decode high := by
  induction low with
  | nil => rw [List.nil_append, decode, List.length_nil, Nat.pow_zero, Nat.one_mul, Nat.zero_add]
  | cons byte low ih =>
    rw [List.cons_append, decode, ih, decode, List.length_cons, Nat.pow_succ, Nat.mul_add,
      ← Nat.mul_assoc, Nat.mul_comm 256 (256 ^ low.length), Nat.add_assoc]

theorem encode_add (m n value : Nat) :
    encode (m + n) value = encode m value ++ encode n (value / 256 ^ m) := by
  induction m generalizing value with
  | zero => rw [Nat.zero_add, Nat.pow_zero, Nat.div_one, encode, List.nil_append]
  | succ m ih =>
    rw [Nat.succ_add, encode, ih, encode, List.cons_append, Nat.div_div_eq_div_mul, Nat.pow_succ,
      Nat.mul_comm 256]

/-- What is above the bytes does not show in them. -/
theorem encode_mod (size value : Nat) : encode size (value % 256 ^ size) = encode size value := by
  induction size generalizing value with
  | zero => rfl
  | succ size ih =>
    have hlow : UInt8.ofNat (value % 256 ^ (size + 1)) = UInt8.ofNat value := by
      rw [← UInt8.toNat_inj, UInt8.toNat_ofNat', UInt8.toNat_ofNat', Nat.pow_succ']
      exact Nat.mod_mul_right_mod value 256 (256 ^ size)
    have hhigh : value % 256 ^ (size + 1) / 256 = value / 256 % 256 ^ size := by
      rw [Nat.pow_succ', Nat.mod_mul_right_div_self]
    rw [encode, encode, hlow, hhigh, ih]

end LittleEndian

/-- A type whose values are the numbers of `size` bytes. -/
structure Scalar (α : Type u) where
  size : Nat
  bits : α → Nat
  ofBits : Nat → α
  bits_lt : ∀ value, bits value < 256 ^ size
  ofBits_bits : ∀ value, ofBits (bits value) = value

namespace Scalar

variable {α : Type u}

def encode (c : Scalar α) (value : α) : List UInt8 :=
  LittleEndian.encode c.size (c.bits value)

def decode (c : Scalar α) (bytes : List UInt8) : Option α :=
  if bytes.length = c.size then some (c.ofBits (LittleEndian.decode bytes)) else none

theorem decode_encode (c : Scalar α) (value : α) : c.decode (c.encode value) = some value := by
  have hlength : (c.encode value).length = c.size := LittleEndian.length_encode _ _
  have hvalue : LittleEndian.decode (c.encode value) = c.bits value :=
    LittleEndian.decode_encode (c.bits_lt value)
  unfold decode
  rw [if_pos hlength, hvalue, c.ofBits_bits]

def uint8 : Scalar UInt8 where
  size := 1
  bits := UInt8.toNat
  ofBits := UInt8.ofNat
  bits_lt value := value.toNat_lt
  ofBits_bits _ := UInt8.ofNat_toNat

def uint16 : Scalar UInt16 where
  size := 2
  bits := UInt16.toNat
  ofBits := UInt16.ofNat
  bits_lt value := value.toNat_lt
  ofBits_bits _ := UInt16.ofNat_toNat

def uint32 : Scalar UInt32 where
  size := 4
  bits := UInt32.toNat
  ofBits := UInt32.ofNat
  bits_lt value := value.toNat_lt
  ofBits_bits _ := UInt32.ofNat_toNat

def uint64 : Scalar UInt64 where
  size := 8
  bits := UInt64.toNat
  ofBits := UInt64.ofNat
  bits_lt value := value.toNat_lt
  ofBits_bits _ := UInt64.ofNat_toNat

def int8 : Scalar Int8 where
  size := 1
  bits value := value.toUInt8.toNat
  ofBits bits := (UInt8.ofNat bits).toInt8
  bits_lt value := value.toUInt8.toNat_lt
  ofBits_bits _ := congrArg UInt8.toInt8 UInt8.ofNat_toNat

def int16 : Scalar Int16 where
  size := 2
  bits value := value.toUInt16.toNat
  ofBits bits := (UInt16.ofNat bits).toInt16
  bits_lt value := value.toUInt16.toNat_lt
  ofBits_bits _ := congrArg UInt16.toInt16 UInt16.ofNat_toNat

def int32 : Scalar Int32 where
  size := 4
  bits value := value.toUInt32.toNat
  ofBits bits := (UInt32.ofNat bits).toInt32
  bits_lt value := value.toUInt32.toNat_lt
  ofBits_bits _ := congrArg UInt32.toInt32 UInt32.ofNat_toNat

def int64 : Scalar Int64 where
  size := 8
  bits value := value.toUInt64.toNat
  ofBits bits := (UInt64.ofNat bits).toInt64
  bits_lt value := value.toUInt64.toNat_lt
  ofBits_bits _ := congrArg UInt64.toInt64 UInt64.ofNat_toNat

end Scalar

end Lib
