import HostArduino.Wire.Receive

namespace HostArduino.wire

variable {δ : Type*}

namespace TwoWire

/-- `requestFrom(uint16_t, uint8_t, bool)`. -/
def requestFromU16U8Bool (w : TwoWire δ) (address : UInt16) (size : UInt8) (sendStop : Bool) :
    UInt8 × TwoWire δ :=
  let (count, w) := w.requestFrom address size.toNat sendStop
  (UInt8.ofNat count, w)

/-- `requestFrom(uint16_t, uint8_t)`. -/
def requestFromU16U8 (w : TwoWire δ) (address : UInt16) (size : UInt8) : UInt8 × TwoWire δ :=
  w.requestFromU16U8Bool address size true

/-- `requestFrom(uint8_t, uint8_t, bool)`. -/
def requestFromU8U8Bool (w : TwoWire δ) (address size : UInt8) (sendStop : Bool) : UInt8 × TwoWire δ :=
  w.requestFromU16U8Bool address.toUInt16 size sendStop

/-- `requestFrom(uint8_t, uint8_t)`. -/
def requestFromU8U8 (w : TwoWire δ) (address size : UInt8) : UInt8 × TwoWire δ :=
  w.requestFromU16U8Bool address.toUInt16 size true

/-- `requestFrom(int, int, int)`. -/
def requestFromIntIntInt (w : TwoWire δ) (address size sendStop : Int32) : UInt8 × TwoWire δ :=
  w.requestFromU16U8Bool address.toUInt32.toUInt16 size.toUInt32.toUInt8 (sendStop != 0)

/-- `requestFrom(int, int)`. -/
def requestFromIntInt (w : TwoWire δ) (address size : Int32) : UInt8 × TwoWire δ :=
  w.requestFromU16U8Bool address.toUInt32.toUInt16 size.toUInt32.toUInt8 true

end TwoWire

/-- What a read hook is passed beside the buffer. -/
structure ReadCall where
  address : UInt8
  size : Nat
  stop : Bool
  deriving DecidableEq, Repr

/-- A read hook whose calls are written down. -/
def ReadHook.logged (hook : ReadHook δ) : ReadHook (δ × List ReadCall) :=
  fun address buffer size stop (devices, calls) =>
    let (stored, supplied, devices) := hook address buffer size stop devices
    (stored, supplied, devices, calls ++ [⟨address, size, stop⟩])

/-- The bus with a read hook whose calls are written down. -/
def TwoWire.withLogged (w : TwoWire (δ × List ReadCall)) (hook : Option (ReadHook δ)) :
    TwoWire (δ × List ReadCall) :=
  { w with readHook := hook.map ReadHook.logged }

/-- Two requests that passed the hook the same, returned the same count and left the same
    receive buffer. -/
structure Agrees (narrow : UInt8 × TwoWire (δ × List ReadCall)) (wide : Nat × TwoWire (δ × List ReadCall)) :
    Prop where
  passed : narrow.2.devices.2 = wide.2.devices.2
  count : narrow.1.toNat = wide.1
  rxBuffer : narrow.2.rxBuffer = wide.2.rxBuffer
  rxLength : narrow.2.rxLength = wide.2.rxLength
  rxIndex : narrow.2.rxIndex = wide.2.rxIndex

/-- Cut to a byte, the size still asks for as much as the buffer holds of it. -/
def SizeKept (size : Nat) : Prop :=
  size < 256 ∨ I2C_BUFFER_LENGTH ≤ size % 256

theorem sizeKept_iff (size : Nat) :
    SizeKept size ↔ min (size % 256) I2C_BUFFER_LENGTH = min size I2C_BUFFER_LENGTH := by
  unfold SizeKept I2C_BUFFER_LENGTH
  omega

theorem requestFrom_count_le (w : TwoWire δ) (address : UInt16) (size : Nat) (sendStop : Bool) :
    (w.requestFrom address size sendStop).1 ≤ I2C_BUFFER_LENGTH := by
  obtain ⟨-, -, -, -, hcount⟩ := requestFrom_spec w address size sendStop
  rw [hcount]
  unfold TwoWire.answer
  split
  · exact Nat.zero_le _
  · exact Nat.le_trans (List.length_take_le _ _) (Nat.le_trans (Nat.min_le_right _ _) (Nat.min_le_right _ _))

/-- Only as much of a size counts as the buffer holds. -/
theorem requestFrom_congr (w : TwoWire δ) (address : UInt16) {size size' : Nat} (sendStop : Bool)
    (hsame : min size I2C_BUFFER_LENGTH = min size' I2C_BUFFER_LENGTH) :
    w.requestFrom address size sendStop = w.requestFrom address size' sendStop := by
  simp only [TwoWire.requestFrom, clamp_eq, hsame]

theorem eq_of_readCalls {address : UInt8} {a b : Nat} {stop : Bool}
    (heq : (if a = 0 then [] else [ReadCall.mk address a stop]) =
      if b = 0 then [] else [ReadCall.mk address b stop]) : a = b := by
  by_cases ha : a = 0 <;> by_cases hb : b = 0
  · rw [ha, hb]
  · simp [ha, hb] at heq
  · simp [ha, hb] at heq
  · simpa [ha, hb] using heq

theorem requestFrom_passed (w : TwoWire (δ × List ReadCall)) (hook : ReadHook δ) (address : UInt16)
    (size : Nat) (sendStop : Bool) :
    ((w.withLogged (some hook)).requestFrom address size sendStop).2.devices.2 =
      w.devices.2 ++ if min size I2C_BUFFER_LENGTH = 0 then []
        else [⟨address.toUInt8, min size I2C_BUFFER_LENGTH, sendStop⟩] := by
  simp only [TwoWire.requestFrom, TwoWire.withLogged, clamp_eq, Option.map_some, ReadHook.logged]
  split
  · exact (List.append_nil _).symm
  · rfl

/-- A request whose size is cut to a byte is the same as one with the whole size exactly
    when there is no hook to ask or the cut makes no difference. -/
theorem requestFromU16U8Bool_agrees_iff (w : TwoWire (δ × List ReadCall)) (hook : Option (ReadHook δ))
    (address : UInt16) (size : Nat) (sendStop : Bool) :
    Agrees ((w.withLogged hook).requestFromU16U8Bool address (UInt8.ofNat size) sendStop)
        ((w.withLogged hook).requestFrom address size sendStop) ↔
      hook = none ∨ SizeKept size := by
  have hbyte : (UInt8.ofNat size).toNat = size % 256 := UInt8.toNat_ofNat'
  have hsame (heq : (w.withLogged hook).requestFrom address (size % 256) sendStop =
      (w.withLogged hook).requestFrom address size sendStop) :
      Agrees ((w.withLogged hook).requestFromU16U8Bool address (UInt8.ofNat size) sendStop)
        ((w.withLogged hook).requestFrom address size sendStop) := by
    have hle := requestFrom_count_le (w.withLogged hook) address size sendStop
    simp only [TwoWire.requestFromU16U8Bool, hbyte, heq]
    refine ⟨rfl, ?_, rfl, rfl, rfl⟩
    rw [UInt8.toNat_ofNat', Nat.mod_eq_of_lt]
    exact Nat.lt_of_le_of_lt hle (by decide)
  cases hook with
  | none => exact iff_of_true (hsame rfl) (.inl rfl)
  | some hook =>
    rw [or_iff_right (Option.some_ne_none hook)]
    constructor
    · intro hagrees
      have hpassed := hagrees.passed
      simp only [TwoWire.requestFromU16U8Bool, hbyte, requestFrom_passed, List.append_cancel_left_eq] at hpassed
      exact (sizeKept_iff size).mpr (eq_of_readCalls hpassed)
    · exact fun hkept => hsame (requestFrom_congr _ address sendStop ((sizeKept_iff size).mp hkept))

/-- The overloads whose size is a byte from the start lose nothing. -/
theorem requestFrom_byte_agrees (w : TwoWire (δ × List ReadCall)) (hook : Option (ReadHook δ)) (size : UInt8)
    (sendStop : Bool) :
    (∀ address, Agrees ((w.withLogged hook).requestFromU16U8Bool address size sendStop)
        ((w.withLogged hook).requestFrom address size.toNat sendStop)) ∧
    (∀ address, Agrees ((w.withLogged hook).requestFromU16U8 address size)
        ((w.withLogged hook).requestFrom address size.toNat true)) ∧
    (∀ address : UInt8, Agrees ((w.withLogged hook).requestFromU8U8Bool address size sendStop)
        ((w.withLogged hook).requestFrom address.toUInt16 size.toNat sendStop)) ∧
    ∀ address : UInt8, Agrees ((w.withLogged hook).requestFromU8U8 address size)
      ((w.withLogged hook).requestFrom address.toUInt16 size.toNat true) := by
  have hagrees (address : UInt16) (sendStop : Bool) :
      Agrees ((w.withLogged hook).requestFromU16U8Bool address size sendStop)
        ((w.withLogged hook).requestFrom address size.toNat sendStop) := by
    have hkept := (requestFromU16U8Bool_agrees_iff w hook address size.toNat sendStop).mpr
      (.inr (.inl size.toNat_lt))
    rwa [UInt8.ofNat_toNat] at hkept
  exact ⟨fun address => hagrees address sendStop, fun address => hagrees address true,
    fun address => hagrees address.toUInt16 sendStop, fun address => hagrees address.toUInt16 true⟩

theorem toUInt8_of_nonneg {size : Int32} (hsize : 0 ≤ size) :
    size.toUInt32.toUInt8 = UInt8.ofNat size.toInt.toNat := by
  rw [← UInt8.toNat_inj, UInt32.toNat_toUInt8, Int32.toNat_toUInt32_of_le hsize, UInt8.toNat_ofNat']
  rfl

/-- For every address and every size that is not negative the `int` overloads do what the
    `size_t` overload does exactly when there is no read hook or the size, which they cut
    to a byte before it is cut to the buffer, is below 256 or leaves at least 128. -/
theorem requestFrom_agrees_iff (w : TwoWire (δ × List ReadCall)) (hook : Option (ReadHook δ))
    (address size sendStop : Int32) (hsize : 0 ≤ size) :
    (Agrees ((w.withLogged hook).requestFromIntInt address size)
        ((w.withLogged hook).requestFrom address.toUInt32.toUInt16 size.toInt.toNat true) ↔
      hook = none ∨ SizeKept size.toInt.toNat) ∧
    (Agrees ((w.withLogged hook).requestFromIntIntInt address size sendStop)
        ((w.withLogged hook).requestFrom address.toUInt32.toUInt16 size.toInt.toNat (sendStop != 0)) ↔
      hook = none ∨ SizeKept size.toInt.toNat) := by
  rw [TwoWire.requestFromIntInt, TwoWire.requestFromIntIntInt, toUInt8_of_nonneg hsize]
  exact ⟨requestFromU16U8Bool_agrees_iff w hook _ _ _, requestFromU16U8Bool_agrees_iff w hook _ _ _⟩

/-- A device that supplies whatever it is asked for. -/
def obliging : ReadHook Unit := fun _ buffer size _ devices => (buffer, size, devices)

theorem requestFrom_agrees_half :
    Agrees (((TwoWire.create ((), [])).withLogged (some obliging)).requestFromIntInt 0x50 384)
      (((TwoWire.create ((), [])).withLogged (some obliging)).requestFrom 0x50 384 true) :=
  (requestFrom_agrees_iff (.create ((), [])) (some obliging) 0x50 384 1 (by decide)).1.mpr
    (.inr (.inr (by decide)))

/-- A request for 256 bytes is one for none. -/
theorem requestFrom_asks_nothing :
    (((TwoWire.create ((), [])).withLogged (some obliging)).requestFromIntInt 0x50 256).1 = 0 ∧
      (((TwoWire.create ((), [])).withLogged (some obliging)).requestFrom 0x50 256 true).1 = 128 ∧
      ¬Agrees (((TwoWire.create ((), [])).withLogged (some obliging)).requestFromIntInt 0x50 256)
        (((TwoWire.create ((), [])).withLogged (some obliging)).requestFrom 0x50 256 true) := by
  refine ⟨rfl, rfl, fun hagrees => ?_⟩
  have hcount : 0 = 128 := hagrees.count
  cases hcount

end HostArduino.wire
