import HostArduino.Lib.LittleEndian
import HostArduino.Lib.Mealy

namespace HostArduino.spi

open Lib

def LSBFIRST : UInt8 := 0

def MSBFIRST : UInt8 := 1

structure SPISettings where
  clock : UInt32
  bitOrder : UInt8
  dataMode : UInt8
  deriving DecidableEq, Repr

/-- A transfer hook acts on `δ`, the device behind its user pointer: it is given a byte and
    answers one, and does not call back into the bus. -/
abbrev TransferHook (δ : Type*) := UInt8 → δ → UInt8 × δ

/-- The part of the class that a transfer uses. -/
structure SPIClass (δ : Type*) where
  settings : SPISettings
  transferCount : UInt32
  transferHook : Option (TransferHook δ)
  device : δ

variable {δ : Type*}

namespace SPIClass

def transfer (s : SPIClass δ) (data : UInt8) : UInt8 × SPIClass δ :=
  let s := { s with transferCount := s.transferCount + 1 }
  match s.transferHook with
  | some hook =>
    let (answer, device) := hook data s.device
    (answer, { s with device })
  | none => (0xFF, s)

def transfer16 (s : SPIClass δ) (data : UInt16) : UInt16 × SPIClass δ :=
  if s.settings.bitOrder = MSBFIRST then
    let (hi, s) := s.transfer (data >>> 8).toUInt8
    let (lo, s) := s.transfer (data &&& 0xFF).toUInt8
    (hi.toUInt16 <<< 8 ||| lo.toUInt16, s)
  else
    let (lo, s) := s.transfer (data &&& 0xFF).toUInt8
    let (hi, s) := s.transfer (data >>> 8).toUInt8
    (hi.toUInt16 <<< 8 ||| lo.toUInt16, s)

/-- The loops of `transfer32` and `transferBits` over their shifts, `in_` being what has
    come in so far. -/
def shiftLoop (s : SPIClass δ) (data in_ : UInt32) : List Nat → UInt32 × SPIClass δ
  | [] => (in_, s)
  | shift :: shifts =>
    let (byte_in, s) := s.transfer ((data >>> UInt32.ofNat shift) &&& 0xFF).toUInt8
    s.shiftLoop data (in_ ||| byte_in.toUInt32 <<< UInt32.ofNat shift) shifts

def transfer32 (s : SPIClass δ) (data : UInt32) : UInt32 × SPIClass δ :=
  if s.settings.bitOrder = MSBFIRST then s.shiftLoop data 0 [24, 16, 8, 0]
  else s.shiftLoop data 0 [0, 8, 16, 24]

/-- `transfer(void *, size_t)`; what it leaves in the buffer. -/
def transferBuffer (s : SPIClass δ) (data : List UInt8) : List UInt8 × SPIClass δ :=
  Mealy.feed transfer s data

/-- What is sent for the index of a buffer, which may be a null pointer. -/
def sourceByte {size : Nat} (data : Option (Vector UInt8 size)) (i : Fin size) : UInt8 :=
  match data with
  | some bytes => bytes[i]
  | none => 0x00

/-- What it puts into the second buffer, where there is one; `data` and `out` are not parts
    of each other. -/
def transferBytes (s : SPIClass δ) {size : Nat} (data : Option (Vector UInt8 size)) (out : Bool) :
    Option (List UInt8) × SPIClass δ :=
  let (sent, s) := Mealy.feed (fun s i => s.transfer (sourceByte data i)) s (List.finRange size)
  (if out then some sent else none, s)

/-- What it puts behind `out`, unless that is a null pointer. -/
def transferBits (s : SPIClass δ) (data : UInt32) (out : Bool) (bits : UInt8) :
    Option UInt32 × SPIClass δ :=
  if bits = 0 ∨ 32 < bits then (if out then some 0 else none, s)
  else
    let count := (bits.toNat + 7) / 8
    let shifts := (List.range count).map fun i => i * 8
    let (in_, s) :=
      if s.settings.bitOrder = MSBFIRST then s.shiftLoop data 0 shifts.reverse
      else s.shiftLoop data 0 shifts
    (if out then some in_ else none, s)

def writeBytes (s : SPIClass δ) {size : Nat} (data : Option (Vector UInt8 size)) : SPIClass δ :=
  (Mealy.feed (fun s i => s.transfer (sourceByte data i)) s (List.finRange size)).2

def writePattern (s : SPIClass δ) {size : Nat} (data : Option (Vector UInt8 size)) (repeat_ : UInt32) :
    SPIClass δ :=
  if data = none ∨ size = 0 then s else (fun s => s.writeBytes data)^[repeat_.toNat] s

end SPIClass

end HostArduino.spi
