import HostArduino.Lib.BoundedQueue
import HostArduino.Lib.EventMachine

namespace HostArduino.host_uart

open Lib

/-- `tx` is `_tx`, `_txLimit` and `_txOverflow`, and `rx` the same of the receive side. -/
structure HostUart where
  begun : Bool
  baud : UInt64
  config : UInt32
  rxPin : Int8
  txPin : Int8
  tx : BoundedQueue UInt8
  rx : BoundedQueue UInt8
  txTotal : UInt32
  rxTotal : UInt32
  deriving DecidableEq

def SERIAL_8N1 : UInt32 := 0x800001c

def kDefaultBufferSize : Nat := 1024

def HostUart.create : HostUart where
  begun := false
  baud := 0
  config := SERIAL_8N1
  rxPin := -1
  txPin := -1
  tx := ⟨[], kDefaultBufferSize, false⟩
  rx := ⟨[], kDefaultBufferSize, false⟩
  txTotal := 0
  rxTotal := 0

inductive ActivityEvent where
  | kUartBegin
  | kUartEnd
  | kUartConfig
  | kUartTx
  | kUartRx
  | kUartRxDiscard
  deriving DecidableEq, Repr

/-- What the activity hook is told. -/
structure Activity where
  event : ActivityEvent
  data : List UInt8
  deriving DecidableEq, Repr

/-- A call when it has closed its lock scope: what it leaves, what it will return, and
    what it reports before it returns. -/
structure Unlocked (ρ : Type) where
  uart : HostUart
  returns : ρ
  report : Option Activity

namespace HostUart

def begin (u : HostUart) (baud : UInt64) (config : UInt32) (rxPin txPin : Int8) : Unlocked Unit where
  uart :=
    { u with
      baud := baud, config := config, rxPin := rxPin, txPin := txPin, begun := true
      tx := u.tx.clear, rx := u.rx.clear }
  returns := ()
  report := some ⟨.kUartBegin, []⟩

def end_ (u : HostUart) : Unlocked Unit where
  uart := { u with begun := false, tx := u.tx.clear, rx := u.rx.clear }
  returns := ()
  report := some ⟨.kUartEnd, []⟩

def write (u : HostUart) (value : UInt8) : Unlocked Nat :=
  -- The newest byte is dropped rather than the oldest.
  if u.tx.limit ≤ u.tx.items.length then ⟨{ u with tx := { u.tx with overflowed := true } }, 0, none⟩
  else
    ⟨{ u with tx := { u.tx with items := u.tx.items ++ [value] }, txTotal := u.txTotal + 1 }, 1,
      some ⟨.kUartTx, [value]⟩⟩

/-- The bytes go into the transmit queue until it is full, and the accepted ones are
    counted and reported. `buffer` is `none` for a null pointer. -/
def writeBuffer (u : HostUart) (buffer : Option (List UInt8)) : Unlocked Nat :=
  match buffer with
  | none => ⟨u, 0, none⟩
  | some bytes =>
    let accepted := u.tx.offer bytes
    { uart := { u with tx := accepted.1, txTotal := u.txTotal + UInt32.ofNat accepted.2 }
      returns := accepted.2
      report := if accepted.2 = 0 then none else some ⟨.kUartTx, bytes.take accepted.2⟩ }

def read (u : HostUart) : Unlocked Int :=
  match u.rx.items with
  | [] => ⟨u, -1, none⟩
  | value :: rest =>
    ⟨{ u with rx := { u.rx with items := rest } }, value.toNat, some ⟨.kUartRx, [value]⟩⟩

def peek (u : HostUart) : Unlocked Int :=
  match u.rx.items with
  | [] => ⟨u, -1, none⟩
  | value :: _ => ⟨u, value.toNat, none⟩

def flush (u : HostUart) : Unlocked Unit where
  uart := { u with rx := u.rx.clear }
  returns := ()
  report := if u.rx.items = [] then none else some ⟨.kUartRxDiscard, u.rx.items⟩

/-- The limit that a resize to `size` sets. -/
def bufferLimit (size : Nat) : Nat :=
  if size = 0 then 1 else size

def setRxBufferSize (u : HostUart) (size : Nat) : Unlocked Unit where
  uart := { u with rx := u.rx.resize (bufferLimit size) }
  returns := ()
  report := some ⟨.kUartConfig, []⟩

def setTxBufferSize (u : HostUart) (size : Nat) : Unlocked Unit where
  uart := { u with tx := u.tx.resize (bufferLimit size) }
  returns := ()
  report := some ⟨.kUartConfig, []⟩

/-- The bytes it returns are what it has put into `buffer`, which may be a null pointer. -/
def readTx (u : HostUart) (buffer : Bool) (size : Nat) : Unlocked (List UInt8) :=
  if !buffer || size == 0 then ⟨u, [], none⟩
  else
    let taken := u.tx.drain size
    ⟨{ u with tx := taken.1 }, taken.2, none⟩

def readTxString (u : HostUart) : Unlocked (List UInt8) :=
  let taken := u.tx.drain u.tx.items.length
  ⟨{ u with tx := taken.1 }, taken.2, none⟩

def clearTx (u : HostUart) : Unlocked Unit :=
  ⟨{ u with tx := u.tx.clear }, (), none⟩

def pushRx (u : HostUart) (buffer : Option (List UInt8)) : Unlocked Nat :=
  match buffer with
  | none => ⟨u, 0, none⟩
  | some bytes =>
    let pushed := u.rx.offer bytes
    ⟨{ u with rx := pushed.1, rxTotal := u.rxTotal + UInt32.ofNat pushed.2 }, pushed.2, none⟩

/-- `text` is what stands before the terminating NUL. -/
def pushRxText (u : HostUart) (text : Option (List UInt8)) : Unlocked Nat :=
  match text with
  | none => ⟨u, 0, none⟩
  | some bytes => u.pushRx (some bytes)

def pushRxByte (u : HostUart) (value : UInt8) : Unlocked Nat :=
  u.pushRx (some [value])

def clearRx (u : HostUart) : Unlocked Unit :=
  ⟨{ u with rx := u.rx.clear }, (), none⟩

def clearOverflow (u : HostUart) : Unlocked Unit :=
  ⟨{ u with tx := { u.tx with overflowed := false }, rx := { u.rx with overflowed := false } }, (), none⟩

def resetTotals (u : HostUart) : Unlocked Unit :=
  ⟨{ u with txTotal := 0, rxTotal := 0 }, (), none⟩

/-- The check, the flag, the counter and the report that the byte `write` has of its own
    come to what the other one does with one byte. -/
theorem write_eq (u : HostUart) (value : UInt8) : u.write value = u.writeBuffer (some [value]) := by
  by_cases hfull : u.tx.limit ≤ u.tx.items.length
  · simp [write, writeBuffer, BoundedQueue.offer, hfull]
  · simp [write, writeBuffer, BoundedQueue.offer, hfull]

end HostUart

end HostArduino.host_uart
