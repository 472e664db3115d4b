import HostArduino.Lib.EventMachine

namespace HostArduino.wire

def I2C_BUFFER_LENGTH : Nat := 128

inductive LifecycleEvent where
  | kBegin
  | kEnd
  | kSetPins
  | kSetClock
  | kSetTimeout
  deriving DecidableEq, Repr

/-- How the bus is set up. -/
structure BusConfig where
  begun : Bool
  sda : Int32
  scl : Int32
  frequency : UInt32
  timeout : UInt16
  deriving DecidableEq, Repr

/-- What a lifecycle hook can read off the bus it is passed, apart from `busNum()`, which
    is the same in all calls from one bus. -/
structure BusView where
  config : BusConfig
  lastAddress : UInt16
  writeCount : UInt32
  readCount : UInt32
  deriving DecidableEq, Repr

/-- The hooks act on `δ`, the devices behind their user pointers; they do not call back
    into the bus. A read hook is given the receive buffer and the length asked for, and
    answers the buffer as it leaves it and how much it says it supplied. -/
abbrev WriteHook (δ : Type*) := UInt8 → List UInt8 → Bool → δ → UInt8 × δ

abbrev ReadHook (δ : Type*) := UInt8 → List UInt8 → Nat → Bool → δ → List UInt8 × Nat × δ

abbrev LifecycleHook (δ : Type*) := LifecycleEvent → BusView → δ → δ

/-- `txBuffer` is the first `_txLength` bytes of the transmit buffer. -/
structure TwoWire (δ : Type*) where
  config : BusConfig
  address : UInt16
  transmitting : Bool
  writeCount : UInt32
  readCount : UInt32
  txBuffer : List UInt8
  txOverflow : Bool
  rxBuffer : List UInt8
  rxLength : Nat
  rxIndex : Nat
  writeHook : Option (WriteHook δ)
  readHook : Option (ReadHook δ)
  lifecycleHook : Option (LifecycleHook δ)
  devices : δ

/-- What a write hook is passed. -/
structure HookCall where
  address : UInt8
  data : List UInt8
  stop : Bool
  deriving DecidableEq, Repr

variable {δ : Type*}

namespace TwoWire

def create (devices : δ) : TwoWire δ where
  config := { begun := false, sda := -1, scl := -1, frequency := 100000, timeout := 50 }
  address := 0
  transmitting := false
  writeCount := 0
  readCount := 0
  txBuffer := []
  txOverflow := false
  rxBuffer := List.replicate I2C_BUFFER_LENGTH 0
  rxLength := 0
  rxIndex := 0
  writeHook := none
  readHook := none
  lifecycleHook := none
  devices

def view (w : TwoWire δ) : BusView where
  config := w.config
  lastAddress := w.address
  writeCount := w.writeCount
  readCount := w.readCount

def reportLifecycle (w : TwoWire δ) (event : LifecycleEvent) : TwoWire δ :=
  match w.lifecycleHook with
  | some hook => { w with devices := hook event w.view w.devices }
  | none => w

def begin (w : TwoWire δ) (sda scl : Int32) (frequency : UInt32) : TwoWire δ :=
  { w with
    config :=
      { w.config with
        sda, scl, frequency := if frequency ≠ 0 then frequency else w.config.frequency
        begun := true } }.reportLifecycle .kBegin

/-- The slave role, which shares the address field. -/
def beginSlave (w : TwoWire δ) (address : UInt8) (sda scl : Int32) (frequency : UInt32) : TwoWire δ :=
  { w with address := address.toUInt16 }.begin sda scl frequency

def end_ (w : TwoWire δ) : TwoWire δ :=
  { w with
    config := { w.config with begun := false }
    transmitting := false, txBuffer := [], rxLength := 0, rxIndex := 0 }.reportLifecycle .kEnd

def setPins (w : TwoWire δ) (sda scl : Int32) : TwoWire δ :=
  { w with config := { w.config with sda, scl } }.reportLifecycle .kSetPins

def setClock (w : TwoWire δ) (frequency : UInt32) : TwoWire δ :=
  { w with config := { w.config with frequency } }.reportLifecycle .kSetClock

def setTimeOut (w : TwoWire δ) (timeout_ms : UInt16) : TwoWire δ :=
  { w with config := { w.config with timeout := timeout_ms } }.reportLifecycle .kSetTimeout

def beginTransmission (w : TwoWire δ) (address : UInt16) : TwoWire δ :=
  { w with address, transmitting := true, txBuffer := [], txOverflow := false }

/-- The status it returns, the calls it makes of the write hook, and the bus after it. -/
def endTransmission (w : TwoWire δ) (sendStop : Bool) : UInt8 × List HookCall × TwoWire δ :=
  if !w.transmitting then (4, [], w)
  else
    let w := { w with transmitting := false, writeCount := w.writeCount + 1 }
    if w.txOverflow then (1, [], { w with txBuffer := [] })
    else
      match w.writeHook with
      | none => (2, [], { w with txBuffer := [] })
      | some hook =>
        let (status, devices) := hook w.address.toUInt8 w.txBuffer sendStop w.devices
        (status, [⟨w.address.toUInt8, w.txBuffer, sendStop⟩], { w with txBuffer := [], devices })

/-- The other overloads narrow their arguments and call this one. -/
def requestFrom (w : TwoWire δ) (address : UInt16) (size : Nat) (sendStop : Bool) : Nat × TwoWire δ :=
  let w := { w with address, readCount := w.readCount + 1, rxLength := 0, rxIndex := 0 }
  let size := if I2C_BUFFER_LENGTH < size then I2C_BUFFER_LENGTH else size
  match w.readHook with
  | none => (w.rxLength, w)
  | some hook =>
    if size = 0 then (w.rxLength, w)
    else
      let (rxBuffer, supplied, devices) := hook address.toUInt8 w.rxBuffer size sendStop w.devices
      let rxLength := if size < supplied then size else supplied
      (rxLength, { w with rxBuffer, rxLength, devices })

def write (w : TwoWire δ) (data : UInt8) : Nat × TwoWire δ :=
  if !w.transmitting then (0, w)
  else if I2C_BUFFER_LENGTH ≤ w.txBuffer.length then (0, { w with txOverflow := true })
  else (1, { w with txBuffer := w.txBuffer ++ [data] })

/-- The loop of the buffer `write`: it stops at the first byte that is not taken. -/
def writeLoop (w : TwoWire δ) : List UInt8 → Nat × TwoWire δ
  | [] => (0, w)
  | byte :: rest =>
    let (taken, w) := w.write byte
    if taken ≠ 1 then (0, w)
    else
      let (written, w) := w.writeLoop rest
      (written + 1, w)

/-- `data` is `none` for a null pointer. -/
def writeBuffer (w : TwoWire δ) (data : Option (List UInt8)) : Nat × TwoWire δ :=
  match data with
  | none => (0, w)
  | some bytes => if !w.transmitting then (0, w) else w.writeLoop bytes

def available (w : TwoWire δ) : Nat :=
  w.rxLength - w.rxIndex

def read (w : TwoWire δ) : Int × TwoWire δ :=
  if w.rxLength ≤ w.rxIndex then (-1, w)
  else ((w.rxBuffer.getD w.rxIndex 0).toNat, { w with rxIndex := w.rxIndex + 1 })

def peek (w : TwoWire δ) : Int :=
  if w.rxLength ≤ w.rxIndex then -1 else (w.rxBuffer.getD w.rxIndex 0).toNat

def flush (w : TwoWire δ) : TwoWire δ :=
  { w with rxLength := 0, rxIndex := 0, txBuffer := [] }

def clearHooks (w : TwoWire δ) : TwoWire δ :=
  { w with writeHook := none, readHook := none, lifecycleHook := none }

def resetCounts (w : TwoWire δ) : TwoWire δ :=
  { w with writeCount := 0, readCount := 0 }

end TwoWire

/-- The operations of a sketch and its driver on one bus. -/
inductive WireOp (δ : Type*) where
  | begin (sda scl : Int32) (frequency : UInt32)
  | beginSlave (address : UInt8) (sda scl : Int32) (frequency : UInt32)
  | end_
  | setPins (sda scl : Int32)
  | setClock (frequency : UInt32)
  | setTimeOut (timeout_ms : UInt16)
  | beginTransmission (address : UInt16)
  | endTransmission (sendStop : Bool)
  | requestFrom (address : UInt16) (size : Nat) (sendStop : Bool)
  | write (data : UInt8)
  | writeBuffer (data : Option (List UInt8))
  | read
  | peek
  | flush
  | setWriteHook (hook : Option (WriteHook δ))
  | setReadHook (hook : Option (ReadHook δ))
  | setLifecycleHook (hook : Option (LifecycleHook δ))
  | clearHooks
  | resetCounts

/-- The bus after an operation. -/
def TwoWire.apply (w : TwoWire δ) : WireOp δ → TwoWire δ
  | .begin sda scl frequency => w.begin sda scl frequency
  | .beginSlave address sda scl frequency => w.beginSlave address sda scl frequency
  | .end_ => w.end_
  | .setPins sda scl => w.setPins sda scl
  | .setClock frequency => w.setClock frequency
  | .setTimeOut timeout_ms => w.setTimeOut timeout_ms
  | .beginTransmission address => w.beginTransmission address
  | .endTransmission sendStop => (w.endTransmission sendStop).2.2
  | .requestFrom address size sendStop => (w.requestFrom address size sendStop).2
  | .write data => (w.write data).2
  | .writeBuffer data => (w.writeBuffer data).2
  | .read => w.read.2
  | .peek => w
  | .flush => w.flush
  | .setWriteHook hook => { w with writeHook := hook }
  | .setReadHook hook => { w with readHook := hook }
  | .setLifecycleHook hook => { w with lifecycleHook := hook }
  | .clearHooks => w.clearHooks
  | .resetCounts => w.resetCounts

end HostArduino.wire
