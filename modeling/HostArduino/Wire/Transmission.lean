import HostArduino.Wire.TwoWire

namespace HostArduino.wire

variable {δ : Type*}

/-- An open transmission as the sketch sees it: the address it was begun with, the bytes
    offered since, and the address last used since by a `requestFrom` or a slave `begin`. -/
structure Pending where
  address : UInt16
  bytes : List UInt8
  readdressed : Option UInt16
  deriving DecidableEq, Repr

/-- The open transmission after an operation. -/
def Pending.next (pending : Option Pending) : WireOp δ → Option Pending
  | .beginTransmission address => some ⟨address, [], none⟩
  | .endTransmission _ => none
  | .write data => pending.map fun t => { t with bytes := t.bytes ++ [data] }
  | .writeBuffer data => pending.map fun t => { t with bytes := t.bytes ++ data.getD [] }
  | .requestFrom address _ _ => pending.map fun t => { t with readdressed := some address }
  | .beginSlave address _ _ _ => pending.map fun t => { t with readdressed := some address.toUInt16 }
  | _ => pending

/-- One `endTransmission`: the transmission that was open at it, whether there was a write
    hook, what the hook was passed, and the status that was returned. -/
structure Ended where
  pending : Option Pending
  hooked : Bool
  stop : Bool
  status : UInt8
  calls : List HookCall
  deriving DecidableEq, Repr

/-- Without an open transmission the status is 4, more than a buffer of bytes makes it 1,
    and neither reaches the hook. All others reach it once, with the address and the
    bytes of the transmission. -/
def Ended.Faithful (e : Ended) : Prop :=
  match e.pending with
  | none => e.status = 4 ∧ e.calls = []
  | some t =>
    if I2C_BUFFER_LENGTH < t.bytes.length then e.status = 1 ∧ e.calls = []
    else e.calls = if e.hooked then [⟨t.address.toUInt8, t.bytes, e.stop⟩] else []

/-- A bus with the transmission that is open on it and those that have ended. -/
structure WireRun (δ : Type*) where
  bus : TwoWire δ
  pending : Option Pending
  ended : List Ended

def WireRun.start (devices : δ) : WireRun δ where
  bus := .create devices
  pending := none
  ended := []

/-- Addresses have 7 bits, and a transmission is not cut off by `end` or `flush`. -/
def WireOp.Allowed (transmitting : Bool) : WireOp δ → Prop
  | .beginTransmission address => address < 128
  | .requestFrom address _ _ => address < 128
  | .beginSlave address _ _ _ => address < 128
  | .end_ => transmitting = false
  | .flush => transmitting = false
  | _ => True

instance (transmitting : Bool) : (op : WireOp δ) → Decidable (op.Allowed transmitting)
  | .beginTransmission address | .requestFrom address _ _ =>
    inferInstanceAs (Decidable (address < 128))
  | .beginSlave address _ _ _ => inferInstanceAs (Decidable (address < 128))
  | .end_ | .flush => inferInstanceAs (Decidable (transmitting = false))
  | .begin _ _ _ | .setPins _ _ | .setClock _ | .setTimeOut _ | .endTransmission _ | .write _
  | .writeBuffer _ | .read | .peek | .setWriteHook _ | .setReadHook _ | .setLifecycleHook _
  | .clearHooks | .resetCounts => .isTrue trivial

/-- What an operation adds to the transmissions that have ended. -/
def WireRun.report (r : WireRun δ) : WireOp δ → List Ended
  | .endTransmission stop =>
    let (status, calls, _) := r.bus.endTransmission stop
    [⟨r.pending, r.bus.writeHook.isSome, stop, status, calls⟩]
  | _ => []

def WireRun.step (r : WireRun δ) (op : WireOp δ) : WireRun δ where
  bus := r.bus.apply op
  pending := Pending.next r.pending op
  ended := r.ended ++ r.report op

def wireMachine (δ : Type*) : Lib.EventMachine (WireRun δ) (WireOp δ) :=
  .guarded (fun r op => op.Allowed r.bus.transmitting) WireRun.step

/-- An `endTransmission` that reaches the hook comes after no `requestFrom` and no slave
    `begin` of another address than its transmission's, the last of them counting. -/
def Undisturbed (r : WireRun δ) : WireOp δ → Prop
  | .endTransmission _ =>
    ∀ t, r.pending = some t → t.bytes.length ≤ I2C_BUFFER_LENGTH → r.bus.writeHook.isSome →
      ∀ address, t.readdressed = some address → address = t.address
  | _ => True

/-- The bus holds the open transmission, except that its address is the last one used. -/
structure Tracks (w : TwoWire δ) (t : Pending) : Prop where
  transmitting : w.transmitting = true
  address : w.address = t.readdressed.getD t.address
  txBuffer : w.txBuffer = t.bytes.take I2C_BUFFER_LENGTH
  txOverflow : w.txOverflow = decide (I2C_BUFFER_LENGTH < t.bytes.length)
  sevenBit : t.address < 128 ∧ ∀ address ∈ t.readdressed, address < 128

def WireRun.Linked (r : WireRun δ) : Prop :=
  match r.pending with
  | none => r.bus.transmitting = false
  | some t => Tracks r.bus t

/-- The fields that a transmission consists of. -/
structure SameTransmission (w w' : TwoWire δ) : Prop where
  transmitting : w'.transmitting = w.transmitting
  txBuffer : w'.txBuffer = w.txBuffer
  txOverflow : w'.txOverflow = w.txOverflow

variable {w : TwoWire δ} {t : Pending}

theorem reportLifecycle_same (w : TwoWire δ) (event : LifecycleEvent) :
    SameTransmission w (w.reportLifecycle event) ∧ (w.reportLifecycle event).address = w.address := by
  unfold TwoWire.reportLifecycle
  split <;> exact ⟨⟨rfl, rfl, rfl⟩, rfl⟩

/-- A setter changes the configuration and reports it. -/
theorem configured_same (w : TwoWire δ) (config : BusConfig) (event : LifecycleEvent) :
    SameTransmission w ({ w with config }.reportLifecycle event) ∧
      ({ w with config }.reportLifecycle event).address = w.address := by
  obtain ⟨⟨htransmitting, hbuffer, hoverflow⟩, haddress⟩ := reportLifecycle_same { w with config } event
  exact ⟨⟨htransmitting, hbuffer, hoverflow⟩, haddress⟩

theorem requestFrom_same (w : TwoWire δ) (address : UInt16) (size : Nat) (sendStop : Bool) :
    SameTransmission w (w.requestFrom address size sendStop).2 ∧
      (w.requestFrom address size sendStop).2.address = address := by
  unfold TwoWire.requestFrom
  generalize (if I2C_BUFFER_LENGTH < size then I2C_BUFFER_LENGTH else size) = asked
  cases hhook : w.readHook with
  | none => exact ⟨⟨rfl, rfl, rfl⟩, rfl⟩
  | some hook =>
    simp only
    by_cases hzero : asked = 0
    · rw [if_pos hzero]
      exact ⟨⟨rfl, rfl, rfl⟩, rfl⟩
    · rw [if_neg hzero]
      exact ⟨⟨rfl, rfl, rfl⟩, rfl⟩

theorem read_same (w : TwoWire δ) : SameTransmission w w.read.2 ∧ w.read.2.address = w.address := by
  unfold TwoWire.read
  split <;> exact ⟨⟨rfl, rfl, rfl⟩, rfl⟩

theorem Tracks.of_same {w' : TwoWire δ} (h : Tracks w t) (hsame : SameTransmission w w')
    (haddress : w'.address = w.address) : Tracks w' t where
  transmitting := hsame.transmitting.trans h.transmitting
  address := haddress.trans h.address
  txBuffer := hsame.txBuffer.trans h.txBuffer
  txOverflow := hsame.txOverflow.trans h.txOverflow
  sevenBit := h.sevenBit

theorem Tracks.readdress {w' : TwoWire δ} (h : Tracks w t) (hsame : SameTransmission w w')
    {address : UInt16} (haddress : w'.address = address) (hseven : address < 128) :
    Tracks w' { t with readdressed := some address } where
  transmitting := hsame.transmitting.trans h.transmitting
  address := haddress
  txBuffer := hsame.txBuffer.trans h.txBuffer
  txOverflow := hsame.txOverflow.trans h.txOverflow
  sevenBit := ⟨h.sevenBit.1, by simpa using hseven⟩

/-- A byte is appended while there is room, and marks the overflow when there is none. -/
theorem Tracks.write (h : Tracks w t) (data : UInt8) :
    Tracks (w.write data).2 { t with bytes := t.bytes ++ [data] } ∧
      ((w.write data).1 = 1 ↔ t.bytes.length < I2C_BUFFER_LENGTH) := by
  have hlength : w.txBuffer.length = min I2C_BUFFER_LENGTH t.bytes.length := by
    rw [h.txBuffer, List.length_take]
  unfold TwoWire.write
  rw [if_neg (by simp [h.transmitting])]
  by_cases hfull : I2C_BUFFER_LENGTH ≤ w.txBuffer.length
  · rw [if_pos hfull]
    have hmany : I2C_BUFFER_LENGTH ≤ t.bytes.length := by omega
    refine ⟨⟨h.transmitting, h.address, ?_, ?_, h.sevenBit⟩, ?_⟩
    · rw [List.take_append_of_le_length hmany]
      exact h.txBuffer
    · simp only [List.length_append, List.length_singleton]
      exact (decide_eq_true (by omega)).symm
    · simp only [Nat.zero_ne_one, false_iff]
      omega
  · rw [if_neg hfull]
    have hroom : t.bytes.length < I2C_BUFFER_LENGTH := by omega
    refine ⟨⟨h.transmitting, h.address, ?_, ?_, h.sevenBit⟩, ?_⟩
    · rw [List.take_of_length_le (by simpa using Nat.succ_le_of_lt hroom), h.txBuffer,
        List.take_of_length_le (Nat.le_of_lt hroom)]
    · rw [h.txOverflow, decide_eq_false (by omega), decide_eq_false]
      simp only [List.length_append, List.length_singleton]
      omega
    · simpa using hroom

/-- The transmission is full: bytes offered to it change nothing any more. -/
theorem Tracks.overflowed (h : Tracks w t) (hover : I2C_BUFFER_LENGTH < t.bytes.length)
    (more : List UInt8) : Tracks w { t with bytes := t.bytes ++ more } where
  transmitting := h.transmitting
  address := h.address
  txBuffer := by rw [h.txBuffer, List.take_append_of_le_length (Nat.le_of_lt hover)]
  txOverflow := by
    rw [h.txOverflow, decide_eq_true hover, decide_eq_true]
    simp only [List.length_append]
    omega
  sevenBit := h.sevenBit

theorem Tracks.writeLoop (h : Tracks w t) (bytes : List UInt8) :
    Tracks (w.writeLoop bytes).2 { t with bytes := t.bytes ++ bytes } := by
  induction bytes generalizing w t with
  | nil => simpa [TwoWire.writeLoop] using h
  | cons byte rest ih =>
    obtain ⟨hwrite, htaken⟩ := h.write byte
    unfold TwoWire.writeLoop
    by_cases hroom : (w.write byte).1 = 1
    · have hrest := ih hwrite
      simpa [hroom] using hrest
    · -- The loop breaks off, and what is left would not have been taken.
      have hfull := mt htaken.mpr hroom
      have hover : I2C_BUFFER_LENGTH < (t.bytes ++ [byte]).length := by
        simp only [List.length_append, List.length_singleton]
        omega
      have hrest := hwrite.overflowed hover rest
      simpa [hroom] using hrest

theorem Tracks.writeBuffer (h : Tracks w t) (data : Option (List UInt8)) :
    Tracks (w.writeBuffer data).2 { t with bytes := t.bytes ++ data.getD [] } := by
  cases data with
  | none => simpa [TwoWire.writeBuffer] using h
  | some bytes => simpa [TwoWire.writeBuffer, h.transmitting] using h.writeLoop bytes

theorem tracks_beginTransmission (w : TwoWire δ) {address : UInt16} (hseven : address < 128) :
    Tracks (w.beginTransmission address) ⟨address, [], none⟩ :=
  ⟨rfl, rfl, rfl, rfl, hseven, nofun⟩

theorem endTransmission_closes (w : TwoWire δ) (sendStop : Bool) :
    (w.endTransmission sendStop).2.2.transmitting = false := by
  unfold TwoWire.endTransmission
  by_cases hopen : w.transmitting = true
  · simp only [hopen, Bool.not_true, Bool.false_eq_true, if_false]
    split
    · rfl
    · split <;> rfl
  · simp [hopen]

/-- Outside a transmission nothing but `beginTransmission` opens one. -/
theorem apply_idle (h : w.transmitting = false) {op : WireOp δ}
    (hop : ∀ address, op ≠ .beginTransmission address) : (w.apply op).transmitting = false := by
  cases op with
  | begin sda scl frequency => exact (reportLifecycle_same _ _).1.transmitting.trans h
  | beginSlave address sda scl frequency => exact (reportLifecycle_same _ _).1.transmitting.trans h
  | end_ => exact (reportLifecycle_same _ _).1.transmitting
  | setPins sda scl => exact (reportLifecycle_same _ _).1.transmitting.trans h
  | setClock frequency => exact (reportLifecycle_same _ _).1.transmitting.trans h
  | setTimeOut timeout_ms => exact (reportLifecycle_same _ _).1.transmitting.trans h
  | beginTransmission address => exact absurd rfl (hop address)
  | endTransmission sendStop => exact endTransmission_closes w sendStop
  | requestFrom address size sendStop =>
    exact (requestFrom_same w address size sendStop).1.transmitting.trans h
  | write data => simp [TwoWire.apply, TwoWire.write, h]
  | writeBuffer data => cases data <;> simp [TwoWire.apply, TwoWire.writeBuffer, h]
  | read => exact (read_same w).1.transmitting.trans h
  | peek => exact h
  | flush => exact h
  | setWriteHook hook => exact h
  | setReadHook hook => exact h
  | setLifecycleHook hook => exact h
  | clearHooks => exact h
  | resetCounts => exact h

/-- An operation that neither begins nor ends a transmission, nor offers bytes to it, nor
    uses an address, leaves an open one as it is. -/
theorem Tracks.apply (h : Tracks w t) {op : WireOp δ} (hallowed : op.Allowed true) :
    ∀ t', Pending.next (some t) op = some t' → Tracks (w.apply op) t' := by
  have hquiet : ∀ {w' : TwoWire δ}, SameTransmission w w' ∧ w'.address = w.address →
      ∀ t', some t = some t' → Tracks w' t' := by
    rintro w' ⟨hsame, haddress⟩ t' ht'
    cases ht'
    exact h.of_same hsame haddress
  cases op with
  | begin sda scl frequency => exact hquiet (configured_same w _ _)
  | beginSlave address sda scl frequency =>
    rintro t' ⟨⟩
    obtain ⟨⟨htransmitting, hbuffer, hoverflow⟩, haddress⟩ :=
      configured_same { w with address := address.toUInt16 }
        { w.config with
          sda, scl, frequency := if frequency ≠ 0 then frequency else w.config.frequency
          begun := true } .kBegin
    refine h.readdress ⟨htransmitting, hbuffer, hoverflow⟩ haddress ?_
    rw [UInt16.lt_iff_toNat_lt, UInt8.toNat_toUInt16]
    exact UInt8.lt_iff_toNat_lt.mp hallowed
  | end_ => cases hallowed
  | setPins sda scl => exact hquiet (configured_same w _ _)
  | setClock frequency => exact hquiet (configured_same w _ _)
  | setTimeOut timeout_ms => exact hquiet (configured_same w _ _)
  | beginTransmission address =>
    rintro t' ⟨⟩
    exact tracks_beginTransmission w hallowed
  | endTransmission sendStop => nofun
  | requestFrom address size sendStop =>
    rintro t' ⟨⟩
    obtain ⟨hsame, haddress⟩ := requestFrom_same w address size sendStop
    exact h.readdress hsame haddress hallowed
  | write data =>
    rintro t' ⟨⟩
    exact (h.write data).1
  | writeBuffer data =>
    rintro t' ⟨⟩
    exact h.writeBuffer data
  | read => exact hquiet (read_same w)
  | peek => exact hquiet ⟨⟨rfl, rfl, rfl⟩, rfl⟩
  | flush => cases hallowed
  | setWriteHook hook => exact hquiet ⟨⟨rfl, rfl, rfl⟩, rfl⟩
  | setReadHook hook => exact hquiet ⟨⟨rfl, rfl, rfl⟩, rfl⟩
  | setLifecycleHook hook => exact hquiet ⟨⟨rfl, rfl, rfl⟩, rfl⟩
  | clearHooks => exact hquiet ⟨⟨rfl, rfl, rfl⟩, rfl⟩
  | resetCounts => exact hquiet ⟨⟨rfl, rfl, rfl⟩, rfl⟩

/-- An `endTransmission` is always allowed. -/
theorem undisturbed_of_disabled {r : WireRun δ} {op : WireOp δ}
    (hnone : (wireMachine δ).step r op = none) : Undisturbed r op := by
  cases op with
  | endTransmission sendStop =>
    have hallowed : (WireOp.endTransmission sendStop : WireOp δ).Allowed r.bus.transmitting := trivial
    have hnot := Lib.EventMachine.guarded_step_eq_none.mp hnone
    exact absurd hallowed hnot
  | _ => trivial

theorem WireRun.Linked.step {r : WireRun δ} {op : WireOp δ} (h : r.Linked)
    (hallowed : op.Allowed r.bus.transmitting) : (r.step op).Linked := by
  obtain ⟨bus, pending, ended⟩ := r
  cases pending with
  | none =>
    have hidle : bus.transmitting = false := h
    by_cases hbegin : ∃ address, op = .beginTransmission address
    · obtain ⟨address, rfl⟩ := hbegin
      exact tracks_beginTransmission bus hallowed
    · have hnext : Pending.next none op = none := by
        cases op with
        | beginTransmission address => exact absurd ⟨address, rfl⟩ hbegin
        | _ => rfl
      have happly := apply_idle hidle fun address hop => hbegin ⟨address, hop⟩
      simpa only [WireRun.Linked, WireRun.step, hnext] using happly
  | some t =>
    have htracks : Tracks bus t := h
    have hnext := htracks.apply (htracks.transmitting ▸ hallowed)
    by_cases hend : ∃ sendStop, op = .endTransmission sendStop
    · obtain ⟨sendStop, rfl⟩ := hend
      exact endTransmission_closes bus sendStop
    · obtain ⟨t', ht'⟩ : ∃ t', Pending.next (some t) op = some t' := by
        cases op with
        | endTransmission sendStop => exact absurd ⟨sendStop, rfl⟩ hend
        | _ => exact ⟨_, rfl⟩
      simpa only [WireRun.Linked, WireRun.step, ht'] using hnext t' ht'

theorem toUInt8_inj {a b : UInt16} (ha : a < 128) (hb : b < 128) : a.toUInt8 = b.toUInt8 ↔ a = b := by
  have ha' := UInt16.lt_iff_toNat_lt.mp ha
  have hb' := UInt16.lt_iff_toNat_lt.mp hb
  change a.toNat < 128 at ha'
  change b.toNat < 128 at hb'
  rw [← UInt8.toNat_inj, ← UInt16.toNat_inj, UInt16.toNat_toUInt8, UInt16.toNat_toUInt8]
  omega

/-- The address on the bus, cut to the byte that the hook gets, is that of the open
    transmission unless another one was used last. -/
theorem Tracks.address_eq_iff (h : Tracks w t) :
    w.address.toUInt8 = t.address.toUInt8 ↔
      ∀ address, t.readdressed = some address → address = t.address := by
  rw [h.address]
  cases hlast : t.readdressed with
  | none => simp
  | some address =>
    have hseven := h.sevenBit.2 address hlast
    simp [toUInt8_inj hseven h.sevenBit.1]

theorem Tracks.endTransmission_calls (h : Tracks w t) (hfits : t.bytes.length ≤ I2C_BUFFER_LENGTH)
    (hhook : w.writeHook.isSome = true) (sendStop : Bool) :
    (w.endTransmission sendStop).2.1 = [⟨w.address.toUInt8, t.bytes, sendStop⟩] := by
  obtain ⟨hook, hhook⟩ := Option.isSome_iff_exists.mp hhook
  have hflag : w.txOverflow = false := h.txOverflow.trans (decide_eq_false (Nat.not_lt.mpr hfits))
  have hbuffer : w.txBuffer = t.bytes := by rw [h.txBuffer, List.take_of_length_le hfits]
  simp [TwoWire.endTransmission, h.transmitting, hflag, hhook, hbuffer]

/-- The hook is passed the right address exactly when the last one used is that of the
    transmission; all else about an `endTransmission` is right in any case. -/
theorem report_faithful_iff {r : WireRun δ} (h : r.Linked) (op : WireOp δ) :
    (∀ e ∈ r.report op, e.Faithful) ↔ Undisturbed r op := by
  obtain ⟨bus, pending, ended⟩ := r
  cases op with
  | endTransmission sendStop =>
    simp only [WireRun.report, List.mem_singleton, forall_eq, Undisturbed, Ended.Faithful]
    cases pending with
    | none =>
      have hidle : bus.transmitting = false := h
      simp [TwoWire.endTransmission, hidle]
    | some t =>
      have htracks : Tracks bus t := h
      by_cases hover : I2C_BUFFER_LENGTH < t.bytes.length
      · have hflag : bus.txOverflow = true := htracks.txOverflow.trans (decide_eq_true hover)
        refine iff_of_true ?_ ?_
        · simp [TwoWire.endTransmission, htracks.transmitting, hflag, hover]
        · rintro _ ⟨⟩ hle
          omega
      · have hfits : t.bytes.length ≤ I2C_BUFFER_LENGTH := Nat.le_of_not_lt hover
        by_cases hhook : bus.writeHook.isSome = true
        · simp only [if_neg hover, htracks.endTransmission_calls hfits hhook, if_pos hhook,
            List.cons.injEq, HookCall.mk.injEq, and_true, htracks.address_eq_iff]
          constructor
          · rintro hsame _ ⟨⟩ _ _
            exact hsame
          · exact fun hguard => hguard t rfl hfits hhook
        · have hflag : bus.txOverflow = false := htracks.txOverflow.trans (decide_eq_false hover)
          have hnone : bus.writeHook = none := Option.not_isSome_iff_eq_none.mp hhook
          simp [TwoWire.endTransmission, htracks.transmitting, hflag, hnone, hfits]
  | _ => exact iff_of_true (List.forall_mem_nil _) trivial

/-- In a run of a bus every `endTransmission` returns its status and hands its bytes to
    the hook as it should, and with them the address of its `beginTransmission` exactly
    when no other address was used in between: there is one field for the address of the
    open transmission and for those of reads and of the slave role. -/
theorem endTransmission_faithful_iff (devices : δ) (ops : List (WireOp δ)) :
    (∀ r ∈ (wireMachine δ).visited (.start devices) ops, ∀ e ∈ r.ended, e.Faithful) ↔
      (wireMachine δ).Meets Undisturbed (.start devices) ops := by
  refine Lib.EventMachine.visited_iff_meets_of_invariant ?_ ?_ (fun r op _ => undisturbed_of_disabled)
    (I := WireRun.Linked) rfl (by simp [WireRun.start])
  · intro r op r' hr hstep
    obtain ⟨hallowed, rfl⟩ := Lib.EventMachine.guarded_step_eq_some.mp hstep
    exact hr.step hallowed
  · intro r op r' hr hended hstep
    obtain ⟨-, rfl⟩ := Lib.EventMachine.guarded_step_eq_some.mp hstep
    rw [← report_faithful_iff hr op]
    simp only [WireRun.step, List.mem_append]
    constructor
    · exact fun hall e he => hall e (.inr he)
    · rintro hnew e (he | he)
      · exact hended e he
      · exact hnew e he

/-- A read between `beginTransmission` and `endTransmission` sends the bytes to its own
    address. -/
theorem endTransmission_misaddressed :
    ∃ r ∈ (wireMachine Unit).visited (.start ())
        [.setWriteHook (some fun _ _ _ devices => (0, devices)), .beginTransmission 0x10, .write 1,
          .requestFrom 0x20 1 true, .endTransmission true],
      ∃ e ∈ r.ended, e.pending = some ⟨0x10, [1], some 0x20⟩ ∧ e.calls = [⟨0x20, [1], true⟩] ∧
        ¬e.Faithful := by
  refine ⟨_, Lib.EventMachine.mem_visited_iff.mpr ⟨_, List.prefix_refl _, rfl⟩, _,
    List.mem_singleton_self _, rfl, rfl, ?_⟩
  intro hfaithful
  cases hfaithful

end HostArduino.wire
