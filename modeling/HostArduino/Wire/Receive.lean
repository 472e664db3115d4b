import HostArduino.Wire.Transmission

namespace HostArduino.wire

variable {δ : Type*}

/-- What the operations keep about the two buffers, whatever the hooks do. -/
structure TwoWire.InBounds (w : TwoWire δ) : Prop where
  tx : w.txBuffer.length ≤ I2C_BUFFER_LENGTH
  index : w.rxIndex ≤ w.rxLength
  rx : w.rxLength ≤ I2C_BUFFER_LENGTH

/-- The bytes that a request gets: of those that the read hook leaves in the buffer the
    first ones, as many as it says it supplied, but no more than it was asked for. A list
    shorter than the buffer has zeros behind it. -/
def TwoWire.answer (w : TwoWire δ) (address : UInt16) (size : Nat) (sendStop : Bool) : List UInt8 :=
  match w.readHook with
  | none => []
  | some hook =>
    let asked := min size I2C_BUFFER_LENGTH
    let (stored, supplied, _) := hook address.toUInt8 w.rxBuffer asked sendStop w.devices
    (stored.rightpad I2C_BUFFER_LENGTH 0).take (min supplied asked)

/-- The operations that do not discard what has been received. -/
def WireOp.KeepsReceived : WireOp δ → Prop
  | .requestFrom _ _ _ | .flush | .end_ => False
  | _ => True

def WireOp.isRead : WireOp δ → Bool
  | .read => true
  | _ => false

/-- What the `read`s among the operations return. -/
def TwoWire.reads (w : TwoWire δ) : List (WireOp δ) → List Int
  | [] => []
  | op :: ops => (if op.isRead then [w.read.1] else []) ++ (w.apply op).reads ops

/-- The bytes that have been received and not been read yet. -/
def TwoWire.unread (w : TwoWire δ) : List UInt8 :=
  ((w.rxBuffer.rightpad I2C_BUFFER_LENGTH 0).take w.rxLength).drop w.rxIndex

/-- What a number of `read`s find: the bytes that there are, and -1 behind them. -/
def readResults (bytes : List UInt8) (count : Nat) : List Int :=
  (bytes.map (fun byte : UInt8 => (byte.toNat : Int)) ++ List.replicate count (-1)).take count

theorem readResults_nil (count : Nat) : readResults [] count = List.replicate count (-1) := by
  simp [readResults]

theorem readResults_cons (byte : UInt8) (rest : List UInt8) (count : Nat) :
    readResults (byte :: rest) (count + 1) = (byte.toNat : Int) :: readResults rest count := by
  have henough : count ≤ (rest.map (fun byte : UInt8 => (byte.toNat : Int)) ++
      List.replicate count (-1)).length := by
    simp
  rw [readResults, readResults, List.map_cons, List.cons_append, List.take_succ_cons,
    List.replicate_succ', ← List.append_assoc, List.take_append_of_le_length henough]

/-- The fields that `read` works on. -/
structure SameReceived (w w' : TwoWire δ) : Prop where
  rxBuffer : w'.rxBuffer = w.rxBuffer
  rxLength : w'.rxLength = w.rxLength
  rxIndex : w'.rxIndex = w.rxIndex

variable {w w' : TwoWire δ}

theorem getElem?_rightpad {bytes : List UInt8} {i n : Nat} (hi : i < n) :
    (bytes.rightpad n 0)[i]? = some (bytes.getD i 0) := by
  rw [List.rightpad, List.getD_eq_getElem?_getD]
  by_cases hinside : i < bytes.length
  · rw [List.getElem?_append_left hinside, List.getElem?_eq_getElem hinside]
    rfl
  · rw [List.getElem?_append_right (Nat.le_of_not_lt hinside), List.getElem?_replicate_of_lt (by omega),
      List.getElem?_eq_none (Nat.le_of_not_lt hinside)]
    rfl

theorem SameReceived.unread (h : SameReceived w w') : w'.unread = w.unread := by
  rw [TwoWire.unread, TwoWire.unread, h.rxBuffer, h.rxLength, h.rxIndex]

section Operations

theorem reportLifecycle_received (w : TwoWire δ) (event : LifecycleEvent) :
    SameReceived w (w.reportLifecycle event) := by
  unfold TwoWire.reportLifecycle
  split <;> exact ⟨rfl, rfl, rfl⟩

theorem configured_received (w : TwoWire δ) (config : BusConfig) (event : LifecycleEvent) :
    SameReceived w ({ w with config }.reportLifecycle event) := by
  obtain ⟨hbuffer, hlength, hindex⟩ := reportLifecycle_received { w with config } event
  exact ⟨hbuffer, hlength, hindex⟩

theorem endTransmission_received (w : TwoWire δ) (sendStop : Bool) :
    SameReceived w (w.endTransmission sendStop).2.2 := by
  unfold TwoWire.endTransmission
  split
  · exact ⟨rfl, rfl, rfl⟩
  · simp only
    split
    · exact ⟨rfl, rfl, rfl⟩
    · split <;> exact ⟨rfl, rfl, rfl⟩

theorem write_received (w : TwoWire δ) (data : UInt8) : SameReceived w (w.write data).2 := by
  unfold TwoWire.write
  split
  · exact ⟨rfl, rfl, rfl⟩
  · split <;> exact ⟨rfl, rfl, rfl⟩

/-- The loop stops or goes on, and keeps what one `write` keeps. -/
theorem writeLoop_rule {P : TwoWire δ → Prop} (hwrite : ∀ w data, P w → P (w.write data).2)
    (hw : P w) (bytes : List UInt8) : P (w.writeLoop bytes).2 := by
  induction bytes generalizing w with
  | nil => exact hw
  | cons byte rest ih =>
    have hfirst := hwrite w byte hw
    unfold TwoWire.writeLoop
    simp only
    split
    · exact hfirst
    · exact ih hfirst

theorem writeBuffer_rule {P : TwoWire δ → Prop} (hwrite : ∀ w data, P w → P (w.write data).2)
    (hw : P w) (data : Option (List UInt8)) : P (w.writeBuffer data).2 := by
  cases data with
  | none => exact hw
  | some bytes =>
    simp only [TwoWire.writeBuffer]
    split
    · exact hw
    · exact writeLoop_rule hwrite hw bytes

theorem writeBuffer_received (w : TwoWire δ) (data : Option (List UInt8)) :
    SameReceived w (w.writeBuffer data).2 := by
  refine writeBuffer_rule (P := fun w' => SameReceived w w') ?_ ⟨rfl, rfl, rfl⟩ data
  intro w' byte h
  obtain ⟨hbuffer, hlength, hindex⟩ := write_received w' byte
  exact ⟨hbuffer.trans h.rxBuffer, hlength.trans h.rxLength, hindex.trans h.rxIndex⟩

end Operations

/-- Outside the operations on the receive side nothing touches what has been received. -/
theorem apply_received {op : WireOp δ} (hkeeps : op.KeepsReceived) (hread : op.isRead = false) :
    SameReceived w (w.apply op) := by
  cases op with
  | begin sda scl frequency => exact configured_received w _ _
  | beginSlave address sda scl frequency =>
    obtain ⟨hbuffer, hlength, hindex⟩ := configured_received { w with address := address.toUInt16 }
      { w.config with
        sda, scl, frequency := if frequency ≠ 0 then frequency else w.config.frequency
        begun := true } .kBegin
    exact ⟨hbuffer, hlength, hindex⟩
  | setPins sda scl => exact configured_received w _ _
  | setClock frequency => exact configured_received w _ _
  | setTimeOut timeout_ms => exact configured_received w _ _
  | endTransmission sendStop => exact endTransmission_received w sendStop
  | write data => exact write_received w data
  | writeBuffer data => exact writeBuffer_received w data
  | end_ | requestFrom _ _ _ | flush => exact hkeeps.elim
  | read => cases hread
  | beginTransmission _ | peek | setWriteHook _ | setReadHook _ | setLifecycleHook _ | clearHooks
  | resetCounts => exact ⟨rfl, rfl, rfl⟩

theorem clamp_eq (limit n : Nat) : (if limit < n then limit else n) = min n limit := by
  split <;> omega

theorem requestFrom_spec (w : TwoWire δ) (address : UInt16) (size : Nat) (sendStop : Bool) :
    (w.requestFrom address size sendStop).2.txBuffer = w.txBuffer ∧
      (w.requestFrom address size sendStop).2.rxIndex = 0 ∧
      (w.requestFrom address size sendStop).2.rxLength ≤ I2C_BUFFER_LENGTH ∧
      (w.requestFrom address size sendStop).2.unread = w.answer address size sendStop ∧
      (w.requestFrom address size sendStop).1 = (w.answer address size sendStop).length := by
  unfold TwoWire.requestFrom TwoWire.answer
  rw [clamp_eq]
  cases hhook : w.readHook with
  | none => exact ⟨rfl, rfl, Nat.zero_le _, rfl, rfl⟩
  | some hook =>
    simp only
    by_cases hzero : min size I2C_BUFFER_LENGTH = 0
    · rw [if_pos hzero, hzero, Nat.min_zero, List.take_zero]
      exact ⟨rfl, rfl, Nat.zero_le _, rfl, rfl⟩
    · rw [if_neg hzero]
      obtain ⟨stored, supplied, devices⟩ :=
        hook address.toUInt8 w.rxBuffer (min size I2C_BUFFER_LENGTH) sendStop w.devices
      simp only [clamp_eq, true_and]
      refine ⟨?_, rfl, ?_⟩
      · exact Nat.le_trans (Nat.min_le_right _ _) (Nat.min_le_right _ _)
      · rw [List.length_take, List.length_rightpad]
        omega

theorem TwoWire.InBounds.requestFrom (h : w.InBounds) (address : UInt16) (size : Nat) (sendStop : Bool) :
    (w.requestFrom address size sendStop).2.InBounds := by
  obtain ⟨hbuffer, hindex, hlength, -⟩ := requestFrom_spec w address size sendStop
  exact ⟨by rw [hbuffer]; exact h.tx, by rw [hindex]; exact Nat.zero_le _, hlength⟩

theorem reportLifecycle_inBounds (h : w.InBounds) (event : LifecycleEvent) :
    (w.reportLifecycle event).InBounds := by
  unfold TwoWire.reportLifecycle
  split <;> exact ⟨h.tx, h.index, h.rx⟩

theorem TwoWire.InBounds.endTransmission (h : w.InBounds) (sendStop : Bool) :
    (w.endTransmission sendStop).2.2.InBounds := by
  have hempty : ([] : List UInt8).length ≤ I2C_BUFFER_LENGTH := Nat.zero_le _
  unfold TwoWire.endTransmission
  split
  · exact h
  · simp only
    split
    · exact ⟨hempty, h.index, h.rx⟩
    · split <;> exact ⟨hempty, h.index, h.rx⟩

/-- A byte is put into the buffer only where there is room. -/
theorem TwoWire.InBounds.write (h : w.InBounds) (data : UInt8) : (w.write data).2.InBounds := by
  unfold TwoWire.write
  split
  · exact h
  · split
    · exact ⟨h.tx, h.index, h.rx⟩
    · rename_i hroom
      refine ⟨?_, h.index, h.rx⟩
      simp only [List.length_append, List.length_singleton]
      omega

/-- A `read` takes the first byte that has not been read. -/
theorem read_spec (h : w.InBounds) :
    w.read.1 = w.unread.head?.elim (-1) (fun byte => (byte.toNat : Int)) ∧
      w.read.2.unread = w.unread.tail ∧ w.read.2.InBounds := by
  unfold TwoWire.read
  split
  · rename_i hdone
    have hnone : w.unread = [] := by
      rw [TwoWire.unread, List.drop_eq_nil_iff]
      exact Nat.le_trans (List.length_take_le _ _) hdone
    rw [hnone]
    exact ⟨rfl, rfl, h⟩
  · rename_i hmore
    have hlt : w.rxIndex < w.rxLength := Nat.lt_of_not_le hmore
    refine ⟨?_, ?_, h.tx, hlt, h.rx⟩
    · rw [TwoWire.unread, List.head?_drop, List.getElem?_take_of_lt hlt,
        getElem?_rightpad (Nat.lt_of_lt_of_le hlt h.rx)]
      rfl
    · exact List.tail_drop.symm

theorem TwoWire.InBounds.apply (h : w.InBounds) (op : WireOp δ) : (w.apply op).InBounds := by
  cases op with
  | begin _ _ _ | beginSlave _ _ _ _ | setPins _ _ | setClock _ | setTimeOut _ =>
    refine reportLifecycle_inBounds ?_ _
    exact ⟨h.tx, h.index, h.rx⟩
  | end_ =>
    refine reportLifecycle_inBounds ?_ _
    exact ⟨Nat.zero_le _, Nat.le_refl _, Nat.zero_le _⟩
  | endTransmission sendStop => exact h.endTransmission sendStop
  | requestFrom address size sendStop => exact h.requestFrom address size sendStop
  | write data => exact h.write data
  | writeBuffer data => exact writeBuffer_rule (fun w byte h => h.write byte) h data
  | read => exact (read_spec h).2.2
  | flush => exact ⟨Nat.zero_le _, Nat.le_refl _, Nat.zero_le _⟩
  | beginTransmission address => exact ⟨Nat.zero_le _, h.index, h.rx⟩
  | peek | setWriteHook _ | setReadHook _ | setLifecycleHook _ | clearHooks | resetCounts =>
    exact ⟨h.tx, h.index, h.rx⟩

theorem inBounds_run (devices : δ) (ops : List (WireOp δ)) :
    (ops.foldl TwoWire.apply (.create devices)).InBounds := by
  refine Lib.EventMachine.run_invariant ?_ (s := .create devices) ?_
    (Lib.EventMachine.total_run TwoWire.apply _ ops)
  · intro w op w' h hstep
    obtain rfl : w.apply op = w' := Option.some.inj hstep
    exact h.apply op
  · exact ⟨Nat.zero_le _, Nat.le_refl _, Nat.zero_le _⟩

/-- One result for each `read`, in order. -/
theorem reads_eq (h : w.InBounds) {ops : List (WireOp δ)} (hkeeps : ∀ op ∈ ops, op.KeepsReceived) :
    w.reads ops = readResults w.unread (ops.countP WireOp.isRead) := by
  induction ops generalizing w with
  | nil => rfl
  | cons op ops ih =>
    have hrest := ih (h.apply op) fun later hlater => hkeeps later (List.mem_cons_of_mem _ hlater)
    rw [TwoWire.reads, hrest, List.countP_cons]
    cases hread : op.isRead with
    | false =>
      have hsame := apply_received (w := w) (hkeeps op List.mem_cons_self) hread
      rw [hsame.unread]
      simp
    | true =>
      obtain rfl : op = .read := by
        cases op <;> first | rfl | cases hread
      obtain ⟨hfirst, hunread, -⟩ := read_spec h
      have hnext : (w.apply .read).unread = w.unread.tail := hunread
      rw [hnext, hfirst]
      cases w.unread with
      | nil => simp [readResults_nil, List.replicate_succ]
      | cons byte rest => simp [readResults_cons]

/-- After any operations, whatever the hooks do, the two buffers are within their bounds
    and `available` does not go below zero; and what a request then got is handed out by
    the `read`s after it, each byte once and in order, with -1 behind them. -/
theorem receive_buffer (devices : δ) (ops : List (WireOp δ)) (address : UInt16) (size : Nat)
    (sendStop : Bool) (later : List (WireOp δ)) (hlater : ∀ op ∈ later, op.KeepsReceived) :
    let w := ops.foldl TwoWire.apply (.create devices)
    let answer := w.answer address size sendStop
    (w.InBounds ∧ (w.available : Int) = w.rxLength - w.rxIndex) ∧
      (w.requestFrom address size sendStop).1 = answer.length ∧
      (w.requestFrom address size sendStop).2.reads later =
        readResults answer (later.countP WireOp.isRead) := by
  intro w answer
  have hbounds : w.InBounds := inBounds_run devices ops
  obtain ⟨-, -, -, hunread, hcount⟩ := requestFrom_spec w address size sendStop
  refine ⟨⟨hbounds, ?_⟩, hcount, ?_⟩
  · have hindex := hbounds.index
    rw [TwoWire.available]
    omega
  · rw [reads_eq (hbounds.requestFrom address size sendStop) hlater, hunread]

/-- A hook that says it supplied more than it was asked for. -/
theorem receive_buffer_overclaimed :
    ((TwoWire.create ()).apply (.setReadHook (some fun _ _ _ _ devices => ([7, 8], 9, devices)))
      |>.requestFrom 0x20 3 true).2.reads [.read, .peek, .write 1, .read, .read, .read] = [7, 8, 0, -1] :=
  (receive_buffer () [.setReadHook (some fun _ _ _ _ devices => ([7, 8], 9, devices))] 0x20 3 true
    [.read, .peek, .write 1, .read, .read, .read] (by simp [WireOp.KeepsReceived])).2.2

end HostArduino.wire
