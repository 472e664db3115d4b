import HostArduino.Uart.HostUart

namespace HostArduino.host_uart

open Lib

/-- The operations of a `HostUart` that change it, with their arguments. -/
inductive Operation where
  | begin (baud : UInt64) (config : UInt32) (rxPin txPin : Int8)
  | end_
  | write (value : UInt8)
  | writeBuffer (buffer : Option (List UInt8))
  | read
  | flush
  | setRxBufferSize (size : Nat)
  | setTxBufferSize (size : Nat)
  | readTx (buffer : Bool) (size : Nat)
  | readTxString
  | pushRx (buffer : Option (List UInt8))
  | pushRxText (text : Option (List UInt8))
  | pushRxByte (value : UInt8)
  | clearTx
  | clearRx
  | clearOverflow
  | resetTotals
  deriving DecidableEq

def HostUart.apply (u : HostUart) : Operation → HostUart
  | .begin baud config rxPin txPin => (u.begin baud config rxPin txPin).uart
  | .end_ => u.end_.uart
  | .write value => (u.write value).uart
  | .writeBuffer buffer => (u.writeBuffer buffer).uart
  | .read => u.read.uart
  | .flush => u.flush.uart
  | .setRxBufferSize size => (u.setRxBufferSize size).uart
  | .setTxBufferSize size => (u.setTxBufferSize size).uart
  | .readTx buffer size => (u.readTx buffer size).uart
  | .readTxString => u.readTxString.uart
  | .pushRx buffer => (u.pushRx buffer).uart
  | .pushRxText text => (u.pushRxText text).uart
  | .pushRxByte value => (u.pushRxByte value).uart
  | .clearTx => u.clearTx.uart
  | .clearRx => u.clearRx.uart
  | .clearOverflow => u.clearOverflow.uart
  | .resetTotals => u.resetTotals.uart

/-- A write that accepts fewer bytes than it is given, or a resize that leaves fewer in
    the transmit queue than there were. -/
def LosesTx (u : HostUart) : Operation → Prop
  | .write value => (u.write value).returns < 1
  | .writeBuffer (some bytes) => (u.writeBuffer (some bytes)).returns < bytes.length
  | .setTxBufferSize size => (u.setTxBufferSize size).uart.tx.items.length < u.tx.items.length
  | _ => False

/-- The same of a push and a resize on the receive side. -/
def LosesRx (u : HostUart) : Operation → Prop
  | .pushRx (some bytes) => (u.pushRx (some bytes)).returns < bytes.length
  | .pushRxText (some bytes) => (u.pushRxText (some bytes)).returns < bytes.length
  | .pushRxByte value => (u.pushRxByte value).returns < 1
  | .setRxBufferSize size => (u.setRxBufferSize size).uart.rx.items.length < u.rx.items.length
  | _ => False

structure QueuesBounded (u : HostUart) : Prop where
  tx : u.tx.Bounded
  rx : u.rx.Bounded

variable {u : HostUart}

theorem queuesBounded_create : QueuesBounded .create := by
  refine ⟨⟨?_, Nat.zero_le _⟩, ⟨?_, Nat.zero_le _⟩⟩
  · change 1 ≤ kDefaultBufferSize
    decide
  · change 1 ≤ kDefaultBufferSize
    decide

theorem bufferLimit_pos (size : Nat) : 1 ≤ HostUart.bufferLimit size := by
  unfold HostUart.bufferLimit
  split
  · exact Nat.le_refl 1
  · omega

theorem queuesBounded_pushRx (h : QueuesBounded u) (buffer : Option (List UInt8)) :
    QueuesBounded (u.pushRx buffer).uart := by
  cases buffer with
  | none => exact h
  | some bytes => exact ⟨h.tx, h.rx.offer bytes⟩

theorem queuesBounded_read (h : QueuesBounded u) : QueuesBounded u.read.uart := by
  have hroom := h.rx.length_le
  unfold HostUart.read
  split
  · exact h
  · rename_i value rest hitems
    rw [hitems, List.length_cons] at hroom
    refine ⟨h.tx, h.rx.positive, ?_⟩
    change rest.length ≤ u.rx.limit
    omega

theorem queuesBounded_readTx (h : QueuesBounded u) (buffer : Bool) (size : Nat) :
    QueuesBounded (u.readTx buffer size).uart := by
  unfold HostUart.readTx
  split
  · exact h
  · exact ⟨h.tx.drain size, h.rx⟩

theorem queuesBounded_apply (h : QueuesBounded u) (op : Operation) : QueuesBounded (u.apply op) := by
  cases op with
  | begin baud config rxPin txPin => exact ⟨h.tx.clear, h.rx.clear⟩
  | end_ => exact ⟨h.tx.clear, h.rx.clear⟩
  | write value =>
    simp only [HostUart.apply, HostUart.write_eq]
    exact ⟨h.tx.offer [value], h.rx⟩
  | writeBuffer buffer =>
    cases buffer with
    | none => exact h
    | some bytes => exact ⟨h.tx.offer bytes, h.rx⟩
  | read => exact queuesBounded_read h
  | flush => exact ⟨h.tx, h.rx.clear⟩
  | setRxBufferSize size => exact ⟨h.tx, BoundedQueue.bounded_resize _ (bufferLimit_pos size)⟩
  | setTxBufferSize size => exact ⟨BoundedQueue.bounded_resize _ (bufferLimit_pos size), h.rx⟩
  | readTx buffer size => exact queuesBounded_readTx h buffer size
  | readTxString => exact ⟨h.tx.drain _, h.rx⟩
  | pushRx buffer => exact queuesBounded_pushRx h buffer
  | pushRxText text =>
    cases text with
    | none => exact h
    | some bytes => exact queuesBounded_pushRx h (some bytes)
  | pushRxByte value => exact queuesBounded_pushRx h (some [value])
  | clearTx => exact ⟨h.tx.clear, h.rx⟩
  | clearRx => exact ⟨h.tx, h.rx.clear⟩
  | clearOverflow => exact ⟨⟨h.tx.positive, h.tx.length_le⟩, ⟨h.rx.positive, h.rx.length_le⟩⟩
  | resetTotals => exact ⟨h.tx, h.rx⟩

/-- An offer raises the flag exactly when it accepts less than it is given. -/
theorem overflowed_offer (q : BoundedQueue UInt8) (bytes : List UInt8) :
    (q.offer bytes).1.overflowed = true ↔ (q.offer bytes).2 < bytes.length ∨ q.overflowed = true := by
  rw [BoundedQueue.offer_overflowed, Bool.or_eq_true, decide_eq_true_eq, or_comm]

theorem overflowed_resize (q : BoundedQueue UInt8) (limit : Nat) :
    (q.resize limit).overflowed = true ↔
      (q.resize limit).items.length < q.items.length ∨ q.overflowed = true := by
  have hdrops : (q.items.take limit).length < q.items.length ↔ limit < q.items.length := by
    rw [List.length_take]
    omega
  rw [BoundedQueue.resize_spec]
  change (q.overflowed || decide (limit < q.items.length)) = true ↔
    (q.items.take limit).length < q.items.length ∨ q.overflowed = true
  rw [hdrops, Bool.or_eq_true, decide_eq_true_eq, or_comm]

theorem read_overflowed : u.read.uart.rx.overflowed = u.rx.overflowed ∧ u.read.uart.tx = u.tx := by
  unfold HostUart.read
  split <;> exact ⟨rfl, rfl⟩

theorem readTx_overflowed (buffer : Bool) (size : Nat) :
    (u.readTx buffer size).uart.tx.overflowed = u.tx.overflowed ∧ (u.readTx buffer size).uart.rx = u.rx := by
  unfold HostUart.readTx
  split
  · exact ⟨rfl, rfl⟩
  · rw [BoundedQueue.drain_spec]
    exact ⟨rfl, rfl⟩

theorem readTxString_overflowed : u.readTxString.uart.tx.overflowed = u.tx.overflowed := by
  unfold HostUart.readTxString
  rw [BoundedQueue.drain_spec]

/-- What an operation does to the transmit flag. -/
theorem txOverflowed_apply (u : HostUart) (op : Operation) :
    (u.apply op).tx.overflowed = true ↔
      LosesTx u op ∨ u.tx.overflowed = true ∧ ¬op = .clearOverflow := by
  by_cases hclears : op = .clearOverflow
  · subst hclears
    simp [LosesTx, HostUart.apply, HostUart.clearOverflow]
  rw [and_iff_left hclears]
  have hkept : ∀ {u' : HostUart}, u'.tx.overflowed = u.tx.overflowed →
      (u'.tx.overflowed = true ↔ False ∨ u.tx.overflowed = true) := by
    intro u' heq
    rw [heq, false_or]
  cases op with
  | write value =>
    simp only [LosesTx, HostUart.apply, HostUart.write_eq]
    exact overflowed_offer u.tx [value]
  | writeBuffer buffer =>
    cases buffer with
    | none => exact hkept rfl
    | some bytes => exact overflowed_offer u.tx bytes
  | setTxBufferSize size => exact overflowed_resize u.tx (HostUart.bufferLimit size)
  | read => exact hkept (congrArg (·.overflowed) read_overflowed.2)
  | readTx buffer size => exact hkept (readTx_overflowed buffer size).1
  | readTxString => exact hkept readTxString_overflowed
  | pushRx buffer => cases buffer <;> exact hkept rfl
  | pushRxText text => cases text <;> exact hkept rfl
  | clearOverflow => exact absurd rfl hclears
  | _ => exact hkept rfl

/-- What an operation does to the receive flag. -/
theorem rxOverflowed_apply (u : HostUart) (op : Operation) :
    (u.apply op).rx.overflowed = true ↔
      LosesRx u op ∨ u.rx.overflowed = true ∧ ¬op = .clearOverflow := by
  by_cases hclears : op = .clearOverflow
  · subst hclears
    simp [LosesRx, HostUart.apply, HostUart.clearOverflow]
  rw [and_iff_left hclears]
  have hkept : ∀ {u' : HostUart}, u'.rx.overflowed = u.rx.overflowed →
      (u'.rx.overflowed = true ↔ False ∨ u.rx.overflowed = true) := by
    intro u' heq
    rw [heq, false_or]
  cases op with
  | pushRx buffer =>
    cases buffer with
    | none => exact hkept rfl
    | some bytes => exact overflowed_offer u.rx bytes
  | pushRxText text =>
    cases text with
    | none => exact hkept rfl
    | some bytes => exact overflowed_offer u.rx bytes
  | pushRxByte value => exact overflowed_offer u.rx [value]
  | setRxBufferSize size => exact overflowed_resize u.rx (HostUart.bufferLimit size)
  | read => exact hkept read_overflowed.1
  | readTx buffer size => exact hkept (congrArg (·.overflowed) (readTx_overflowed buffer size).2)
  | write value =>
    simp only [LosesRx, HostUart.apply, HostUart.write_eq]
    exact hkept rfl
  | writeBuffer buffer => cases buffer <;> exact hkept rfl
  | clearOverflow => exact absurd rfl hclears
  | _ => exact hkept rfl

/-- After any sequence of operations on a new `HostUart` both limits are at least 1, no
    queue is longer than its limit, and a flag is up exactly when some operation since
    the last `clearOverflow` was refused a byte or discarded one. -/
theorem bounds_and_flags (ops : List Operation) :
    (1 ≤ (ops.foldl HostUart.apply .create).tx.limit ∧ 1 ≤ (ops.foldl HostUart.apply .create).rx.limit ∧
      (ops.foldl HostUart.apply .create).tx.items.length ≤ (ops.foldl HostUart.apply .create).tx.limit ∧
      (ops.foldl HostUart.apply .create).rx.items.length ≤ (ops.foldl HostUart.apply .create).rx.limit) ∧
    ((ops.foldl HostUart.apply .create).tx.overflowed = true ↔
      ∃ before op after, ops = before ++ op :: after ∧
        LosesTx (before.foldl HostUart.apply .create) op ∧ ∀ later ∈ after, ¬later = .clearOverflow) ∧
    ((ops.foldl HostUart.apply .create).rx.overflowed = true ↔
      ∃ before op after, ops = before ++ op :: after ∧
        LosesRx (before.foldl HostUart.apply .create) op ∧ ∀ later ∈ after, ¬later = .clearOverflow) := by
  have hbounded : QueuesBounded (ops.foldl HostUart.apply .create) := by
    refine EventMachine.run_invariant ?_ queuesBounded_create (EventMachine.total_run HostUart.apply .create ops)
    intro u op u' h hstep
    obtain rfl : u.apply op = u' := Option.some.inj hstep
    exact queuesBounded_apply h op
  refine ⟨⟨hbounded.tx.positive, hbounded.rx.positive, hbounded.tx.length_le, hbounded.rx.length_le⟩, ?_, ?_⟩
  · apply EventMachine.sticky_iff (F := fun u : HostUart => u.tx.overflowed = true) txOverflowed_apply
    nofun
  · apply EventMachine.sticky_iff (F := fun u : HostUart => u.rx.overflowed = true) rxOverflowed_apply
    nofun

end HostArduino.host_uart
