import HostArduino.Uart.HostUart

namespace HostArduino.host_uart

open Lib

inductive SketchCall where
  | write (value : UInt8)
  | writeBuffer (buffer : Option (List UInt8))
  | read
  | peek
  | flush
  deriving DecidableEq

inductive DriverCall where
  | readTx (buffer : Bool) (size : Nat)
  | readTxString
  | pushRx (buffer : Option (List UInt8))
  | pushRxText (text : Option (List UInt8))
  | pushRxByte (value : UInt8)
  deriving DecidableEq

/-- A sketch's call, out of its lock scope: how many bytes a write has accepted, and
    what there is to report. -/
structure Sketched where
  uart : HostUart
  accepted : Nat
  report : Option Activity

/-- A driver's call: the bytes it has drained, and those of a push that were accepted. -/
structure Driven where
  uart : HostUart
  drained : List UInt8
  pushed : List UInt8

def HostUart.sketch (u : HostUart) : SketchCall → Sketched
  | .write value => ⟨(u.write value).uart, (u.write value).returns, (u.write value).report⟩
  | .writeBuffer buffer =>
    ⟨(u.writeBuffer buffer).uart, (u.writeBuffer buffer).returns, (u.writeBuffer buffer).report⟩
  | .read => ⟨u.read.uart, 0, u.read.report⟩
  | .peek => ⟨u.peek.uart, 0, u.peek.report⟩
  | .flush => ⟨u.flush.uart, 0, u.flush.report⟩

def HostUart.drive (u : HostUart) : DriverCall → Driven
  | .readTx buffer size => ⟨(u.readTx buffer size).uart, (u.readTx buffer size).returns, []⟩
  | .readTxString => ⟨u.readTxString.uart, u.readTxString.returns, []⟩
  | .pushRx buffer => ⟨(u.pushRx buffer).uart, [], (buffer.getD []).take (u.pushRx buffer).returns⟩
  | .pushRxText text => ⟨(u.pushRxText text).uart, [], (text.getD []).take (u.pushRxText text).returns⟩
  | .pushRxByte value => ⟨(u.pushRxByte value).uart, [], [value].take (u.pushRxByte value).returns⟩

/-- A sketch and a driver on the two sides of a `HostUart`. `reporting` is what the
    sketch's call under way has not told the hook yet, `trace` what the hook has recorded,
    `written` how many bytes the writes have accepted. -/
structure Conversation where
  uart : HostUart
  reporting : Option Activity
  trace : List Activity
  written : Nat
  drained : List UInt8
  pushed : List UInt8
  deriving DecidableEq

def Conversation.start (u : HostUart) : Conversation where
  uart := u
  reporting := none
  trace := []
  written := 0
  drained := []
  pushed := []

inductive ConversationEvent where
  | sketch (call : SketchCall)
  | report
  | driver (call : DriverCall)
  deriving DecidableEq

/-- The sketch makes one call at a time, and its call reports with the lock released;
    the driver may call at any time, so from inside the hook as well. -/
def Conversation.step (s : Conversation) : ConversationEvent → Option Conversation
  | .sketch call =>
    match s.reporting with
    | some _ => none
    | none =>
      let done := s.uart.sketch call
      some { s with uart := done.uart, reporting := done.report, written := s.written + done.accepted }
  | .report => s.reporting.map fun activity => { s with reporting := none, trace := s.trace ++ [activity] }
  | .driver call =>
    let done := s.uart.drive call
    some { s with uart := done.uart, drained := s.drained ++ done.drained, pushed := s.pushed ++ done.pushed }

def conversationMachine : EventMachine Conversation ConversationEvent where
  step := Conversation.step

/-- The bytes of the activities of some kinds, in the order of the trace. -/
def payloads (kinds : List ActivityEvent) (trace : List Activity) : List UInt8 :=
  (trace.filter fun activity => kinds.contains activity.event).flatMap Activity.data

def txPayloads : List Activity → List UInt8 :=
  payloads [.kUartTx]

def rxPayloads : List Activity → List UInt8 :=
  payloads [.kUartRx, .kUartRxDiscard]

theorem payloads_append (kinds : List ActivityEvent) (before after : List Activity) :
    payloads kinds (before ++ after) = payloads kinds before ++ payloads kinds after := by
  simp [payloads]

theorem txPayloads_append (before after : List Activity) :
    txPayloads (before ++ after) = txPayloads before ++ txPayloads after :=
  payloads_append _ before after

theorem rxPayloads_append (before after : List Activity) :
    rxPayloads (before ++ after) = rxPayloads before ++ rxPayloads after :=
  payloads_append _ before after

/-- A `HostUart` nobody has sent anything through: new, or begun again with its totals reset. -/
structure Fresh (u : HostUart) : Prop where
  tx : u.tx.items = []
  rx : u.rx.items = []
  txTotal : u.txTotal = 0
  rxTotal : u.rxTotal = 0

variable {u : HostUart}

theorem fresh_create : Fresh .create :=
  ⟨rfl, rfl, rfl, rfl⟩

/-- A sketch's call reports the bytes it has put into the transmit queue and those it
    has taken from the receive queue. -/
structure SketchMoves (u : HostUart) (done : Sketched) : Prop where
  tx : done.uart.tx.items = u.tx.items ++ txPayloads done.report.toList
  rx : u.rx.items = rxPayloads done.report.toList ++ done.uart.rx.items
  txTotal : done.uart.txTotal = u.txTotal + UInt32.ofNat done.accepted
  rxTotal : done.uart.rxTotal = u.rxTotal

theorem write_moves (u : HostUart) (bytes : List UInt8) : SketchMoves u (u.sketch (.writeBuffer (some bytes))) := by
  have hitems := BoundedQueue.offer_items u.tx bytes
  by_cases hnone : (u.tx.offer bytes).2 = 0
  · rw [hnone] at hitems
    have hreport : (u.sketch (.writeBuffer (some bytes))).report = none := if_pos hnone
    refine ⟨?_, ?_, rfl, rfl⟩
    · rw [hreport]
      exact hitems
    · rw [hreport]
      rfl
  · have hreport : (u.sketch (.writeBuffer (some bytes))).report =
        some ⟨.kUartTx, bytes.take (u.tx.offer bytes).2⟩ := if_neg hnone
    refine ⟨?_, ?_, rfl, rfl⟩
    · rw [hreport]
      change (u.tx.offer bytes).1.items = u.tx.items ++ (bytes.take (u.tx.offer bytes).2 ++ [])
      rw [List.append_nil, hitems]
    · rw [hreport]
      rfl

/-- A call that moves no bytes. -/
theorem still_moves (u : HostUart) : SketchMoves u ⟨u, 0, none⟩ := by
  refine ⟨(List.append_nil _).symm, rfl, ?_, rfl⟩
  exact (UInt32.add_zero _).symm

theorem sketch_moves (u : HostUart) (call : SketchCall) : SketchMoves u (u.sketch call) := by
  cases call with
  | write value =>
    have hsame : u.sketch (.write value) = u.sketch (.writeBuffer (some [value])) := by
      simp only [HostUart.sketch, HostUart.write_eq]
    rw [hsame]
    exact write_moves u [value]
  | writeBuffer buffer =>
    cases buffer with
    | none => exact still_moves u
    | some bytes => exact write_moves u bytes
  | read =>
    cases hitems : u.rx.items with
    | nil =>
      have hnothing : u.sketch .read = ⟨u, 0, none⟩ := by simp [HostUart.sketch, HostUart.read, hitems]
      rw [hnothing]
      exact still_moves u
    | cons value rest =>
      have htaken : u.sketch .read =
          ⟨{ u with rx := { u.rx with items := rest } }, 0, some ⟨.kUartRx, [value]⟩⟩ := by
        simp [HostUart.sketch, HostUart.read, hitems]
      rw [htaken]
      exact ⟨(List.append_nil _).symm, hitems, (UInt32.add_zero _).symm, rfl⟩
  | peek =>
    have hnothing : u.sketch .peek = ⟨u, 0, none⟩ := by
      simp only [HostUart.sketch, HostUart.peek]
      split <;> rfl
    rw [hnothing]
    exact still_moves u
  | flush =>
    by_cases hempty : u.rx.items = []
    · have hreport : (u.sketch .flush).report = none := if_pos hempty
      refine ⟨?_, ?_, (UInt32.add_zero _).symm, rfl⟩
      · rw [hreport]
        exact (List.append_nil _).symm
      · rw [hreport]
        exact hempty
    · have hreport : (u.sketch .flush).report = some ⟨.kUartRxDiscard, u.rx.items⟩ := if_neg hempty
      refine ⟨?_, ?_, (UInt32.add_zero _).symm, rfl⟩
      · rw [hreport]
        exact (List.append_nil _).symm
      · rw [hreport]
        change u.rx.items = (u.rx.items ++ []) ++ []
        rw [List.append_nil, List.append_nil]

/-- A driver's call takes from the front of one queue and adds to the back of the other. -/
structure DriverMoves (u : HostUart) (done : Driven) : Prop where
  tx : u.tx.items = done.drained ++ done.uart.tx.items
  rx : done.uart.rx.items = u.rx.items ++ done.pushed
  txTotal : done.uart.txTotal = u.txTotal
  rxTotal : done.uart.rxTotal = u.rxTotal + UInt32.ofNat done.pushed.length

theorem idle_moves (u : HostUart) : DriverMoves u ⟨u, [], []⟩ := by
  refine ⟨rfl, (List.append_nil _).symm, rfl, ?_⟩
  exact (UInt32.add_zero _).symm

theorem pushRx_moves (u : HostUart) (bytes : List UInt8) :
    DriverMoves u ⟨(u.pushRx (some bytes)).uart, [], bytes.take (u.pushRx (some bytes)).returns⟩ := by
  refine ⟨rfl, BoundedQueue.offer_items u.rx bytes, rfl, ?_⟩
  change u.rxTotal + UInt32.ofNat (u.rx.offer bytes).2 =
    u.rxTotal + UInt32.ofNat (bytes.take (u.rx.offer bytes).2).length
  rw [List.length_take, Nat.min_eq_left (BoundedQueue.offer_count_le u.rx bytes)]

theorem drain_moves (u : HostUart) (size : Nat) :
    DriverMoves u ⟨{ u with tx := (u.tx.drain size).1 }, (u.tx.drain size).2, []⟩ := by
  rw [BoundedQueue.drain_spec]
  refine ⟨(List.take_append_drop size u.tx.items).symm, (List.append_nil _).symm, rfl, ?_⟩
  exact (UInt32.add_zero _).symm

theorem driver_moves (u : HostUart) (call : DriverCall) : DriverMoves u (u.drive call) := by
  cases call with
  | readTx buffer size =>
    by_cases hnothing : (!buffer || size == 0) = true
    · have hidle : u.drive (.readTx buffer size) = ⟨u, [], []⟩ := by
        simp only [HostUart.drive, HostUart.readTx, hnothing, if_true]
      rw [hidle]
      exact idle_moves u
    · have hdrains : u.drive (.readTx buffer size) =
          ⟨{ u with tx := (u.tx.drain size).1 }, (u.tx.drain size).2, []⟩ := by
        simp only [HostUart.drive, HostUart.readTx, hnothing]
        rfl
      rw [hdrains]
      exact drain_moves u size
  | readTxString => exact drain_moves u u.tx.items.length
  | pushRx buffer =>
    cases buffer with
    | none => exact idle_moves u
    | some bytes => exact pushRx_moves u bytes
  | pushRxText text =>
    cases text with
    | none => exact idle_moves u
    | some bytes => exact pushRx_moves u bytes
  | pushRxByte value => exact pushRx_moves u [value]

/-- Every byte is once in the trace, what is under report included, and once on the
    other side. -/
structure Conserved (s : Conversation) : Prop where
  tx : txPayloads (s.trace ++ s.reporting.toList) = s.drained ++ s.uart.tx.items
  rx : s.pushed = rxPayloads (s.trace ++ s.reporting.toList) ++ s.uart.rx.items
  txTotal : s.uart.txTotal = UInt32.ofNat s.written
  rxTotal : s.uart.rxTotal = UInt32.ofNat s.pushed.length

theorem conserved_start (hfresh : Fresh u) : Conserved (.start u) := by
  refine ⟨?_, ?_, hfresh.txTotal, hfresh.rxTotal⟩
  · change [] = [] ++ u.tx.items
    rw [hfresh.tx, List.append_nil]
  · change [] = [] ++ u.rx.items
    rw [hfresh.rx, List.append_nil]

variable {s s' : Conversation}

theorem conserved_sketch {call : SketchCall} (h : Conserved s) (hstep : s.step (.sketch call) = some s') :
    Conserved s' := by
  cases hreporting : s.reporting with
  | some activity => simp [Conversation.step, hreporting] at hstep
  | none =>
    have hmoves := sketch_moves s.uart call
    have htx : txPayloads s.trace = s.drained ++ s.uart.tx.items := by
      simpa [hreporting] using h.tx
    have hrx : s.pushed = rxPayloads s.trace ++ s.uart.rx.items := by
      simpa [hreporting] using h.rx
    simp only [Conversation.step, hreporting, Option.some.injEq] at hstep
    subst hstep
    refine ⟨?_, ?_, ?_, ?_⟩
    · change txPayloads (s.trace ++ (s.uart.sketch call).report.toList) =
        s.drained ++ (s.uart.sketch call).uart.tx.items
      rw [txPayloads_append, htx, hmoves.tx, List.append_assoc]
    · change s.pushed = rxPayloads (s.trace ++ (s.uart.sketch call).report.toList) ++
        (s.uart.sketch call).uart.rx.items
      rw [rxPayloads_append, hrx, hmoves.rx, List.append_assoc]
    · change (s.uart.sketch call).uart.txTotal = UInt32.ofNat (s.written + (s.uart.sketch call).accepted)
      rw [hmoves.txTotal, h.txTotal, UInt32.ofNat_add]
    · exact hmoves.rxTotal.trans h.rxTotal

theorem conserved_report (h : Conserved s) (hstep : s.step .report = some s') : Conserved s' := by
  obtain ⟨activity, hreporting, rfl⟩ := Option.map_eq_some_iff.mp hstep
  have htx := h.tx
  have hrx := h.rx
  rw [hreporting] at htx hrx
  refine ⟨?_, ?_, h.txTotal, h.rxTotal⟩
  · change txPayloads (s.trace ++ [activity] ++ []) = s.drained ++ s.uart.tx.items
    rw [List.append_nil]
    exact htx
  · change s.pushed = rxPayloads (s.trace ++ [activity] ++ []) ++ s.uart.rx.items
    rw [List.append_nil]
    exact hrx

theorem conserved_driver {call : DriverCall} (h : Conserved s) (hstep : s.step (.driver call) = some s') :
    Conserved s' := by
  have hmoves := driver_moves s.uart call
  simp only [Conversation.step, Option.some.injEq] at hstep
  subst hstep
  refine ⟨?_, ?_, ?_, ?_⟩
  · change txPayloads (s.trace ++ s.reporting.toList) =
      s.drained ++ (s.uart.drive call).drained ++ (s.uart.drive call).uart.tx.items
    rw [h.tx, hmoves.tx, List.append_assoc]
  · change s.pushed ++ (s.uart.drive call).pushed =
      rxPayloads (s.trace ++ s.reporting.toList) ++ (s.uart.drive call).uart.rx.items
    rw [hmoves.rx, ← List.append_assoc, ← h.rx]
  · exact hmoves.txTotal.trans h.txTotal
  · change (s.uart.drive call).uart.rxTotal = UInt32.ofNat (s.pushed ++ (s.uart.drive call).pushed).length
    rw [hmoves.rxTotal, h.rxTotal, List.length_append, UInt32.ofNat_add]

theorem conserved_step (e : ConversationEvent) (h : Conserved s) (hstep : s.step e = some s') :
    Conserved s' := by
  cases e with
  | sketch call => exact conserved_sketch h hstep
  | report => exact conserved_report h hstep
  | driver call => exact conserved_driver h hstep

/-- In every state of a conversation over a fresh `HostUart`: with no report under way,
    the bytes of the `kUartTx` reports are those the driver drained and then those in the
    transmit queue, and the bytes the pushes accepted are those of the receive reports
    and then those in the receive queue; with one under way, the same holds with it at
    the end of the trace; and the totals count the accepted bytes, modulo 2^32. -/
theorem conversation_conserved (hfresh : Fresh u) (events : List ConversationEvent) :
    ∀ s ∈ conversationMachine.visited (.start u) events,
      (s.reporting = none →
        txPayloads s.trace = s.drained ++ s.uart.tx.items ∧
          s.pushed = rxPayloads s.trace ++ s.uart.rx.items) ∧
      (∀ activity, s.reporting = some activity →
        txPayloads (s.trace ++ [activity]) = s.drained ++ s.uart.tx.items ∧
          s.pushed = rxPayloads (s.trace ++ [activity]) ++ s.uart.rx.items) ∧
      s.uart.txTotal = UInt32.ofNat s.written ∧ s.uart.rxTotal = UInt32.ofNat s.pushed.length := by
  have hconserved : ∀ s ∈ conversationMachine.visited (.start u) events, Conserved s := by
    refine EventMachine.visited_invariant ?_ (conserved_start hfresh)
    intro s e s' h hstep
    exact conserved_step e h hstep
  intro s hs
  have h := hconserved s hs
  refine ⟨?_, ?_, h.txTotal, h.rxTotal⟩
  · intro hreporting
    have htx := h.tx
    have hrx := h.rx
    rw [hreporting] at htx hrx
    rw [Option.toList_none, List.append_nil] at htx hrx
    exact ⟨htx, hrx⟩
  · intro activity hreporting
    have htx := h.tx
    have hrx := h.rx
    rw [hreporting] at htx hrx
    exact ⟨htx, hrx⟩

/-- The driver answers from inside the hook, before the write is recorded. -/
theorem conversation_conserved_answer :
    ∃ s ∈ conversationMachine.visited (.start .create)
        [.sketch (.write 65), .driver (.readTx true 8), .driver (.pushRx (some [79, 75])), .report,
          .sketch .read, .report],
      s.uart.rx.items = [75] ∧ txPayloads s.trace = s.drained ++ s.uart.tx.items ∧
        s.pushed = rxPayloads s.trace ++ s.uart.rx.items := by
  refine ⟨?state, ?mem, ?rx, (conversation_conserved fresh_create _ ?state ?mem).1 ?idle⟩
  case mem =>
    refine EventMachine.mem_visited_iff.mpr ⟨_, List.prefix_refl _, ?_⟩
    rfl
  case rx => rfl
  case idle => rfl

end HostArduino.host_uart
