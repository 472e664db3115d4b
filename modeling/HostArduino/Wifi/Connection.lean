import HostArduino.Wifi.WiFiClient
import Mathlib.Logic.Function.Basic

namespace HostArduino.wifi

/-- What the next `send` does: it takes some number of the bytes, has no room for one now, or
    fails. -/
inductive SendAnswer where
  | sent (n : Nat)
  | wouldBlock
  | failed (err : Int32)
  deriving DecidableEq, Repr

/-- A `write` in its loop, with how many bytes of its buffer have been sent. -/
structure Writing where
  buf : List UInt8
  total : Nat
  deriving DecidableEq, Repr

/-- One end of a connection: its client, whose `unread` are the bytes on their way to it; the
    call of `write` it is in, those that have returned with what they returned, and what its
    other calls have returned. Its sketch may have stopped it, and the network may have cut
    it off. -/
structure Endpoint where
  client : WiFiClient
  writing : Option Writing
  writes : List (List UInt8 × Nat)
  log : List ClientResult
  stopped : Bool
  cut : Bool
  deriving DecidableEq, Repr

inductive Side where
  | dialled
  | accepted
  deriving DecidableEq, Repr

def Side.other : Side → Side
  | .dialled => .accepted
  | .accepted => .dialled

@[simp] theorem Side.other_other (s : Side) : s.other.other = s := by
  cases s <;> rfl

@[simp] theorem Side.other_ne (s : Side) : s.other ≠ s := by
  cases s <;> decide

@[simp] theorem Side.ne_other (s : Side) : s ≠ s.other := by
  cases s <;> decide

namespace Endpoint

def connected : Endpoint where
  client := .fresh []
  writing := none
  writes := []
  log := []
  stopped := false
  cut := false

/-- The bytes that this end's calls of `write` report, or will report, as written. -/
def written (e : Endpoint) : List UInt8 :=
  (e.writes.flatMap fun w => w.1.take w.2) ++ e.writing.elim [] fun w => w.buf.take w.total

/-- The bytes that have come off the network for this end. -/
def received (e : Endpoint) : List UInt8 :=
  returned e.log ++ e.client.pending

/-- `write` up to its loop. -/
def write (e : Endpoint) (buf : List UInt8) : Endpoint :=
  if !e.client.sock || buf.length == 0 then { e with writes := e.writes ++ [(buf, 0)] }
  else { e with writing := some { buf, total := 0 } }

/-- The end of a `write`. -/
def endWrite (e : Endpoint) (w : Writing) : Endpoint :=
  { e with writing := none, writes := e.writes ++ [(w.buf, w.total)] }

/-- One pass of the loop of `write`. -/
def sendPass (e : Endpoint) (w : Writing) : SendAnswer → Endpoint
  | .sent 0 => e.endWrite w
  | .sent (n + 1) =>
    let w := { w with total := w.total + (n + 1) }
    if w.total < w.buf.length then { e with writing := some w } else e.endWrite w
  | .wouldBlock => e
  | .failed err => { e.endWrite w with client := { e.client with last_error := err } }

def call (e : Endpoint) (call : ClientCall) : Endpoint :=
  { e with client := (e.client.call call).2, log := e.log ++ [(e.client.call call).1] }

/-- What is still on its way to a socket that is closed gets lost. -/
def stop (e : Endpoint) : Endpoint :=
  { e with client := { e.client.stop with unread := [] }, stopped := true }

/-- Bytes come in. An end that reads no more, or that is cut off, does not get them. -/
def deliver (e : Endpoint) (data : List UInt8) : Endpoint :=
  if e.client.sock && !e.cut then { e with client := { e.client with unread := e.client.unread ++ data } } else e

/-- The connection breaks on its way to this end. -/
def break_ (e : Endpoint) : Endpoint :=
  { e with client := { e.client with unread := [] }, cut := true }

end Endpoint

/-- What an end's sketch does, one `send` of a `write` at a time, or the network. -/
inductive EndEvent where
  | call (call : ClientCall)
  | write (buf : List UInt8)
  | send (answer : SendAnswer)
  | stop
  | break_
  deriving DecidableEq, Repr

def ClientCall.answer : ClientCall → Option RecvAnswer
  | .available _ => none
  | .read answer => some answer
  | .readBuffer _ _ answer => some answer
  | .peek answer => some answer
  | .connected answer => some answer

/-- The stream is at its end, or the connection broken. -/
def RecvAnswer.Ends (answer : RecvAnswer) : Prop :=
  answer = .closed ∨ ∃ err, answer = .failed err

def ClientCall.Ends (call : ClientCall) : Prop :=
  ∃ answer, call.answer = some answer ∧ answer.Ends

/-- The two ends of a connection. -/
structure Connection where
  ends : Side → Endpoint

namespace Connection

def created : Connection where
  ends _ := .connected

def setEnd (c : Connection) (s : Side) (e : Endpoint) : Connection where
  ends := Function.update c.ends s e

/-- An end of the connection is gone. -/
def Broken (c : Connection) : Prop :=
  ∃ s, (c.ends s).stopped = true ∨ (c.ends s).cut = true

instance (c : Connection) : Decidable c.Broken :=
  decidable_of_iff
    (((c.ends .dialled).stopped = true ∨ (c.ends .dialled).cut = true) ∨
      (c.ends .accepted).stopped = true ∨ (c.ends .accepted).cut = true)
    ⟨fun h => h.elim (⟨.dialled, ·⟩) (⟨.accepted, ·⟩), fun ⟨s, hs⟩ =>
      match s with
      | .dialled => .inl hs
      | .accepted => .inr hs⟩

/-- What the network may answer a `recv`: the end of the stream behind all its bytes once the
    other end is closed; and anything where it has cut the connection. -/
def AdmitsRecv (c : Connection) (s : Side) : Option RecvAnswer → Prop
  | some .closed =>
    (c.ends s).client.unread = [] ∧ (c.ends s.other).client.sock = false ∨ (c.ends s).cut = true
  | some (.failed _) => (c.ends s).cut = true
  | _ => True

/-- A `send` takes one byte at least and fails only on a broken connection. -/
def AdmitsSend (c : Connection) (w : Writing) : SendAnswer → Prop
  | .sent n => w.total + n ≤ w.buf.length ∧ (n = 0 → c.Broken)
  | .wouldBlock => True
  | .failed _ => c.Broken

instance (c : Connection) (s : Side) (answer : Option RecvAnswer) : Decidable (c.AdmitsRecv s answer) := by
  unfold AdmitsRecv
  split <;> infer_instance

instance (c : Connection) (w : Writing) (answer : SendAnswer) : Decidable (c.AdmitsSend w answer) := by
  unfold AdmitsSend
  split <;> infer_instance

/-- The bytes a `send` has taken go to the other end. -/
def send (c : Connection) (s : Side) (w : Writing) (answer : SendAnswer) : Connection :=
  let sent := (c.setEnd s ((c.ends s).sendPass w answer))
  match answer with
  | .sent n => sent.setEnd s.other ((sent.ends s.other).deliver ((w.buf.drop w.total).take n))
  | _ => sent

/-- Each end's sketch is one thread: while it writes, it does nothing else. -/
def step (c : Connection) (e : Side × EndEvent) : Option Connection :=
  let here := c.ends e.1
  match e.2, here.writing with
  | .break_, _ => some (c.setEnd e.1 here.break_)
  | .send answer, some w => if c.AdmitsSend w answer then some (c.send e.1 w answer) else none
  | .call call, none => if c.AdmitsRecv e.1 call.answer then some (c.setEnd e.1 (here.call call)) else none
  | .write buf, none => some (c.setEnd e.1 (here.write buf))
  | .stop, none => some (c.setEnd e.1 here.stop)
  | _, _ => none

def machine : Lib.EventMachine Connection (Side × EndEvent) where
  step := step

end Connection

namespace Endpoint

variable {e : Endpoint} {w : Writing}

/-- A `write` that has sent nothing yet. -/
theorem write_frame (hidle : e.writing = none) (buf : List UInt8) :
    (e.write buf).written = e.written ∧ (e.write buf).received = e.received ∧
      (e.write buf).client = e.client ∧ (e.write buf).stopped = e.stopped ∧ (e.write buf).cut = e.cut := by
  unfold write
  split
  · simp [written, received, hidle]
  · simp [written, received, hidle]

/-- One pass of a `write` sends what `send` has taken. -/
theorem written_sendPass (hwriting : e.writing = some w) (n : Nat) :
    (e.sendPass w (.sent n)).written = e.written ++ (w.buf.drop w.total).take n := by
  cases n with
  | zero => simp [sendPass, endWrite, written, hwriting]
  | succ n =>
    simp only [sendPass]
    split <;> simp [endWrite, written, hwriting, List.take_add]

theorem written_sendPass_failed (hwriting : e.writing = some w) (err : Int32) :
    (e.sendPass w (.failed err)).written = e.written := by
  simp [sendPass, endWrite, written, hwriting]

theorem deliver_frame (e : Endpoint) (data : List UInt8) :
    (e.deliver data).stopped = e.stopped ∧ (e.deliver data).cut = e.cut ∧
      (e.deliver data).written = e.written ∧ (e.deliver data).client.sock = e.client.sock := by
  unfold deliver
  split <;> exact ⟨rfl, rfl, rfl, rfl⟩

/-- A pass of a `write` looks at nothing that comes in. -/
theorem sendPass_frame (e : Endpoint) (w : Writing) (answer : SendAnswer) :
    (e.sendPass w answer).received = e.received ∧
      (e.sendPass w answer).client.sock = e.client.sock ∧
      (e.sendPass w answer).client.unread = e.client.unread ∧
      (e.sendPass w answer).client.peek_byte = e.client.peek_byte ∧
      (e.sendPass w answer).stopped = e.stopped ∧ (e.sendPass w answer).cut = e.cut := by
  unfold sendPass
  split
  · exact ⟨rfl, rfl, rfl, rfl, rfl, rfl⟩
  · dsimp only
    split
    · exact ⟨rfl, rfl, rfl, rfl, rfl, rfl⟩
    · exact ⟨rfl, rfl, rfl, rfl, rfl, rfl⟩
  · exact ⟨rfl, rfl, rfl, rfl, rfl, rfl⟩
  · exact ⟨rfl, rfl, rfl, rfl, rfl, rfl⟩

theorem received_call (e : Endpoint) (call : ClientCall) : (e.call call).received = e.received := by
  have hpending := call_pending e.client call
  simp only [received, Endpoint.call, returned_append, returned_cons, returned_nil, List.append_nil,
    List.append_assoc, hpending]

end Endpoint

/-- What came of a `recv` that neither had bytes nor would block was its answer. -/
theorem recv_ends (c : WiFiClient) (answer : RecvAnswer) (len : Nat) :
    (c.recv answer len).2.sock = c.sock ∧
      (((c.recv answer len).1 = .closed ∨ ∃ err, (c.recv answer len).1 = .failed err) →
        (c.recv answer len).2.unread = c.unread ∧ answer.Ends) := by
  cases answer with
  | bytes n =>
    simp only [WiFiClient.recv]
    split <;> simp
  | wouldBlock => simp [WiFiClient.recv]
  | closed => simp [WiFiClient.recv, RecvAnswer.Ends]
  | failed err => simp [WiFiClient.recv, RecvAnswer.Ends]

/-- A call closes the socket only because `recv` says so, and takes nothing from it then. -/
theorem call_sock (c : WiFiClient) (call : ClientCall) :
    (c.call call).2.sock = c.sock ∨
      (c.call call).2.sock = false ∧ (c.call call).2.unread = c.unread ∧ call.Ends := by
  cases call with
  | available n => exact Or.inl rfl
  | read answer =>
    have hrecv := recv_ends c answer 1
    simp only [WiFiClient.call, WiFiClient.read, ClientCall.Ends, ClientCall.answer, Option.some.injEq,
      exists_eq_left']
    split
    · exact Or.inl rfl
    · split
      · exact Or.inl rfl
      · rcases hout : WiFiClient.recv c answer 1 with ⟨result, after⟩
        rw [hout] at hrecv
        cases result with
        | bytes data => exact Or.inl hrecv.1
        | wouldBlock => exact Or.inl hrecv.1
        | closed => exact Or.inr ⟨rfl, hrecv.2 (Or.inl rfl)⟩
        | failed err => exact Or.inr ⟨rfl, hrecv.2 (Or.inr ⟨err, rfl⟩)⟩
  | readBuffer buf size answer =>
    have hrecv := recv_ends { c with peek_byte := none } answer (size - c.peek_byte.toList.length)
    simp only [WiFiClient.call, WiFiClient.readBuffer, ClientCall.Ends, ClientCall.answer, Option.some.injEq,
      exists_eq_left']
    split
    · exact Or.inl rfl
    · split
      · exact Or.inl rfl
      · rcases hout : WiFiClient.recv { c with peek_byte := none } answer (size - c.peek_byte.toList.length)
          with ⟨result, after⟩
        rw [hout] at hrecv
        cases result with
        | bytes data => exact Or.inl hrecv.1
        | wouldBlock => exact Or.inl hrecv.1
        | closed => exact Or.inr ⟨rfl, hrecv.2 (Or.inl rfl)⟩
        | failed err => exact Or.inr ⟨rfl, hrecv.2 (Or.inr ⟨err, rfl⟩)⟩
  | peek answer =>
    have hrecv := recv_ends c answer 1
    simp only [WiFiClient.call, WiFiClient.peek, ClientCall.Ends, ClientCall.answer, Option.some.injEq,
      exists_eq_left']
    split
    · exact Or.inl rfl
    · split
      · exact Or.inl rfl
      · rcases hout : WiFiClient.recv c answer 1 with ⟨result, after⟩
        rw [hout] at hrecv
        cases result with
        | bytes data => exact Or.inl hrecv.1
        | wouldBlock => exact Or.inl hrecv.1
        | closed => exact Or.inr ⟨rfl, hrecv.2 (Or.inl rfl)⟩
        | failed err => exact Or.inl hrecv.1
  | connected answer =>
    have hrecv := recv_ends c answer 1
    simp only [WiFiClient.call, WiFiClient.connected, ClientCall.Ends, ClientCall.answer, Option.some.injEq,
      exists_eq_left']
    split
    · exact Or.inl rfl
    · split
      · exact Or.inl rfl
      · rcases hout : WiFiClient.recv c answer 1 with ⟨result, after⟩
        rw [hout] at hrecv
        cases result with
        | bytes data => exact Or.inl hrecv.1
        | wouldBlock => exact Or.inl hrecv.1
        | closed => exact Or.inr ⟨rfl, hrecv.2 (Or.inl rfl)⟩
        | failed err => exact Or.inr ⟨rfl, hrecv.2 (Or.inr ⟨err, rfl⟩)⟩

theorem call_closed {c : WiFiClient} (hsock : c.sock = false) (call : ClientCall) :
    (c.call call).2.unread = c.unread := by
  cases call with
  | available n => rfl
  | read answer => simp only [WiFiClient.call, WiFiClient.read, hsock]; split <;> rfl
  | readBuffer buf size answer => simp only [WiFiClient.call, WiFiClient.readBuffer, hsock]; split <;> simp
  | peek answer => simp only [WiFiClient.call, WiFiClient.peek, hsock]; split <;> rfl
  | connected answer => simp only [WiFiClient.call, WiFiClient.connected, hsock]; split <;> rfl

/-- What the one end has received are the first bytes of what the other has written, and all
    of them while it has neither been cut off nor stopped. If it has closed its socket still,
    it has come to the end of the stream. -/
structure Link (reader writer : Endpoint) : Prop where
  received : reader.received <+: writer.written
  complete : reader.cut = false → reader.stopped = false → reader.received = writer.written
  closed : reader.client.sock = false → reader.cut = false → reader.stopped = false →
    reader.client.unread = [] ∧ writer.client.sock = false

/-- An end writes whole buffers, unless an end is gone. -/
structure Endpoint.Fine (e : Endpoint) (gone : Prop) : Prop where
  stopped : e.stopped = true → e.client.sock = false
  closed : e.client.sock = false → gone
  writing : ∀ w, e.writing = some w → e.client.sock = true ∧ w.total < w.buf.length
  writes : ∀ w ∈ e.writes, w.2 ≤ w.1.length ∧ (w.2 < w.1.length → gone)

theorem Endpoint.Fine.mono {e : Endpoint} {gone gone' : Prop} (h : e.Fine gone) (himp : gone → gone') :
    e.Fine gone' where
  stopped := h.stopped
  closed hsock := himp (h.closed hsock)
  writing := h.writing
  writes w hw := ⟨(h.writes w hw).1, fun hshort => himp ((h.writes w hw).2 hshort)⟩

namespace Link

variable {e o : Endpoint}

theorem break_ (h : Link e o) : Link e.break_ o where
  received := by
    have hpre : e.break_.received <+: e.received := by
      simp only [Endpoint.received, Endpoint.break_, WiFiClient.pending, List.append_nil]
      exact (List.prefix_append_right_inj _).mpr (List.prefix_append _ _)
    exact hpre.trans h.received
  complete hcut := by cases hcut
  closed _ hcut := by cases hcut

theorem stop (h : Link e o) : Link e.stop o where
  received := by
    have hpre : e.stop.received <+: e.received := by
      simp only [Endpoint.received, Endpoint.stop, WiFiClient.stop, WiFiClient.pending, Option.toList_none,
        List.append_nil]
      exact List.prefix_append _ _
    exact hpre.trans h.received
  complete _ hstopped := by cases hstopped
  closed _ _ hstopped := by cases hstopped

/-- What the writer does besides writing concerns its reader only if it closes its socket. -/
theorem writer_congr {o' : Endpoint} (h : Link e o) (hwritten : o'.written = o.written)
    (hsock : o.client.sock = false → o'.client.sock = false) : Link e o' where
  received := hwritten ▸ h.received
  complete hcut hstopped := hwritten ▸ h.complete hcut hstopped
  closed hclosed hcut hstopped := (h.closed hclosed hcut hstopped).imp id hsock

theorem reader_congr {e' : Endpoint} (h : Link e o) (hreceived : e'.received = e.received)
    (hsock : e'.client.sock = e.client.sock) (hunread : e'.client.unread = e.client.unread)
    (hstopped : e'.stopped = e.stopped) (hcut : e'.cut = e.cut) : Link e' o where
  received := hreceived ▸ h.received
  complete := by rw [hreceived, hstopped, hcut]; exact h.complete
  closed := by rw [hsock, hunread, hstopped, hcut]; exact h.closed

theorem call (h : Link e o) {call : ClientCall}
    (hends : call.Ends → e.client.unread = [] ∧ o.client.sock = false ∨ e.cut = true) : Link (e.call call) o where
  received := by rw [Endpoint.received_call]; exact h.received
  complete := by rw [Endpoint.received_call]; exact h.complete
  closed hclosed hcut hstopped := by
    obtain hsame | ⟨-, hunread, hcall⟩ := call_sock e.client call
    · have hsock : e.client.sock = false := hsame.symm.trans hclosed
      obtain ⟨hnil, hother⟩ := h.closed hsock hcut hstopped
      exact ⟨(call_closed hsock call).trans hnil, hother⟩
    · obtain ⟨hnil, hother⟩ | hbroken := hends hcall
      · exact ⟨hunread.trans hnil, hother⟩
      · exact absurd (hbroken.symm.trans hcut) (by decide)

/-- Sent bytes get to the other end, or it is not there to read them. -/
theorem deliver {w : Endpoint} {data : List UInt8} (h : Link e o) (hopen : o.client.sock = true)
    (hstopped : e.stopped = true → e.client.sock = false) (hwritten : w.written = o.written ++ data) :
    Link (e.deliver data) w := by
  by_cases hgets : (e.client.sock && !e.cut) = true
  · obtain ⟨hsock, hcut⟩ := Bool.and_eq_true_iff.mp hgets
    have hreceived : (e.deliver data).received = e.received ++ data := by
      simp only [Endpoint.deliver, if_pos hgets, Endpoint.received, WiFiClient.pending, List.append_assoc]
    have hall : (e.deliver data).received = w.written := by
      rw [hreceived, hwritten, h.complete (by simpa using hcut) (by simpa [hsock] using hstopped)]
    refine {
      received := hall ▸ List.prefix_refl _
      complete := fun _ _ => hall
      closed := fun hclosed => ?_ }
    rw [Endpoint.deliver, if_pos hgets] at hclosed
    exact absurd (hsock.symm.trans hclosed) (by decide)
  · have hsame : e.deliver data = e := if_neg hgets
    -- An end that gets nothing, though neither cut off nor stopped, knows the writer is closed.
    have hgone : e.cut = false → e.stopped = false → False := fun hcut hnot => by
      have hsock : e.client.sock = false := by simpa [hcut] using hgets
      exact absurd (hopen.symm.trans (h.closed hsock hcut hnot).2) (by decide)
    rw [hsame]
    exact {
      received := hwritten ▸ h.received.trans (List.prefix_append _ _)
      complete := fun hcut hnot => (hgone hcut hnot).elim
      closed := fun _ hcut hnot => (hgone hcut hnot).elim }

end Link

namespace Endpoint.Fine

variable {e : Endpoint} {gone : Prop}

/-- One more `write` is done. -/
theorem forall_writes (h : e.Fine gone) {buf : List UInt8} {n : Nat} (hle : n ≤ buf.length)
    (hshort : n < buf.length → gone) :
    ∀ w ∈ e.writes ++ [(buf, n)], w.2 ≤ w.1.length ∧ (w.2 < w.1.length → gone) :=
  List.forall_mem_append.mpr ⟨h.writes, List.forall_mem_singleton.mpr ⟨hle, hshort⟩⟩

theorem write (h : e.Fine gone) (buf : List UInt8) : (e.write buf).Fine gone := by
  unfold Endpoint.write
  split
  · rename_i hrefused
    refine ⟨h.stopped, h.closed, h.writing, h.forall_writes (Nat.zero_le _) fun hpos => ?_⟩
    have hsock : e.client.sock = false := by simpa [Nat.ne_of_gt hpos] using hrefused
    exact h.closed hsock
  · rename_i hopen
    refine ⟨h.stopped, h.closed, ?_, h.writes⟩
    rintro w ⟨⟩
    simpa [Nat.pos_iff_ne_zero] using hopen

theorem sendPass {c : Connection} {w : Writing} (h : e.Fine gone) (hwriting : e.writing = some w)
    {answer : SendAnswer} (hadmits : c.AdmitsSend w answer) (hgone : c.Broken → gone) :
    (e.sendPass w answer).Fine gone := by
  obtain ⟨hopen, hmore⟩ := h.writing w hwriting
  match answer with
  | .wouldBlock => exact h
  | .failed err =>
    exact ⟨h.stopped, h.closed, by rintro _ ⟨⟩, h.forall_writes (Nat.le_of_lt hmore) fun _ => hgone hadmits⟩
  | .sent 0 =>
    exact ⟨h.stopped, h.closed, by rintro _ ⟨⟩, h.forall_writes (Nat.le_of_lt hmore) fun _ => hgone (hadmits.2 rfl)⟩
  | .sent (n + 1) =>
    simp only [Endpoint.sendPass]
    split
    · rename_i hgoes
      exact ⟨h.stopped, h.closed, by rintro _ ⟨⟩; exact ⟨hopen, hgoes⟩, h.writes⟩
    · rename_i hdone
      exact ⟨h.stopped, h.closed, by rintro _ ⟨⟩, h.forall_writes hadmits.1 fun hshort => absurd hshort hdone⟩

theorem call (h : e.Fine gone) (hidle : e.writing = none) {call : ClientCall} (hends : call.Ends → gone) :
    (e.call call).Fine gone where
  stopped hstopped := by
    obtain hsame | ⟨hsock, -⟩ := call_sock e.client call
    · exact hsame.trans (h.stopped hstopped)
    · exact hsock
  closed hclosed := by
    obtain hsame | ⟨-, -, hcall⟩ := call_sock e.client call
    · exact h.closed (hsame.symm.trans hclosed)
    · exact hends hcall
  writing _ hw := absurd (hidle.symm.trans hw) (by simp)
  writes := h.writes

theorem deliver (h : e.Fine gone) (data : List UInt8) : (e.deliver data).Fine gone := by
  unfold Endpoint.deliver
  split
  · exact ⟨h.stopped, h.closed, h.writing, h.writes⟩
  · exact h

end Endpoint.Fine

namespace Connection

structure Sound (c : Connection) : Prop where
  link : ∀ s, Link (c.ends s) (c.ends s.other)
  fine : ∀ s, (c.ends s).Fine c.Broken

@[simp] theorem setEnd_same (c : Connection) (s : Side) (e : Endpoint) : (c.setEnd s e).ends s = e := by
  simp only [setEnd, Function.update_self]

@[simp] theorem setEnd_other (c : Connection) (s : Side) (e : Endpoint) :
    (c.setEnd s e).ends s.other = c.ends s.other := by
  simp only [setEnd, Function.update_of_ne s.other_ne]

@[simp] theorem setEnd_of_other (c : Connection) (s : Side) (e : Endpoint) :
    (c.setEnd s.other e).ends s = c.ends s := by
  simp only [setEnd, Function.update_of_ne s.ne_other]

theorem forall_side {P : Side → Prop} (s : Side) (hs : P s) (hother : P s.other) : ∀ t, P t := by
  intro t
  cases s <;> cases t <;> assumption

/-- An end that is gone stays so. -/
theorem Broken.setEnd {c : Connection} {s : Side} {e : Endpoint}
    (hgone : (c.ends s).stopped = true ∨ (c.ends s).cut = true → e.stopped = true ∨ e.cut = true)
    (h : c.Broken) : (c.setEnd s e).Broken := by
  obtain ⟨t, ht⟩ := h
  by_cases hside : t = s
  · subst hside
    exact ⟨t, by rw [setEnd_same]; exact hgone ht⟩
  · exact ⟨t, by simpa only [Connection.setEnd, Function.update_of_ne hside] using ht⟩

theorem Sound.setEnd {c : Connection} {s : Side} {e : Endpoint} (h : c.Sound)
    (hgone : (c.ends s).stopped = true ∨ (c.ends s).cut = true → e.stopped = true ∨ e.cut = true)
    (hreads : Link e (c.ends s.other)) (hread : Link (c.ends s.other) e)
    (hfine : e.Fine (c.setEnd s e).Broken) : (c.setEnd s e).Sound where
  link := by
    refine forall_side s ?_ ?_
    · rwa [setEnd_same, setEnd_other]
    · rwa [setEnd_other, Side.other_other, setEnd_same]
  fine := by
    refine forall_side s ?_ ?_
    · rwa [setEnd_same]
    · rw [setEnd_other]
      exact (h.fine s.other).mono (Broken.setEnd hgone)

/-- A call is told that the stream is at its end where it is, or where the connection broke. -/
theorem AdmitsRecv.ends {c : Connection} {s : Side} {call : ClientCall} (h : c.AdmitsRecv s call.answer)
    (hends : call.Ends) :
    (c.ends s).client.unread = [] ∧ (c.ends s.other).client.sock = false ∨ (c.ends s).cut = true := by
  obtain ⟨answer, hanswer, rfl | ⟨err, rfl⟩⟩ := hends
  · rwa [hanswer] at h
  · rw [hanswer] at h
    exact Or.inr h

/-- A `send` and what comes of it at the other end. -/
theorem Sound.send {c : Connection} (h : c.Sound) {s : Side} {w : Writing} (hwriting : (c.ends s).writing = some w)
    {answer : SendAnswer} (hadmits : c.AdmitsSend w answer) : (c.send s w answer).Sound := by
  obtain ⟨hreceived, hsock, hunread, -, hstopped, hcut⟩ := (c.ends s).sendPass_frame w answer
  have hgone : (c.ends s).stopped = true ∨ (c.ends s).cut = true →
      ((c.ends s).sendPass w answer).stopped = true ∨ ((c.ends s).sendPass w answer).cut = true := by
    rw [hstopped, hcut]
    exact id
  have hreads := (h.link s).reader_congr hreceived hsock hunread hstopped hcut
  have hfine : ((c.ends s).sendPass w answer).Fine c.Broken := (h.fine s).sendPass hwriting hadmits id
  have hread := h.link s.other
  rw [Side.other_other] at hread
  cases answer with
  | sent n =>
    have hwritten := Endpoint.written_sendPass hwriting n
    have hopen := ((h.fine s).writing w hwriting).1
    have hother := h.fine s.other
    obtain ⟨hstopped', hcut', hwritten', hsock'⟩ := (c.ends s.other).deliver_frame ((w.buf.drop w.total).take n)
    have hkept : c.Broken → (c.send s w (.sent n)).Broken := fun hbroken => by
      refine Broken.setEnd ?_ (Broken.setEnd hgone hbroken)
      rw [setEnd_other, hstopped', hcut']
      exact id
    refine ⟨forall_side s ?_ ?_, forall_side s ?_ ?_⟩
    · simp only [Connection.send, setEnd_of_other, setEnd_same, setEnd_other]
      exact hreads.writer_congr hwritten' (by rw [hsock']; exact id)
    · simp only [Connection.send, setEnd_of_other, setEnd_same, setEnd_other, Side.other_other]
      exact hread.deliver hopen hother.stopped hwritten
    · have hends : (c.send s w (.sent n)).ends s = (c.ends s).sendPass w (.sent n) := by
        simp only [Connection.send, setEnd_of_other, setEnd_same]
      rw [hends]
      exact hfine.mono hkept
    · have hends : (c.send s w (.sent n)).ends s.other =
          (c.ends s.other).deliver ((w.buf.drop w.total).take n) := by
        simp only [Connection.send, setEnd_same, setEnd_other]
      rw [hends]
      exact (hother.deliver _).mono hkept
  | wouldBlock =>
    exact h.setEnd hgone hreads (hread.writer_congr rfl id) (hfine.mono (Broken.setEnd hgone))
  | failed err =>
    have hwritten := Endpoint.written_sendPass_failed hwriting err
    exact h.setEnd hgone hreads (hread.writer_congr hwritten id) (hfine.mono (Broken.setEnd hgone))

/-- What one event keeps. -/
theorem Sound.step {c c' : Connection} (h : c.Sound) {e : Side × EndEvent} (hstep : c.step e = some c') :
    c'.Sound := by
  obtain ⟨s, e⟩ := e
  have hread := h.link s.other
  rw [Side.other_other] at hread
  simp only [Connection.step] at hstep
  split at hstep
  · cases hstep
    refine h.setEnd (fun _ => Or.inr rfl) (h.link s).break_ (hread.writer_congr rfl id) ?_
    have hfine := h.fine s
    exact ⟨hfine.stopped, fun _ => ⟨s, by simp [Endpoint.break_]⟩, hfine.writing,
      fun w hw => ⟨(hfine.writes w hw).1, fun _ => ⟨s, by simp [Endpoint.break_]⟩⟩⟩
  · rename_i hwriting
    split at hstep
    · rename_i hadmits
      cases hstep
      exact h.send hwriting hadmits
    · cases hstep
  · rename_i call hidle
    split at hstep
    · rename_i hadmits
      cases hstep
      have hbroken : call.Ends → c.Broken := fun hends => by
        obtain ⟨-, hother⟩ | hcut := hadmits.ends hends
        · exact (h.fine s.other).closed hother
        · exact ⟨s, Or.inr hcut⟩
      refine h.setEnd id ((h.link s).call hadmits.ends) (hread.writer_congr rfl fun hsock => ?_) ?_
      · obtain hsame | ⟨hclosed, -⟩ := call_sock (c.ends s).client call
        · exact hsame.trans hsock
        · exact hclosed
      · exact ((h.fine s).call hidle hbroken).mono (Broken.setEnd id)
    · cases hstep
  · rename_i buf hidle
    cases hstep
    obtain ⟨hwritten, hreceived, hclient, hstopped, hcut⟩ := Endpoint.write_frame hidle buf
    have hgone : (c.ends s).stopped = true ∨ (c.ends s).cut = true →
        ((c.ends s).write buf).stopped = true ∨ ((c.ends s).write buf).cut = true := by
      rw [hstopped, hcut]
      exact id
    refine h.setEnd hgone ?_ ?_ (((h.fine s).write buf).mono (Broken.setEnd hgone))
    · exact (h.link s).reader_congr hreceived (by rw [hclient]) (by rw [hclient]) hstopped hcut
    · exact hread.writer_congr hwritten (by rw [hclient]; exact id)
  · rename_i hidle
    cases hstep
    refine h.setEnd (fun _ => Or.inl rfl) (h.link s).stop (hread.writer_congr rfl fun _ => rfl) ?_
    have hfine := h.fine s
    have hbroken : (c.setEnd s (c.ends s).stop).Broken := ⟨s, by simp [Endpoint.stop]⟩
    exact ⟨fun _ => rfl, fun _ => hbroken, fun w hw => absurd (hidle.symm.trans hw) (by simp),
      fun w hw => ⟨(hfine.writes w hw).1, fun _ => hbroken⟩⟩
  · cases hstep

theorem sound_created : created.Sound where
  link _ := ⟨List.prefix_refl _, fun _ _ => rfl, nofun⟩
  fine _ := ⟨nofun, nofun, nofun, nofun⟩

end Connection

/-- In any run of the two ends, however their bytes are cut up on the way: what an end has
    read, and the byte it has peeked at, are the first bytes that the other's calls of `write`
    report as written. None is lost before the end is cut off or stops; if it finds its socket
    closed before that, it has them all, and the other end is closed. As long as no end
    has stopped or been cut off, each `write` that returns has written its whole buffer. -/
theorem tcp_stream (es : List (Side × EndEvent)) :
    ∀ c ∈ Connection.machine.visited .created es, ∀ s,
      returned (c.ends s).log ++ (c.ends s).client.peek_byte.toList <+: (c.ends s.other).written ∧
      ((c.ends s).cut = false → (c.ends s).stopped = false →
        returned (c.ends s).log ++ (c.ends s).client.peek_byte.toList ++ (c.ends s).client.unread =
            (c.ends s.other).written ∧
          ((c.ends s).client.sock = false →
            returned (c.ends s).log ++ (c.ends s).client.peek_byte.toList = (c.ends s.other).written ∧
              (c.ends s.other).client.sock = false)) ∧
      ∀ w ∈ (c.ends s).writes, w.2 ≤ w.1.length ∧ (¬c.Broken → w.2 = w.1.length) := by
  have hsound : ∀ c ∈ Connection.machine.visited .created es, c.Sound :=
    Lib.EventMachine.visited_invariant (fun c e c' h hstep => h.step hstep) Connection.sound_created
  intro c hc s
  have hlink := (hsound c hc).link s
  have hreceived : (c.ends s).received =
      returned (c.ends s).log ++ (c.ends s).client.peek_byte.toList ++ (c.ends s).client.unread := by
    rw [Endpoint.received, WiFiClient.pending, List.append_assoc]
  refine ⟨?_, fun hcut hstopped => ?_, fun w hw => ?_⟩
  · have hpre := hlink.received
    rw [hreceived] at hpre
    exact (List.prefix_append _ _).trans hpre
  · have hall := hlink.complete hcut hstopped
    rw [hreceived] at hall
    refine ⟨hall, fun hsock => ?_⟩
    obtain ⟨hunread, hother⟩ := hlink.closed hsock hcut hstopped
    rw [hunread, List.append_nil] at hall
    exact ⟨hall, hother⟩
  · obtain ⟨hle, hshort⟩ := ((hsound c hc).fine s).writes w hw
    exact ⟨hle, fun hwhole => Nat.le_antisymm hle (Nat.le_of_not_lt fun hlt => hwhole (hshort hlt))⟩

/-- Two bytes come in one by one, and the end of the stream behind them. -/
def twoBytes : List (Side × EndEvent) :=
  [(.dialled, .write [72, 105]), (.dialled, .send (.sent 1)), (.accepted, .call (.peek (.bytes 1))),
    (.dialled, .send (.sent 1)), (.dialled, .stop), (.accepted, .call (.readBuffer true 8 (.bytes 5))),
    (.accepted, .call (.connected .closed))]

theorem tcp_stream_end :
    ∃ c ∈ Connection.machine.visited .created twoBytes,
      returned (c.ends .accepted).log = [72, 105] ∧
        returned (c.ends .accepted).log ++ (c.ends .accepted).client.peek_byte.toList =
          (c.ends .dialled).written := by
  refine ⟨?state, ?mem, ?returned, (((tcp_stream twoBytes ?state ?mem .accepted).2.1 ?cut ?stopped).2 ?sock).1⟩
  case mem =>
    refine Lib.EventMachine.mem_visited_iff.mpr ⟨twoBytes, List.prefix_refl _, ?_⟩
    rfl
  case returned => rfl
  case cut => rfl
  case stopped => rfl
  case sock => rfl

end HostArduino.wifi
