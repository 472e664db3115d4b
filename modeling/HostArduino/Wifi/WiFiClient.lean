import HostArduino.Lib.EventMachine

namespace HostArduino.wifi

/-- What the next `recv` does: it takes some number of the bytes that are there, finds
    none, finds the end of the stream, or fails. -/
inductive RecvAnswer where
  | bytes (n : Nat)
  | wouldBlock
  | closed
  | failed (err : Int32)
  deriving DecidableEq, Repr

/-- What a `recv` gave its caller. -/
inductive Received where
  | bytes (data : List UInt8)
  | wouldBlock
  | closed
  | failed (err : Int32)
  deriving DecidableEq, Repr

/-- The shared state of a client, `sock` saying whether the socket is open, and the bytes
    of the stream that the socket has not handed out yet. -/
structure WiFiClient where
  sock : Bool
  peek_byte : Option UInt8
  last_error : Int32
  unread : List UInt8
  deriving DecidableEq, Repr

def WiFiClient.unconnected : WiFiClient where
  sock := false
  peek_byte := none
  last_error := 0
  unread := []

/-- A client whose connection has just been made. -/
def WiFiClient.fresh (stream : List UInt8) : WiFiClient where
  sock := true
  peek_byte := none
  last_error := 0
  unread := stream

namespace WiFiClient

def recv (c : WiFiClient) (answer : RecvAnswer) (len : Nat) : Received × WiFiClient :=
  match answer with
  | .bytes n =>
    let data := c.unread.take (min n len)
    if data = [] then (.wouldBlock, c)
    else (.bytes data, { c with unread := c.unread.drop (min n len) })
  | .wouldBlock => (.wouldBlock, c)
  | .closed => (.closed, c)
  | .failed err => (.failed err, c)

def close_socket (c : WiFiClient) : WiFiClient :=
  { c with sock := false }

def stop (c : WiFiClient) : WiFiClient :=
  { c.close_socket with peek_byte := none }

/-- `bytes_available` is what the socket reports. -/
def available (c : WiFiClient) (bytes_available : Nat) : Nat :=
  if !c.sock then (if c.peek_byte.isSome then 1 else 0)
  else bytes_available + (if c.peek_byte.isSome then 1 else 0)

/-- A byte, or `none` for -1. -/
def read (c : WiFiClient) (answer : RecvAnswer) : Option UInt8 × WiFiClient :=
  match c.peek_byte with
  | some b => (some b, { c with peek_byte := none })
  | none =>
    if !c.sock then (none, c)
    else
      match c.recv answer 1 with
      | (.bytes data, c) => (data.head?, c)
      | (.closed, c) => (none, c.close_socket)
      | (.wouldBlock, c) => (none, c)
      | (.failed err, c) => (none, { c with last_error := err }.close_socket)

/-- The bytes put into the buffer, whose number it returns; `buf` says whether the caller
    passed one. -/
def readBuffer (c : WiFiClient) (buf : Bool) (size : Nat) (answer : RecvAnswer) :
    List UInt8 × WiFiClient :=
  if !buf || size == 0 then ([], c)
  else
    let out := c.peek_byte.toList
    let c := { c with peek_byte := none }
    if size ≤ out.length || !c.sock then (out, c)
    else
      match c.recv answer (size - out.length) with
      | (.bytes data, c) => (out ++ data, c)
      | (.closed, c) => (out, c.close_socket)
      | (.wouldBlock, c) => (out, c)
      | (.failed err, c) => (out, { c with last_error := err }.close_socket)

/-- Unlike `read`, it does not look at the error of a failed `recv`. -/
def peek (c : WiFiClient) (answer : RecvAnswer) : Option UInt8 × WiFiClient :=
  match c.peek_byte with
  | some b => (some b, c)
  | none =>
    if !c.sock then (none, c)
    else
      match c.recv answer 1 with
      | (.bytes data, c) => (data.head?, { c with peek_byte := data.head? })
      | (.closed, c) => (none, c.close_socket)
      | (.wouldBlock, c) => (none, c)
      | (.failed _, c) => (none, c)

def connected (c : WiFiClient) (answer : RecvAnswer) : Bool × WiFiClient :=
  match c.peek_byte with
  | some _ => (true, c)
  | none =>
    if !c.sock then (false, c)
    else
      match c.recv answer 1 with
      | (.bytes data, c) => (true, { c with peek_byte := data.head? })
      | (.closed, c) => (false, c.close_socket)
      | (.wouldBlock, c) => (true, c)
      | (.failed err, c) => (false, { c with last_error := err }.close_socket)

end WiFiClient

/-- The calls that look at what has come in, each with what its `recv` would do. -/
inductive ClientCall where
  | available (bytes_available : Nat)
  | read (answer : RecvAnswer)
  | readBuffer (buf : Bool) (size : Nat) (answer : RecvAnswer)
  | peek (answer : RecvAnswer)
  | connected (answer : RecvAnswer)
  deriving DecidableEq, Repr

inductive ClientResult where
  | available (n : Nat)
  | read (c : Option UInt8)
  | readBuffer (data : List UInt8)
  | peek (c : Option UInt8)
  | connected (r : Bool)
  deriving DecidableEq, Repr

def WiFiClient.call (c : WiFiClient) : ClientCall → ClientResult × WiFiClient
  | .available n => (.available (c.available n), c)
  | .read answer => (.read (c.read answer).1, (c.read answer).2)
  | .readBuffer buf size answer =>
    (.readBuffer (c.readBuffer buf size answer).1, (c.readBuffer buf size answer).2)
  | .peek answer => (.peek (c.peek answer).1, (c.peek answer).2)
  | .connected answer => (.connected (c.connected answer).1, (c.connected answer).2)

/-- A client and what its calls have returned so far. -/
structure ClientRun where
  client : WiFiClient
  log : List ClientResult

def ClientRun.step (r : ClientRun) (call : ClientCall) : ClientRun where
  client := (r.client.call call).2
  log := r.log ++ [(r.client.call call).1]

def clientMachine : Lib.EventMachine ClientRun ClientCall :=
  .total ClientRun.step

/-- The bytes that a call's result hands to the sketch for good. -/
@[simp] def ClientResult.bytes : ClientResult → List UInt8
  | .read c => c.toList
  | .readBuffer data => data
  | _ => []

def returned (log : List ClientResult) : List UInt8 :=
  log.flatMap ClientResult.bytes

@[simp] theorem returned_append (log more : List ClientResult) :
    returned (log ++ more) = returned log ++ returned more := by
  simp [returned]

@[simp] theorem returned_cons (result : ClientResult) (log : List ClientResult) :
    returned (result :: log) = result.bytes ++ returned log := by
  simp [returned]

@[simp] theorem returned_nil : returned [] = [] := rfl

/-- The bytes taken off the socket that no read has returned, and those still in it. -/
def WiFiClient.pending (c : WiFiClient) : List UInt8 :=
  c.peek_byte.toList ++ c.unread

/-- All that a `recv` can have done: it has handed out the next bytes of the stream, at
    most as many as asked for, or nothing. -/
theorem recv_cases (c : WiFiClient) (answer : RecvAnswer) (len : Nat) :
    (∃ data, data ≠ [] ∧ data.length ≤ len ∧
      ∃ unread, c.unread = data ++ unread ∧ c.recv answer len = (.bytes data, { c with unread })) ∨
      ∃ nothing, c.recv answer len = (nothing, c) ∧
        (nothing = .wouldBlock ∨ nothing = .closed ∨ ∃ err, nothing = .failed err) := by
  cases answer with
  | bytes n =>
    by_cases hdata : c.unread.take (min n len) = []
    · exact .inr ⟨.wouldBlock, by simp [WiFiClient.recv, hdata], .inl rfl⟩
    · refine .inl ⟨_, hdata, ?_, c.unread.drop (min n len), (List.take_append_drop _ _).symm, ?_⟩
      · simp only [List.length_take]
        omega
      · simp only [WiFiClient.recv, if_neg hdata]
  | wouldBlock => exact .inr ⟨.wouldBlock, rfl, .inl rfl⟩
  | closed => exact .inr ⟨.closed, rfl, .inr (.inl rfl)⟩
  | failed err => exact .inr ⟨.failed err, rfl, .inr (.inr ⟨err, rfl⟩)⟩

/-- A `recv` of one byte. -/
theorem recv_one (c : WiFiClient) (answer : RecvAnswer) :
    (∃ b unread, c.unread = b :: unread ∧ c.recv answer 1 = (.bytes [b], { c with unread })) ∨
      ∃ nothing, c.recv answer 1 = (nothing, c) ∧
        (nothing = .wouldBlock ∨ nothing = .closed ∨ ∃ err, nothing = .failed err) := by
  obtain ⟨data, hne, hlength, unread, hunread, hrecv⟩ | hnothing := recv_cases c answer 1
  · obtain ⟨b, rest, rfl⟩ := List.exists_cons_of_ne_nil hne
    obtain rfl : rest = [] := List.eq_nil_of_length_eq_zero (by simpa using hlength)
    exact .inl ⟨b, unread, hunread, hrecv⟩
  · exact .inr hnothing

theorem read_pending (c : WiFiClient) (answer : RecvAnswer) :
    (c.read answer).1.toList ++ (c.read answer).2.pending = c.pending := by
  unfold WiFiClient.read
  cases hpeek : c.peek_byte with
  | some b => simp [WiFiClient.pending, hpeek]
  | none =>
    by_cases hsock : c.sock = true
    · obtain ⟨b, unread, hunread, hrecv⟩ | ⟨nothing, hrecv, rfl | rfl | ⟨err, rfl⟩⟩ :=
        recv_one c answer
      · simp [hsock, hrecv, WiFiClient.pending, hpeek, hunread]
      · simp [hsock, hrecv, WiFiClient.pending, hpeek]
      · simp [hsock, hrecv, WiFiClient.pending, WiFiClient.close_socket, hpeek]
      · simp [hsock, hrecv, WiFiClient.pending, WiFiClient.close_socket, hpeek]
    · simp [hsock, WiFiClient.pending, hpeek]

theorem readBuffer_pending (c : WiFiClient) (buf : Bool) (size : Nat) (answer : RecvAnswer) :
    (c.readBuffer buf size answer).1 ++ (c.readBuffer buf size answer).2.pending = c.pending := by
  unfold WiFiClient.readBuffer
  by_cases hskip : (!buf || size == 0) = true
  · simp [hskip]
  · rw [if_neg hskip]
    simp only
    by_cases henough : (size ≤ c.peek_byte.toList.length || !c.sock) = true
    · rw [if_pos henough]
      simp [WiFiClient.pending]
    · rw [if_neg henough]
      obtain ⟨data, hne, hlength, unread, hunread, hrecv⟩ | ⟨nothing, hrecv, rfl | rfl | ⟨err, rfl⟩⟩ :=
        recv_cases { c with peek_byte := none } answer (size - c.peek_byte.toList.length)
      · have hunread' : c.unread = data ++ unread := hunread
        rw [hrecv]
        simp [WiFiClient.pending, hunread']
      · simp [hrecv, WiFiClient.pending]
      · simp [hrecv, WiFiClient.pending, WiFiClient.close_socket]
      · simp [hrecv, WiFiClient.pending, WiFiClient.close_socket]

/-- A buffer that holds a byte gets the cached one first, whatever the socket does then. -/
theorem readBuffer_cached {c : WiFiClient} {b : UInt8} (hpeek : c.peek_byte = some b) {size : Nat}
    (hsize : 0 < size) (answer : RecvAnswer) :
    ∃ rest, (c.readBuffer true size answer).1 = b :: rest := by
  unfold WiFiClient.readBuffer
  have hsome : ¬(!true || size == 0) = true := by simpa using Nat.ne_of_gt hsize
  rw [if_neg hsome]
  simp only [hpeek, Option.toList_some]
  split
  · exact ⟨[], rfl⟩
  · split
    · exact ⟨_, rfl⟩
    · exact ⟨[], rfl⟩
    · exact ⟨[], rfl⟩
    · exact ⟨[], rfl⟩

theorem peek_pending (c : WiFiClient) (answer : RecvAnswer) :
    (c.peek answer).2.pending = c.pending ∧
      ∀ b, (c.peek answer).1 = some b → (c.peek answer).2.peek_byte = some b := by
  unfold WiFiClient.peek
  cases hpeek : c.peek_byte with
  | some b => simp [hpeek]
  | none =>
    by_cases hsock : c.sock = true
    · obtain ⟨b, unread, hunread, hrecv⟩ | ⟨nothing, hrecv, rfl | rfl | ⟨err, rfl⟩⟩ :=
        recv_one c answer
      · simp [hsock, hrecv, WiFiClient.pending, hpeek, hunread]
      · simp [hsock, hrecv]
      · simp [hsock, hrecv, WiFiClient.pending, WiFiClient.close_socket]
      · simp [hsock, hrecv]
    · simp [hsock]

theorem connected_pending (c : WiFiClient) (answer : RecvAnswer) :
    (c.connected answer).2.pending = c.pending := by
  unfold WiFiClient.connected
  cases hpeek : c.peek_byte with
  | some b => rfl
  | none =>
    by_cases hsock : c.sock = true
    · obtain ⟨b, unread, hunread, hrecv⟩ | ⟨nothing, hrecv, rfl | rfl | ⟨err, rfl⟩⟩ :=
        recv_one c answer
      · simp [hsock, hrecv, WiFiClient.pending, hpeek, hunread]
      · simp [hsock, hrecv]
      · simp [hsock, hrecv, WiFiClient.pending, WiFiClient.close_socket]
      · simp [hsock, hrecv, WiFiClient.pending, WiFiClient.close_socket]
    · simp [hsock]

theorem call_pending (c : WiFiClient) (call : ClientCall) :
    (c.call call).1.bytes ++ (c.call call).2.pending = c.pending := by
  cases call with
  | available n => rfl
  | read answer => exact read_pending c answer
  | readBuffer buf size answer => exact readBuffer_pending c buf size answer
  | peek answer => exact (peek_pending c answer).1
  | connected answer => exact connected_pending c answer

theorem call_peek {c : WiFiClient} {call : ClientCall} {b : UInt8}
    (h : (c.call call).1 = .peek (some b)) : (c.call call).2.peek_byte = some b := by
  cases call with
  | peek answer => exact (peek_pending c answer).2 b (ClientResult.peek.inj h)
  | available n => cases h
  | read answer => cases h
  | readBuffer buf size answer => cases h
  | connected answer => cases h

/-- What has been returned, the cached byte and what is still in the socket make up the
    stream, and every byte that a peek has shown is the one after those returned by then. -/
structure ClientRun.Accounted (stream : List UInt8) (r : ClientRun) : Prop where
  conserved : returned r.log ++ r.client.pending = stream
  peeked : ∀ pre b post, r.log = pre ++ .peek (some b) :: post →
    stream[(returned pre).length]? = some b

theorem ClientRun.Accounted.step {stream : List UInt8} {r : ClientRun} (h : r.Accounted stream)
    (call : ClientCall) : (r.step call).Accounted stream := by
  have hconserved : returned (r.log ++ [(r.client.call call).1]) ++ (r.client.call call).2.pending =
      stream := by
    rw [returned_append, returned_cons, returned_nil, List.append_nil, List.append_assoc,
      call_pending, h.conserved]
  refine ⟨hconserved, fun pre b post hlog => ?_⟩
  change r.log ++ [(r.client.call call).1] = _ at hlog
  obtain rfl | ⟨post, last, rfl⟩ := List.eq_nil_or_concat post
  · obtain ⟨rfl, hlast⟩ := List.append_inj' hlog rfl
    have hresult : (r.client.call call).1 = .peek (some b) := List.head_eq_of_cons_eq hlast
    rw [← hconserved, hresult]
    simp [WiFiClient.pending, call_peek hresult]
  · have hsplit : r.log ++ [(r.client.call call).1] = (pre ++ .peek (some b) :: post) ++ [last] := by
      simpa using hlog
    exact h.peeked pre b post (List.append_inj' hsplit rfl).1

/-- In any run of these calls, whatever the socket does, the reads return a prefix of the
    stream, in order and each byte once; what a peek has shown is what is read next; and
    of the bytes taken off the socket the only one not returned yet is the cached one,
    which the next read of either kind returns, the socket being open or not. -/
theorem wifiClient_reads_stream (stream : List UInt8) (calls : List ClientCall) :
    ∀ r ∈ clientMachine.visited ⟨.fresh stream, []⟩ calls,
      returned r.log <+: stream ∧
      (∀ pre b post, r.log = pre ++ .peek (some b) :: post →
        ∀ c, (returned post).head? = some c → c = b) ∧
      returned r.log ++ r.client.peek_byte.toList ++ r.client.unread = stream ∧
      ∀ b, r.client.peek_byte = some b →
        (∀ answer, (r.client.read answer).1 = some b) ∧
          ∀ size answer, 0 < size → ∃ rest, (r.client.readBuffer true size answer).1 = b :: rest := by
  have haccounted : ∀ r ∈ clientMachine.visited ⟨.fresh stream, []⟩ calls, r.Accounted stream := by
    refine Lib.EventMachine.visited_invariant ?_ ⟨rfl, by simp⟩
    rintro r call r' h ⟨⟩
    exact h.step call
  intro r hr
  have h := haccounted r hr
  have hread : returned r.log <+: stream := ⟨r.client.pending, h.conserved⟩
  refine ⟨hread, fun pre b post hlog c hc => ?_, ?_, fun b hb => ⟨fun answer => ?_, ?_⟩⟩
  · have hnext : stream[(returned pre).length]? = some b := h.peeked pre b post hlog
    obtain ⟨rest, hrest⟩ := hread
    rw [hlog] at hrest
    obtain ⟨tail, htail⟩ := List.head?_eq_some_iff.mp hc
    rw [← hrest, returned_append, returned_cons, htail] at hnext
    simpa using hnext
  · rw [List.append_assoc]
    exact h.conserved
  · simp [WiFiClient.read, hb]
  · exact fun size answer hsize => readBuffer_cached hb hsize answer

/-- The second byte, cached by `connected`, is there for the next read. -/
theorem wifiClient_reads_stream_cached :
    ∃ r ∈ clientMachine.visited ⟨.fresh [72, 105], []⟩
        [.peek (.bytes 1), .read .wouldBlock, .connected (.bytes 2)],
      returned r.log <+: [72, 105] ∧ returned r.log = [72] ∧
        (r.client.read (.failed 104)).1 = some 105 := by
  refine ⟨?run, ?mem, (wifiClient_reads_stream _ _ _ ?mem).1, ?returned,
    ((wifiClient_reads_stream _ _ _ ?mem).2.2.2 105 ?cached).1 (.failed 104)⟩
  case mem =>
    refine Lib.EventMachine.mem_visited_iff.mpr ⟨_, List.prefix_refl _, ?_⟩
    rfl
  case returned => rfl
  case cached => rfl

end HostArduino.wifi
