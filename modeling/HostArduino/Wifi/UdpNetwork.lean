import HostArduino.Wifi.Datagrams

namespace HostArduino.wifi

open http (Text ascii)

/-- The receiving half of a `WiFiUDP`. -/
structure UdpReceiver where
  rx_buf_ : List UInt8
  rx_pos_ : Nat
  remote_ip_ : IPAddress
  remote_port_ : UInt16
  deriving DecidableEq, Repr

/-- A datagram on the network. -/
structure Packet where
  payload : List UInt8
  source : IPAddress × UInt16
  target : IPAddress × UInt16
  deriving DecidableEq, Repr

namespace UdpReceiver

def create : UdpReceiver where
  rx_buf_ := []
  rx_pos_ := 0
  remote_ip_ := .zero
  remote_port_ := 0

def stop (r : UdpReceiver) : UdpReceiver :=
  { r with rx_buf_ := [], rx_pos_ := 0 }

/-- `parsePacket` with what `recvfrom` hands over, if it hands over anything. -/
def parsePacket (sock_ : Bool) (received : Option Packet) (r : UdpReceiver) : Int × UdpReceiver :=
  if !sock_ then (0, r)
  else
    match received with
    | none => (0, r.stop)
    | some packet =>
      -- The buffer has room for 65535 bytes.
      let data := packet.payload.take 65535
      if data.length = 0 then (0, r.stop)
      else
        (data.length,
          { rx_buf_ := data, rx_pos_ := 0, remote_ip_ := packet.source.1, remote_port_ := packet.source.2 })

def available (r : UdpReceiver) : Int :=
  ↑(r.rx_buf_.length - r.rx_pos_)

def read (r : UdpReceiver) : Option UInt8 × UdpReceiver :=
  if r.rx_pos_ ≥ r.rx_buf_.length then (none, r)
  else (r.rx_buf_[r.rx_pos_]?, { r with rx_pos_ := r.rx_pos_ + 1 })

/-- `read(unsigned char *, size_t)`, with the bytes it copies out. -/
def readBuffer (len : Nat) (r : UdpReceiver) : List UInt8 × UdpReceiver :=
  let remaining := r.rx_buf_.length - r.rx_pos_
  let n := if len < remaining then len else remaining
  if n = 0 then ([], r) else ((r.rx_buf_.drop r.rx_pos_).take n, { r with rx_pos_ := r.rx_pos_ + n })

def peek (r : UdpReceiver) : Option UInt8 :=
  if r.rx_pos_ ≥ r.rx_buf_.length then none else r.rx_buf_[r.rx_pos_]?

def remoteIP (r : UdpReceiver) : IPAddress :=
  r.remote_ip_

def remotePort (r : UdpReceiver) : UInt16 :=
  r.remote_port_

end UdpReceiver

/-- A program's `WiFiUDP`, the address the system has bound it to, and what waits in its
    socket; with the datagram that `parsePacket` has parsed last, if it did, and what has been
    read of it since. -/
structure UdpNode where
  tx : WiFiUDP
  rx : UdpReceiver
  bound : IPAddress × UInt16
  waiting : List Packet
  parsed : Option Packet
  returned : List UInt8

def UdpNode.create : UdpNode where
  tx := .create
  rx := .create
  bound := (.zero, 0)
  waiting := []
  parsed := none
  returned := []

/-- The calls on one object, each with what the system answers it. -/
inductive UdpAction where
  | begin_ (granted : Option (IPAddress × UInt16))
  | stop
  | beginPacket (call : PacketCall)
  | write (b : UInt8)
  | writeBuffer (buffer : List UInt8)
  | endPacket (accepts : Bool)
  | parsePacket (answers : Bool)
  | read
  | readBuffer (len : Nat)
  deriving DecidableEq, Repr

namespace UdpNode

/-- Closing the socket drops what waits in it. -/
def stop (node : UdpNode) : UdpNode :=
  { node with tx := node.tx.stop, rx := node.rx.stop, waiting := [], parsed := none, returned := [] }

def begin_ (node : UdpNode) (granted : Option (IPAddress × UInt16)) : UdpNode :=
  { node.stop with tx := (node.tx.begin_ granted.isSome).2, bound := granted.getD node.bound }

/-- `parsePacket`: an open socket hands over the first datagram that waits in it, unless the
    call fails. -/
def parsePacket (node : UdpNode) (answers : Bool) : UdpNode :=
  if !node.tx.sock_ then node
  else
    let received := if answers then node.waiting.head? else none
    let (size, rx) := node.rx.parsePacket node.tx.sock_ received
    { node with
      rx
      waiting := if answers then node.waiting.tail else node.waiting
      parsed := if size = 0 then none else received
      returned := [] }

def read (node : UdpNode) : UdpNode :=
  { node with rx := node.rx.read.2, returned := node.returned ++ node.rx.read.1.toList }

def readBuffer (node : UdpNode) (len : Nat) : UdpNode :=
  { node with rx := (node.rx.readBuffer len).2, returned := node.returned ++ (node.rx.readBuffer len).1 }

end UdpNode

/-- The programs, and all the datagrams that the system has taken from them. -/
structure UdpNetwork (ι : Type*) where
  node : ι → UdpNode
  sent : List Packet

def UdpNetwork.create {ι : Type*} : UdpNetwork ι where
  node _ := .create
  sent := []

/-- A program makes a call, or a datagram that was sent comes in at a socket: at any time, at
    several, more than once or never. -/
inductive NetworkEvent (ι : Type*) where
  | call (i : ι) (action : UdpAction)
  | deliver (i : ι) (k : Nat)

section Network

variable {ι : Type*} [DecidableEq ι] (conv : Conversion)
  (reaches : IPAddress × UInt16 → IPAddress × UInt16 → Bool)

namespace UdpNetwork

def setNode (n : UdpNetwork ι) (i : ι) (node : UdpNode) : UdpNetwork ι :=
  { n with node := Function.update n.node i node }

/-- The largest datagram there is. -/
def maxPayload : Nat := 65507

def action (n : UdpNetwork ι) (i : ι) : UdpAction → Option (UdpNetwork ι)
  | .begin_ granted => some (n.setNode i ((n.node i).begin_ granted))
  | .stop => some (n.setNode i (n.node i).stop)
  | .beginPacket call => some (n.setNode i { n.node i with tx := (call.beginPacket conv (n.node i).tx).2 })
  | .write b => some (n.setNode i { n.node i with tx := ((n.node i).tx.write b).2 })
  | .writeBuffer buffer => some (n.setNode i { n.node i with tx := ((n.node i).tx.writeBuffer buffer).2 })
  | .endPacket accepts =>
    let node := n.node i
    -- More than a datagram holds is refused.
    if accepts = true ∧ maxPayload < node.tx.tx_buf_.length then none
    else
      let (returned, tx) := node.tx.endPacket accepts
      let packet := { payload := node.tx.tx_buf_, source := node.bound, target := node.tx.tx_addr_ }
      some
        { n.setNode i { node with tx } with
          sent := if returned = 1 then n.sent ++ [packet] else n.sent }
  | .parsePacket answers => some (n.setNode i ((n.node i).parsePacket answers))
  | .read => some (n.setNode i (n.node i).read)
  | .readBuffer len => some (n.setNode i ((n.node i).readBuffer len))

def step (n : UdpNetwork ι) : NetworkEvent ι → Option (UdpNetwork ι)
  | .call i action => n.action conv i action
  | .deliver i k =>
    match n.sent[k]? with
    | none => none
    | some packet =>
      if (n.node i).tx.sock_ && reaches packet.target (n.node i).bound then
        some (n.setNode i { n.node i with waiting := (n.node i).waiting ++ [packet] })
      else none

def machine : Lib.EventMachine (UdpNetwork ι) (NetworkEvent ι) where
  step := step conv reaches

end UdpNetwork

variable {reaches} {sent : List Packet} {node : UdpNode}

/-- What waits at a socket was sent to it. What was read since a datagram was parsed is the
    first part of it, the buffer holds it whole, and its sender is the remote end. -/
structure UdpNode.Sound (reaches : IPAddress × UInt16 → IPAddress × UInt16 → Bool) (sent : List Packet)
    (node : UdpNode) : Prop where
  waiting : ∀ packet ∈ node.waiting, packet ∈ sent ∧ reaches packet.target node.bound = true
  position : node.rx.rx_pos_ ≤ node.rx.rx_buf_.length
  returned : node.returned = node.rx.rx_buf_.take node.rx.rx_pos_
  unparsed : node.parsed = none → node.rx.rx_buf_ = []
  parsed : ∀ packet, node.parsed = some packet → (packet ∈ sent ∧ reaches packet.target node.bound = true) ∧
    node.rx.rx_buf_ = packet.payload ∧ (node.rx.remote_ip_, node.rx.remote_port_) = packet.source

namespace UdpNode

theorem sound_create : UdpNode.create.Sound reaches sent where
  waiting _ hpacket := absurd hpacket List.not_mem_nil
  position := le_refl _
  returned := rfl
  unparsed _ := rfl
  parsed _ hpacket := absurd hpacket nofun

theorem Sound.mono (h : node.Sound reaches sent) {more : List Packet} : node.Sound reaches (sent ++ more) where
  waiting packet hpacket := (h.waiting packet hpacket).imp_left (List.mem_append_left _)
  position := h.position
  returned := h.returned
  unparsed := h.unparsed
  parsed packet hpacket := (h.parsed packet hpacket).imp_left (And.imp_left (List.mem_append_left _))

/-- The sending half is not what a datagram that was received depends on. -/
theorem Sound.sending (h : node.Sound reaches sent) (tx : WiFiUDP) : { node with tx }.Sound reaches sent :=
  ⟨h.waiting, h.position, h.returned, h.unparsed, h.parsed⟩

theorem sound_stop (bound : IPAddress × UInt16) (tx : WiFiUDP) :
    { node.stop with tx, bound }.Sound reaches sent where
  waiting _ hpacket := absurd hpacket List.not_mem_nil
  position := le_refl _
  returned := rfl
  unparsed _ := rfl
  parsed _ hpacket := absurd hpacket nofun

theorem Sound.deliver (h : node.Sound reaches sent) {packet : Packet} (hpacket : packet ∈ sent)
    (hreaches : reaches packet.target node.bound = true) :
    { node with waiting := node.waiting ++ [packet] }.Sound reaches sent where
  waiting := by
    intro waiting hwaiting
    obtain hbefore | hlast := List.mem_append.mp hwaiting
    · exact h.waiting waiting hbefore
    · obtain rfl := List.mem_singleton.mp hlast
      exact ⟨hpacket, hreaches⟩
  position := h.position
  returned := h.returned
  unparsed := h.unparsed
  parsed := h.parsed

/-- Reading moves on by as many bytes as it returns, and never behind the end. -/
theorem Sound.reads (h : node.Sound reaches sent) (count : Nat)
    (hcount : node.rx.rx_pos_ + count ≤ node.rx.rx_buf_.length) :
    { node with
      rx := { node.rx with rx_pos_ := node.rx.rx_pos_ + count }
      returned := node.returned ++ (node.rx.rx_buf_.drop node.rx.rx_pos_).take count }.Sound reaches sent where
  waiting := h.waiting
  position := hcount
  returned := by
    rw [h.returned, List.take_add]
  unparsed := h.unparsed
  parsed := h.parsed

theorem read_eq (r : UdpReceiver) :
    r.read = ((r.rx_buf_.drop r.rx_pos_).head?,
      { r with rx_pos_ := r.rx_pos_ + min 1 (r.rx_buf_.length - r.rx_pos_) }) := by
  unfold UdpReceiver.read
  split
  · rename_i hend
    have hnothing : r.rx_buf_.length - r.rx_pos_ = 0 := by omega
    rw [List.drop_eq_nil_of_le hend, hnothing]
    rfl
  · rename_i hmore
    have hone : min 1 (r.rx_buf_.length - r.rx_pos_) = 1 := by omega
    rw [hone, List.head?_drop]

theorem readBuffer_eq (r : UdpReceiver) (len : Nat) :
    r.readBuffer len = ((r.rx_buf_.drop r.rx_pos_).take len,
      { r with rx_pos_ := r.rx_pos_ + min len (r.rx_buf_.length - r.rx_pos_) }) := by
  have hn : (if len < r.rx_buf_.length - r.rx_pos_ then len else r.rx_buf_.length - r.rx_pos_) =
      min len (r.rx_buf_.length - r.rx_pos_) := by
    split <;> omega
  unfold UdpReceiver.readBuffer
  simp only [hn]
  have htake : (r.rx_buf_.drop r.rx_pos_).take (min len (r.rx_buf_.length - r.rx_pos_)) =
      (r.rx_buf_.drop r.rx_pos_).take len := by
    rw [← List.length_drop, ← List.take_eq_take_min]
  split
  · rename_i hzero
    rw [← htake, hzero]
    rfl
  · rw [htake]

theorem Sound.read (h : node.Sound reaches sent) : node.read.Sound reaches sent := by
  have hposition := h.position
  have hreads := h.reads (min 1 (node.rx.rx_buf_.length - node.rx.rx_pos_)) (by omega)
  have hhead : (node.rx.rx_buf_.drop node.rx.rx_pos_).take (min 1 (node.rx.rx_buf_.length - node.rx.rx_pos_)) =
      (node.rx.rx_buf_.drop node.rx.rx_pos_).head?.toList := by
    rw [← List.length_drop, ← List.take_eq_take_min]
    cases node.rx.rx_buf_.drop node.rx.rx_pos_ <;> rfl
  rw [hhead] at hreads
  rw [UdpNode.read, read_eq]
  exact hreads

theorem Sound.readBuffer (h : node.Sound reaches sent) (len : Nat) : (node.readBuffer len).Sound reaches sent := by
  have hposition := h.position
  have hreads := h.reads (min len (node.rx.rx_buf_.length - node.rx.rx_pos_)) (by omega)
  rw [← List.length_drop, ← List.take_eq_take_min] at hreads
  rw [UdpNode.readBuffer, readBuffer_eq, ← List.length_drop]
  exact hreads

/-- A datagram that is parsed is taken whole, as none is larger than the buffer. -/
theorem parsePacket_eq (r : UdpReceiver) {packet : Packet} (hsize : packet.payload.length ≤ UdpNetwork.maxPayload) :
    r.parsePacket true (some packet) =
      if packet.payload = [] then (0, r.stop)
      else
        ((packet.payload.length : Int),
          { rx_buf_ := packet.payload, rx_pos_ := 0, remote_ip_ := packet.source.1,
            remote_port_ := packet.source.2 }) := by
  have hwhole : packet.payload.take 65535 = packet.payload := by
    refine List.take_of_length_le (hsize.trans ?_)
    decide
  simp only [UdpReceiver.parsePacket, hwhole, List.length_eq_zero_iff]
  rfl

theorem sound_parsePacket (h : node.Sound reaches sent)
    (hsent : ∀ packet ∈ sent, packet.payload.length ≤ UdpNetwork.maxPayload) (answers : Bool) :
    (node.parsePacket answers).Sound reaches sent := by
  unfold UdpNode.parsePacket
  cases hopen : node.tx.sock_ with
  | false => exact h
  | true =>
    have hnothing : ∀ waiting, (∀ packet ∈ waiting, packet ∈ node.waiting) →
        { node with rx := node.rx.stop, waiting, parsed := none, returned := [] }.Sound reaches sent :=
      fun waiting hkept => ⟨fun packet hpacket => h.waiting packet (hkept packet hpacket), le_refl _, rfl,
        fun _ => rfl, nofun⟩
    cases answers with
    | false => exact hnothing _ fun _ => id
    | true =>
      cases hwaiting : node.waiting with
      | nil => exact hnothing [] fun _ hpacket => absurd hpacket List.not_mem_nil
      | cons packet rest =>
        have hpacket := h.waiting packet (by simp [hwaiting])
        have hkept : ∀ other ∈ rest, other ∈ node.waiting := fun other hother => by simp [hwaiting, hother]
        simp only [List.head?_cons, List.tail_cons, Bool.not_true, Bool.false_eq_true, ↓reduceIte]
        rw [parsePacket_eq _ (hsent packet hpacket.1)]
        by_cases hempty : packet.payload = []
        · rw [if_pos hempty]
          exact hnothing rest hkept
        · rw [if_neg hempty]
          have hsize : ¬((packet.payload.length : Int) = 0) := by simpa using hempty
          refine ⟨fun other hother => h.waiting other (hkept other hother), Nat.zero_le _, rfl, ?_, ?_⟩
          · simp only [if_neg hsize]
            exact nofun
          · simp only [if_neg hsize]
            rintro parsed ⟨⟩
            exact ⟨hpacket, rfl, rfl⟩

end UdpNode

namespace UdpNetwork

variable {n n' : UdpNetwork ι} {conv}

/-- Every node is sound, and nothing was sent that is larger than a datagram can be. -/
structure Sound (reaches : IPAddress × UInt16 → IPAddress × UInt16 → Bool) (n : UdpNetwork ι) : Prop where
  node : ∀ i, (n.node i).Sound reaches n.sent
  size : ∀ packet ∈ n.sent, packet.payload.length ≤ maxPayload

theorem Sound.setNode (h : n.Sound reaches) (i : ι) {node : UdpNode} (hnode : node.Sound reaches n.sent) :
    (n.setNode i node).Sound reaches where
  node := by
    intro j
    by_cases hj : j = i
    · subst hj
      simpa [UdpNetwork.setNode] using hnode
    · simpa [UdpNetwork.setNode, hj] using h.node j
  size := h.size

theorem Sound.action (h : n.Sound reaches) (i : ι) {action : UdpAction}
    (hstep : n.action conv i action = some n') : n'.Sound reaches := by
  have hnode := h.node i
  cases action with
  | begin_ granted =>
    obtain rfl := Option.some.inj hstep
    exact h.setNode i (UdpNode.sound_stop _ _)
  | stop =>
    obtain rfl := Option.some.inj hstep
    exact h.setNode i (UdpNode.sound_stop (n.node i).bound (n.node i).tx.stop)
  | beginPacket call =>
    obtain rfl := Option.some.inj hstep
    exact h.setNode i (hnode.sending _)
  | write b =>
    obtain rfl := Option.some.inj hstep
    exact h.setNode i (hnode.sending _)
  | writeBuffer buffer =>
    obtain rfl := Option.some.inj hstep
    exact h.setNode i (hnode.sending _)
  | endPacket accepts =>
    simp only [UdpNetwork.action] at hstep
    split at hstep
    · cases hstep
    · rename_i hsize
      obtain rfl := Option.some.inj hstep
      have hset := h.setNode i (hnode.sending ((n.node i).tx.endPacket accepts).2)
      by_cases hreturned : ((n.node i).tx.endPacket accepts).1 = 1
      · simp only [if_pos hreturned]
        have haccepts := (Bool.and_eq_true_iff.mp ((endPacket_eq _ _).2.mp hreturned).2).1
        refine ⟨fun j => (hset.node j).mono, fun packet hpacket => ?_⟩
        obtain hbefore | hlast := List.mem_append.mp hpacket
        · exact h.size packet hbefore
        · obtain rfl := List.mem_singleton.mp hlast
          exact Nat.le_of_not_lt fun hlarge => hsize ⟨haccepts, hlarge⟩
      · simp only [if_neg hreturned]
        exact hset
  | parsePacket answers =>
    obtain rfl := Option.some.inj hstep
    exact h.setNode i (UdpNode.sound_parsePacket hnode h.size answers)
  | read =>
    obtain rfl := Option.some.inj hstep
    exact h.setNode i hnode.read
  | readBuffer len =>
    obtain rfl := Option.some.inj hstep
    exact h.setNode i (hnode.readBuffer len)

theorem Sound.step (h : n.Sound reaches) {e : NetworkEvent ι} (hstep : n.step conv reaches e = some n') :
    n'.Sound reaches := by
  cases e with
  | call i action => exact h.action i hstep
  | deliver i k =>
    simp only [UdpNetwork.step] at hstep
    split at hstep
    · cases hstep
    · rename_i packet hk
      split at hstep
      · rename_i hreaches
        obtain rfl := Option.some.inj hstep
        exact h.setNode i ((h.node i).deliver (List.mem_of_getElem? hk) (Bool.and_eq_true_iff.mp hreaches).2)
      · cases hstep

end UdpNetwork

/-- Programs send and receive over a network that loses, repeats and reorders datagrams as it
    likes. Whatever a program reads after `parsePacket` has returned a size is the first part
    of one datagram that some program sent to it, the rest of it is what the next reads, peek
    and `available` go by, and its sender is the remote end. Nothing of a datagram is
    there to read after a call of `parsePacket` that returned 0. -/
theorem udp_datagrams {conv : Conversion} {reaches : IPAddress × UInt16 → IPAddress × UInt16 → Bool}
    {events : List (NetworkEvent ι)} :
    ∀ n ∈ (UdpNetwork.machine conv reaches).visited .create events, ∀ i,
      (∀ packet, (n.node i).parsed = some packet →
        (packet ∈ n.sent ∧ reaches packet.target (n.node i).bound = true) ∧
          ((n.node i).rx.remoteIP, (n.node i).rx.remotePort) = packet.source ∧
          ∃ unread, (n.node i).returned ++ unread = packet.payload ∧ (n.node i).rx.available = unread.length ∧
            (n.node i).rx.peek = unread.head? ∧ (n.node i).rx.read.1 = unread.head? ∧
            ∀ len, ((n.node i).rx.readBuffer len).1 = unread.take len) ∧
        ((n.node i).parsed = none → (n.node i).returned = [] ∧ (n.node i).rx.available = 0 ∧
          (n.node i).rx.read.1 = none ∧ ∀ len, ((n.node i).rx.readBuffer len).1 = []) := by
  intro n hn i
  have hnetwork : n.Sound reaches := Lib.EventMachine.visited_invariant (P := UdpNetwork.Sound reaches)
    (fun _ _ _ hsound hstep => hsound.step hstep)
    ⟨fun _ => UdpNode.sound_create, fun _ hpacket => absurd hpacket List.not_mem_nil⟩ n hn
  have h := hnetwork.node i
  refine ⟨fun packet hparsed => ?_, fun hparsed => ?_⟩
  · obtain ⟨hsent, hbuffer, hremote⟩ := h.parsed packet hparsed
    refine ⟨hsent, hremote, (n.node i).rx.rx_buf_.drop (n.node i).rx.rx_pos_, ?_, ?_, ?_, ?_, fun len => ?_⟩
    · rw [h.returned, List.take_append_drop, hbuffer]
    · rw [UdpReceiver.available, List.length_drop]
    · rw [List.head?_drop, UdpReceiver.peek]
      split
      · rename_i hend
        exact (List.getElem?_eq_none hend).symm
      · rfl
    · rw [UdpNode.read_eq]
    · rw [UdpNode.readBuffer_eq]
  · have hbuffer := h.unparsed hparsed
    refine ⟨by rw [h.returned, hbuffer, List.take_nil], by simp [UdpReceiver.available, hbuffer], ?_, fun len => ?_⟩
    · rw [UdpNode.read_eq, hbuffer, List.drop_nil]
      rfl
    · rw [UdpNode.readBuffer_eq, hbuffer, List.drop_nil, List.take_nil]

/-- What a write adds to the packet. -/
def UdpAction.written : UdpAction → Option (List UInt8)
  | .write b => some [b]
  | .writeBuffer buffer => some buffer
  | _ => none

def UdpNode.stage (node : UdpNode) (data : List UInt8) : UdpNode :=
  { node with tx := { node.tx with tx_buf_ := node.tx.tx_buf_ ++ data } }

namespace UdpNetwork

variable (reaches) {n : UdpNetwork ι}

@[simp] theorem setNode_sent (n : UdpNetwork ι) (i : ι) (node : UdpNode) : (n.setNode i node).sent = n.sent := rfl

end UdpNetwork

variable {n : UdpNetwork ι}

end Network

/-- A program sends itself a datagram, and the first byte of it is read. -/
theorem udp_datagrams_loopback :
    ∃ n ∈ (UdpNetwork.machine .gnu fun target bound => target == bound).visited (.create : UdpNetwork Unit)
        [.call () (.begin_ (some (⟨127, 0, 0, 1⟩, 7))), .call () (.beginPacket (.toAddress ⟨127, 0, 0, 1⟩ 7)),
          .call () (.writeBuffer [66, 67]), .call () (.endPacket true), .deliver () 0,
          .call () (.parsePacket true), .call () .read],
      (n.node ()).returned = [66] ∧
        ∃ packet ∈ n.sent, ∃ unread, (n.node ()).returned ++ unread = packet.payload ∧
          (n.node ()).rx.peek = unread.head? ∧ packet.payload = [66, 67] := by
  refine ⟨?network, ?mem, ?returned, ⟨[66, 67], (⟨127, 0, 0, 1⟩, 7), (⟨127, 0, 0, 1⟩, 7)⟩,
    ((udp_datagrams _ ?mem ()).1 _ ?parsed).1.1,
    ((udp_datagrams _ ?mem ()).1 _ ?parsed).2.2.imp fun unread h => ⟨h.1, h.2.2.1, rfl⟩⟩
  case mem =>
    refine Lib.EventMachine.mem_visited_iff.mpr ⟨_, List.prefix_refl _, ?_⟩
    rfl
  case returned => rfl
  case parsed => rfl

end HostArduino.wifi
