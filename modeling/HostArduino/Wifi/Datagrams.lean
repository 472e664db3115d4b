import HostArduino.Lib.EventMachine
import HostArduino.Wifi.IPAddress

namespace HostArduino.wifi

open http (Text ascii)

variable (conv : Conversion)

namespace WiFiUDP

def create : WiFiUDP where
  sock_ := false
  tx_buf_ := []
  tx_addr_ := (.zero, 0)
  tx_port_ := 0

def stop (u : WiFiUDP) : WiFiUDP :=
  { u with sock_ := false, tx_buf_ := [] }

/-- `begin`; the system grants a bound socket or does not. -/
def begin_ (u : WiFiUDP) (granted : Bool) : UInt8 × WiFiUDP :=
  if granted then (1, { u.stop with sock_ := true }) else (0, u.stop)

def write (u : WiFiUDP) (b : UInt8) : Nat × WiFiUDP :=
  (1, { u with tx_buf_ := u.tx_buf_ ++ [b] })

/-- `write(const uint8_t *, size_t)`. -/
def writeBuffer (u : WiFiUDP) (buffer : List UInt8) : Nat × WiFiUDP :=
  (buffer.length, { u with tx_buf_ := u.tx_buf_ ++ buffer })

end WiFiUDP

/-- The system refuses a datagram to port 0 and may refuse any other. -/
def sendto (accepts : Bool) (addr : IPAddress × UInt16) : Bool :=
  accepts && addr.2 != 0

def WiFiUDP.endPacket (u : WiFiUDP) (accepts : Bool) : Int × WiFiUDP :=
  if !u.sock_ then (0, u)
  else (if sendto accepts u.tx_addr_ then 1 else 0, { u with tx_buf_ := [] })

/-- The two forms of `beginPacket`, the second with the answer of the resolver should it be
    asked. -/
inductive PacketCall where
  | toAddress (ip : IPAddress) (port : UInt16)
  | toHost (host : Option Text) (port : UInt16) (answer : Option IPAddress)
  deriving DecidableEq, Repr

namespace PacketCall

def beginPacket : PacketCall → WiFiUDP → Int × WiFiUDP
  | .toAddress ip port, u => u.beginPacket ip port
  | .toHost host port answer, u => u.beginPacketHost conv (fun _ => answer) host port

/-- Where a packet to it is to go: an address in the text counts before the resolver's. -/
def destination : PacketCall → Option (IPAddress × UInt16)
  | .toAddress ip port => some (ip, port)
  | .toHost none _ _ => none
  | .toHost (some host) port answer =>
    let parsed := IPAddress.zero.fromString conv (some host)
    (if parsed.1 then some parsed.2 else answer).map fun ip => (ip, port)

def port : PacketCall → UInt16
  | .toAddress _ port | .toHost _ port _ => port

end PacketCall

inductive UdpCall where
  | begin_ (granted : Bool)
  | stop
  | beginPacket (call : PacketCall)
  | write (b : UInt8)
  | writeBuffer (buffer : List UInt8)
  | endPacket (accepts : Bool)
  deriving DecidableEq, Repr

/-- A call of `beginPacket`, whether the socket was open for it, and what it returned. -/
structure Begun where
  call : PacketCall
  opened : Bool
  returned : Int
  deriving DecidableEq, Repr

/-- A call that cannot but succeed: the socket is open and there is somewhere to send to. -/
def Begun.Sound (begun : Begun) : Prop :=
  begun.opened = true ∧ begun.call.destination conv ≠ none

instance (begun : Begun) : Decidable (begun.Sound conv) :=
  inferInstanceAs (Decidable (_ ∧ _))

/-- A datagram on its way, and the last call of `beginPacket` before it left. -/
structure Datagram where
  payload : List UInt8
  target : IPAddress × UInt16
  begun : Option Begun
  deriving DecidableEq, Repr

/-- `begun` is the last call of `beginPacket`, `sound` the last one that could not but succeed. -/
structure UdpState where
  udp : WiFiUDP
  begun : Option Begun
  sound : Option Begun
  sent : List Datagram
  deriving DecidableEq, Repr

namespace UdpState

def create : UdpState where
  udp := .create
  begun := none
  sound := none
  sent := []

def apply (s : UdpState) : UdpCall → UdpState
  | .begin_ granted => { s with udp := (s.udp.begin_ granted).2 }
  | .stop => { s with udp := s.udp.stop }
  | .beginPacket call =>
    let (returned, udp) := call.beginPacket conv s.udp
    let begun := { call, opened := s.udp.sock_, returned }
    { s with udp, begun := some begun, sound := if begun.Sound conv then some begun else s.sound }
  | .write b => { s with udp := (s.udp.write b).2 }
  | .writeBuffer buffer => { s with udp := (s.udp.writeBuffer buffer).2 }
  | .endPacket accepts =>
    let (returned, udp) := s.udp.endPacket accepts
    let datagram := { payload := s.udp.tx_buf_, target := s.udp.tx_addr_, begun := s.begun }
    { s with udp, sent := if returned = 1 then s.sent ++ [datagram] else s.sent }

end UdpState

def udpMachine : Lib.EventMachine UdpState UdpCall :=
  .total (UdpState.apply conv)

/-- The datagram goes where the last `beginPacket` said, and that had not failed. -/
def Datagram.Addressed (d : Datagram) : Prop :=
  ∃ begun, d.begun = some begun ∧ begun.returned ≠ 0 ∧ begun.call.destination conv = some d.target

/-- No datagram is accepted while the last `beginPacket` is one that had to fail. None is
    before one has succeeded, nor where the last one that did was for port 0. -/
def SendsSound (s : UdpState) : UdpCall → Prop
  | .endPacket accepts =>
    s.udp.sock_ = true → accepts = true → (∃ begun ∈ s.sound, begun.call.port ≠ 0) →
      ∀ begun ∈ s.begun, begun.Sound conv
  | _ => True

theorem PacketCall.port_of_destination {call : PacketCall} {addr : IPAddress × UInt16}
    (haddr : call.destination conv = some addr) : addr.2 = call.port := by
  cases call with
  | toAddress ip port =>
    obtain rfl := Option.some.inj haddr
    rfl
  | toHost host port answer =>
    cases host with
    | none => cases haddr
    | some host =>
      obtain ⟨ip, -, rfl⟩ := Option.map_eq_some_iff.mp haddr
      rfl

theorem beginPacket_eq (call : PacketCall) (u : WiFiUDP) :
    call.beginPacket conv u =
      if u.sock_ then
        (call.destination conv).elim (0, u) fun addr =>
          (1, { u with tx_buf_ := [], tx_addr_ := addr, tx_port_ := addr.2 })
      else (0, u) := by
  cases hopen : u.sock_ with
  | false => cases call <;> simp [PacketCall.beginPacket, WiFiUDP.beginPacket, WiFiUDP.beginPacketHost, hopen]
  | true =>
    cases call with
    | toAddress ip port => simp [PacketCall.beginPacket, WiFiUDP.beginPacket, PacketCall.destination, hopen]
    | toHost host port answer =>
      cases host with
      | none => simp [PacketCall.beginPacket, WiFiUDP.beginPacketHost, PacketCall.destination, hopen]
      | some host =>
        cases hparsed : (IPAddress.zero.fromString conv (some host)).1 with
        | true =>
          simp [PacketCall.beginPacket, WiFiUDP.beginPacketHost, WiFiUDP.beginPacket, PacketCall.destination,
            hopen, hparsed]
        | false =>
          cases answer <;>
            simp [PacketCall.beginPacket, WiFiUDP.beginPacketHost, WiFiUDP.beginResolved,
              PacketCall.destination, hopen, hparsed]

theorem beginPacket_sound {call : PacketCall} {u : WiFiUDP} {addr : IPAddress × UInt16} (hopen : u.sock_ = true)
    (haddr : call.destination conv = some addr) :
    call.beginPacket conv u = (1, { u with tx_buf_ := [], tx_addr_ := addr, tx_port_ := addr.2 }) := by
  rw [beginPacket_eq, if_pos hopen, haddr, Option.elim_some]

theorem beginPacket_refused {call : PacketCall} {u : WiFiUDP}
    (hrefused : ¬(u.sock_ = true ∧ call.destination conv ≠ none)) : call.beginPacket conv u = (0, u) := by
  rw [beginPacket_eq]
  split
  · rename_i hopen
    rw [not_not.mp (not_and.mp hrefused hopen), Option.elim_none]
  · rfl

/-- What is known of the address that the object keeps. -/
structure Begins (s : UdpState) : Prop where
  unset : s.begun = none → s.udp.tx_addr_.2 = 0
  returned : ∀ begun ∈ s.begun, begun.returned ≠ 0 ↔ begun.Sound conv
  addressed : ∀ begun ∈ s.begun, begun.Sound conv → begun.call.destination conv = some s.udp.tx_addr_
  port_ne : s.udp.tx_addr_.2 ≠ 0 ↔ ∃ begun ∈ s.sound, begun.call.port ≠ 0

theorem begins_create : Begins conv .create where
  unset _ := rfl
  returned := by
    rintro begun hbegun
    cases hbegun
  addressed := by
    rintro begun hbegun
    cases hbegun
  port_ne := by
    refine iff_of_false (not_not_intro rfl) ?_
    rintro ⟨begun, hbegun, -⟩
    cases hbegun

variable {conv} {s : UdpState}

/-- A call that keeps the address keeps all of it. -/
theorem Begins.keep (h : Begins conv s) {s' : UdpState} (hbegun : s'.begun = s.begun)
    (hsound : s'.sound = s.sound) (haddr : s'.udp.tx_addr_ = s.udp.tx_addr_) : Begins conv s' where
  unset hnone := by
    rw [haddr]
    exact h.unset (hbegun ▸ hnone)
  returned begun hmem := h.returned begun (hbegun ▸ hmem)
  addressed begun hmem hsound := by
    rw [haddr]
    exact h.addressed begun (hbegun ▸ hmem) hsound
  port_ne := by
    rw [haddr, hsound]
    exact h.port_ne

theorem apply_beginPacket (s : UdpState) (call : PacketCall) :
    s.apply conv (.beginPacket call) =
      { s with
        udp := (call.beginPacket conv s.udp).2
        begun := some ⟨call, s.udp.sock_, (call.beginPacket conv s.udp).1⟩
        sound :=
          if s.udp.sock_ = true ∧ call.destination conv ≠ none then
            some ⟨call, s.udp.sock_, (call.beginPacket conv s.udp).1⟩
          else s.sound } := rfl

theorem begins_beginPacket (h : Begins conv s) (call : PacketCall) :
    Begins conv (s.apply conv (.beginPacket call)) := by
  rw [apply_beginPacket]
  by_cases hsound : s.udp.sock_ = true ∧ call.destination conv ≠ none
  · obtain ⟨addr, haddr⟩ := Option.ne_none_iff_exists'.mp hsound.2
    rw [if_pos hsound, beginPacket_sound conv hsound.1 haddr]
    refine ⟨fun hnone => ?_, fun begun hbegun => ?_, fun begun hbegun _ => ?_, ?_⟩
    · cases hnone
    · obtain rfl := Option.some.inj hbegun
      exact iff_of_true Int.one_ne_zero hsound
    · obtain rfl := Option.some.inj hbegun
      exact haddr
    · simp [PacketCall.port_of_destination conv haddr]
  · rw [if_neg hsound, beginPacket_refused conv hsound]
    refine ⟨fun hnone => ?_, fun begun hbegun => ?_, fun begun hbegun hsound' => ?_, h.port_ne⟩
    · cases hnone
    · obtain rfl := Option.some.inj hbegun
      exact iff_of_false (not_not_intro rfl) hsound
    · obtain rfl := Option.some.inj hbegun
      exact absurd hsound' hsound

theorem tx_addr_begin (u : WiFiUDP) (granted : Bool) : (u.begin_ granted).2.tx_addr_ = u.tx_addr_ := by
  cases granted <;> rfl

theorem endPacket_eq (u : WiFiUDP) (accepts : Bool) :
    (u.endPacket accepts).2.tx_addr_ = u.tx_addr_ ∧
      ((u.endPacket accepts).1 = 1 ↔ u.sock_ = true ∧ sendto accepts u.tx_addr_ = true) := by
  unfold WiFiUDP.endPacket
  cases u.sock_ <;> cases sendto accepts u.tx_addr_ <;> simp

theorem begins_apply (h : Begins conv s) (call : UdpCall) : Begins conv (s.apply conv call) := by
  cases call with
  | begin_ granted => exact h.keep rfl rfl (tx_addr_begin s.udp granted)
  | stop => exact h.keep rfl rfl rfl
  | beginPacket call => exact begins_beginPacket h call
  | write b => exact h.keep rfl rfl rfl
  | writeBuffer buffer => exact h.keep rfl rfl rfl
  | endPacket accepts => exact h.keep rfl rfl (endPacket_eq s.udp accepts).1

/-- The datagram that leaves is addressed if the last `beginPacket` was sound. -/
theorem addressed_iff (h : Begins conv s) (hset : s.udp.tx_addr_.2 ≠ 0) (payload : List UInt8) :
    (Datagram.mk payload s.udp.tx_addr_ s.begun).Addressed conv ↔ ∀ begun ∈ s.begun, begun.Sound conv := by
  constructor
  · rintro ⟨begun, hbegun, hreturned, -⟩ begun' hbegun'
    obtain rfl := Option.some.inj (hbegun.symm.trans hbegun')
    exact (h.returned begun hbegun).mp hreturned
  · intro hsound
    cases hbegun : s.begun with
    | none => exact absurd (h.unset hbegun) hset
    | some begun =>
      have hbegun_sound := hsound begun hbegun
      exact ⟨begun, rfl, (h.returned begun hbegun).mpr hbegun_sound, h.addressed begun hbegun hbegun_sound⟩

/-- What one call adds to the datagrams. -/
theorem sent_apply (h : Begins conv s) (hsent : ∀ d ∈ s.sent, d.Addressed conv) (call : UdpCall) :
    (∀ d ∈ (s.apply conv call).sent, d.Addressed conv) ↔ SendsSound conv s call := by
  cases call with
  | endPacket accepts =>
    have hleaves := (endPacket_eq s.udp accepts).2
    have haccepted : sendto accepts s.udp.tx_addr_ = true ↔
        accepts = true ∧ ∃ begun ∈ s.sound, begun.call.port ≠ 0 := by
      rw [sendto, Bool.and_eq_true, bne_iff_ne, h.port_ne]
    by_cases hreturned : (s.udp.endPacket accepts).1 = 1
    · obtain ⟨hopen, haccepts⟩ := hleaves.mp hreturned
      have hport : s.udp.tx_addr_.2 ≠ 0 := by
        have hport := (Bool.and_eq_true_iff.mp haccepts).2
        simpa using hport
      have hadded : (s.apply conv (.endPacket accepts)).sent =
          s.sent ++ [⟨s.udp.tx_buf_, s.udp.tx_addr_, s.begun⟩] := if_pos hreturned
      rw [hadded, List.forall_mem_append, List.forall_mem_singleton, addressed_iff h hport]
      obtain ⟨htaken, hport⟩ := haccepted.mp haccepts
      exact ⟨fun hsound _ _ _ => hsound.2, fun hsound => ⟨hsent, hsound hopen htaken hport⟩⟩
    · have hkept : (s.apply conv (.endPacket accepts)).sent = s.sent := if_neg hreturned
      rw [hkept]
      exact iff_of_true hsent fun hopen htaken hport =>
        absurd (hleaves.mpr ⟨hopen, haccepted.mpr ⟨htaken, hport⟩⟩) hreturned
  | _ => exact iff_of_true hsent trivial

/-- Every datagram goes to where the last `beginPacket` before it said and follows none that
    failed, exactly when none is accepted while the last `beginPacket` is one that had to
    fail: a call that fails leaves the object armed with what the one before it had set. -/
theorem datagrams_addressed_iff (conv : Conversion) (calls : List UdpCall) :
    (∀ s ∈ (udpMachine conv).visited .create calls, ∀ d ∈ s.sent, d.Addressed conv) ↔
      (udpMachine conv).Meets (SendsSound conv) .create calls := by
  refine Lib.EventMachine.visited_iff_meets_of_invariant (I := Begins conv) ?keep ?step ?disabled
    (begins_create conv) (by simp [UdpState.create])
  case keep =>
    intro s call s' h hstep
    obtain rfl := Option.some.inj hstep
    exact begins_apply h call
  case step =>
    intro s call s' h hsent hstep
    obtain rfl := Option.some.inj hstep
    exact sent_apply h hsent call
  case disabled =>
    intro s call _ hstep
    cases hstep

/-- A call for a host that is not found. -/
def unresolved : PacketCall :=
  .toHost (some (ascii "collector")) 9 none

/-- A packet to 10.0.0.2 is followed by one to a host that is not found. -/
def twoPackets : List UdpCall :=
  [.begin_ true, .beginPacket (.toAddress ⟨10, 0, 0, 2⟩ 7), .write 65, .endPacket true,
    .beginPacket unresolved, .write 66, .endPacket true]

/-- The second goes to 10.0.0.2 as well, although `beginPacket` has returned 0. -/
theorem datagram_stale :
    ∃ s ∈ (udpMachine .gnu).visited .create twoPackets,
      ∃ d ∈ s.sent, d = ⟨[66], (⟨10, 0, 0, 2⟩, 7), some ⟨unresolved, true, 0⟩⟩ ∧ ¬d.Addressed .gnu := by
  refine ⟨twoPackets.foldl (UdpState.apply .gnu) .create, ?visited, _, ?sent, rfl, ?stale⟩
  case visited =>
    refine Lib.EventMachine.mem_visited_iff.mpr ⟨_, List.prefix_refl _, ?_⟩
    exact Lib.EventMachine.total_run _ _ _
  case sent => decide +kernel
  case stale =>
    rintro ⟨begun, hbegun, hreturned, -⟩
    obtain rfl := Option.some.inj hbegun
    exact hreturned rfl

end HostArduino.wifi
