import HostArduino.Lib.Descriptors
import HostArduino.Wifi.Secure

namespace HostArduino.wifi

open Lib

/-- The shared state of a client with the number of its socket. -/
structure ClientState where
  client : WiFiClient
  fd : Nat
  deriving DecidableEq, Repr

namespace ClientState

/-- `sock`, if it is not the invalid one. -/
def descriptor (e : ClientState) : Option Nat :=
  if e.client.sock then some e.fd else none

def unconnected : ClientState where
  client := .unconnected
  fd := 0

def withClient (e : ClientState) (client : WiFiClient) : ClientState :=
  { e with client }

/-- What `~State` does. -/
def destroy (e : ClientState) : ClientState :=
  e.withClient e.client.close_socket

end ClientState

/-- What the system does for `connect`. -/
inductive ConnectAnswer where
  | noSocket (err : Int32)
  | refused (fd : Nat) (err : Int32)
  | connected (fd : Nat) (stream : List UInt8)
  deriving DecidableEq, Repr

/-- The socket that the system gives out. -/
def ConnectAnswer.socket : ConnectAnswer → Option Nat
  | .noSocket _ => none
  | .refused fd _ | .connected fd _ => some fd

/-- `connect`, with what it leaves in the table. -/
def ClientState.connect (e : ClientState) (table : Descriptors) (answer : ConnectAnswer) : ClientState × Descriptors :=
  let table := table.closeAny e.descriptor
  match answer with
  | .noSocket err => (e.withClient { e.client.stop with last_error := err }, table)
  | .refused fd err => (e.withClient { e.client.stop with last_error := err }, (table.open_ fd).close fd)
  | .connected fd stream =>
    ({ client := { e.client.stop with sock := true, last_error := 0, unread := stream }, fd }, table.open_ fd)

/-- What the system does for `WiFiServer::begin`. -/
inductive BeginAnswer where
  | noSocket
  | notBound (fd : Nat)
  | notListening (fd : Nat)
  | listening (fd : Nat)
  deriving DecidableEq, Repr

def BeginAnswer.socket : BeginAnswer → Option Nat
  | .noSocket => none
  | .notBound fd | .notListening fd | .listening fd => some fd

/-- The clients of a program by name, the listening sockets of its servers, and the sockets
    that the system has open for it. -/
structure Sockets (ι κ : Type*) [DecidableEq ι] where
  clients : SharedPtrs ι ClientState
  listen_sock_ : κ → Option Nat
  table : Descriptors

/-- What happens to the clients and the servers. The destructor of a server is its `end_`. -/
inductive SocketEvent (ι κ : Type*) where
  | lifetime (e : Lifetime ι)
  | call (n : ι) (call : ClientCall)
  | stop (n : ι)
  | connect (n : ι) (answer : ConnectAnswer)
  | begin_ (k : κ) (answer : BeginAnswer)
  | end_ (k : κ)
  | available (k : κ) (n : ι) (accepted : Option (Nat × List UInt8))

variable {ι κ : Type*} [DecidableEq ι] [DecidableEq κ]

/-- The object whose last handle an event takes away. -/
def released (clients : SharedPtrs ι ClientState) : Lifetime ι → Option Nat
  | .destroy n => (clients.address n).filter fun a => !(clients.erase n).held a
  | .assign dst src => (clients.address dst).filter fun a => !(clients.copy src dst).held a
  | .construct _ | .copy _ _ => none

namespace Sockets

def none : Sockets ι κ where
  clients := .empty .unconnected
  listen_sock_ _ := .none
  table := .none

/-- Acts on the state behind a client, and closes what that state no longer holds. -/
def act (s : Sockets ι κ) (n : ι) (f : WiFiClient → WiFiClient) : Sockets ι κ :=
  match s.clients.address n with
  | .none => s
  | some a =>
    let e := s.clients.objects a
    { s with
      clients := s.clients.modify n fun e => e.withClient (f e.client)
      table := if e.client.sock && !(f e.client).sock then s.table.close e.fd else s.table }

/-- `WiFiServer::end`. -/
def end_ (s : Sockets ι κ) (k : κ) : Sockets ι κ :=
  { s with
    listen_sock_ := Function.update s.listen_sock_ k .none
    table := s.table.closeAny (s.listen_sock_ k) }

def begin_ (s : Sockets ι κ) (k : κ) (answer : BeginAnswer) : Sockets ι κ :=
  let s := s.end_ k
  match answer with
  | .noSocket => s
  | .notBound fd | .notListening fd => { s with table := (s.table.open_ fd).close fd }
  | .listening fd =>
    { s with listen_sock_ := Function.update s.listen_sock_ k (some fd), table := s.table.open_ fd }

/-- `WiFiServer::available`, whose client gets the name `n`. -/
def available (s : Sockets ι κ) (k : κ) (n : ι) (accepted : Option (Nat × List UInt8)) : Sockets ι κ :=
  if (s.listen_sock_ k).isNone then { s with clients := s.clients.make n .unconnected }
  else
    match accepted with
    | .none => { s with clients := s.clients.make n .unconnected }
    | some (fd, stream) =>
      { s with clients := s.clients.make n { client := .fresh stream, fd }, table := s.table.open_ fd }

/-- An event happens to clients that are there or are made, and a socket that the system
    gives out is not open. -/
def step (s : Sockets ι κ) : SocketEvent ι κ → Option (Sockets ι κ)
  | .lifetime e =>
    if s.clients.admits e then
      some
        { s with
          clients := s.clients.apply .unconnected ClientState.destroy e
          table := s.table.closeAny ((released s.clients e).bind fun a => (s.clients.objects a).descriptor) }
    else .none
  | .call n call => if s.clients.live n then some (s.act n fun c => (c.call call).2) else .none
  | .stop n => if s.clients.live n then some (s.act n WiFiClient.stop) else .none
  | .connect n answer =>
    match s.clients.address n with
    | .none => .none
    | some a =>
      let e := s.clients.objects a
      if (s.table.closeAny e.descriptor).Fresh answer.socket then
        some
          { s with
            clients := s.clients.modify n fun e => (e.connect s.table answer).1
            table := (e.connect s.table answer).2 }
      else .none
  | .begin_ k answer =>
    if (s.end_ k).table.Fresh answer.socket then some (s.begin_ k answer) else .none
  | .end_ k => some (s.end_ k)
  | .available k n accepted =>
    if s.clients.live n = false ∧ s.table.Fresh (accepted.map Prod.fst) then
      some (s.available k n accepted)
    else .none

def machine : Lib.EventMachine (Sockets ι κ) (SocketEvent ι κ) where
  step := step

/-- Who holds which socket: the states behind the clients, by number, and the servers. -/
def own (s : Sockets ι κ) : Nat ⊕ κ → Option Nat :=
  Sum.elim (fun a => (s.clients.objects a).descriptor) s.listen_sock_

variable {s s' : Sockets ι κ}

omit [DecidableEq κ] in
@[simp] theorem own_inl (s : Sockets ι κ) (a : Nat) : s.own (.inl a) = (s.clients.objects a).descriptor := rfl

omit [DecidableEq κ] in
@[simp] theorem own_inr (s : Sockets ι κ) (k : κ) : s.own (.inr k) = s.listen_sock_ k := rfl

theorem descriptor_withClient {e : ClientState} {client : WiFiClient} (hsock : client.sock = e.client.sock) :
    (e.withClient client).descriptor = e.descriptor := by
  simp [ClientState.descriptor, ClientState.withClient, hsock]

theorem descriptor_closed {e : ClientState} (hsock : e.client.sock = false) : e.descriptor = .none :=
  if_neg (by simp [hsock])

theorem descriptor_destroy (e : ClientState) : e.destroy.descriptor = .none :=
  descriptor_closed rfl

/-- Every socket that is open has one holder, which is a server or a state that a client
    still points to. -/
structure Sound (s : Sockets ι κ) : Prop where
  owned : Owned s.own s.table
  held : ∀ a fd, (s.clients.objects a).descriptor = some fd → s.clients.held a = true

omit [DecidableEq κ] in
theorem sound_none : (none : Sockets ι κ).Sound where
  owned := Owned.none.congr fun b => by
    cases b <;> rfl
  held a fd h := nomatch h

/-- None of the calls opens a socket. -/
theorem call_sock (c : WiFiClient) (call : ClientCall) (hsock : (c.call call).2.sock = true) : c.sock = true := by
  have hrecv : ∀ (c : WiFiClient) answer len, (c.recv answer len).2.sock = c.sock := by
    intro c answer len
    cases answer with
    | bytes n =>
      unfold WiFiClient.recv
      simp only
      split <;> rfl
    | _ => rfl
  by_contra hclosed
  have hfalse : c.sock = false := by simpa using hclosed
  cases call with
  | available n => exact hclosed hsock
  | read answer => cases hpeek : c.peek_byte <;> simp [WiFiClient.call, WiFiClient.read, hpeek, hfalse] at hsock
  | readBuffer buf size answer =>
    simp only [WiFiClient.call, WiFiClient.readBuffer, hfalse] at hsock
    split at hsock <;> simp [hfalse] at hsock
  | peek answer => cases hpeek : c.peek_byte <;> simp [WiFiClient.call, WiFiClient.peek, hpeek, hfalse] at hsock
  | connected answer =>
    cases hpeek : c.peek_byte <;> simp [WiFiClient.call, WiFiClient.connected, hpeek, hfalse] at hsock

theorem held_modify (clients : SharedPtrs ι ClientState) (n : ι) (f : ClientState → ClientState) (a : Nat) :
    (clients.modify n f).held a = clients.held a := by
  rw [Bool.eq_iff_iff, SharedPtrs.held_iff, SharedPtrs.held_iff]
  simp

/-- What is done to one state shows for it alone. -/
theorem own_modify {n : ι} {a : Nat} (ha : s.clients.address n = some a) (f : ClientState → ClientState)
    (table : Descriptors) (b : Nat ⊕ κ) :
    ({ s with clients := s.clients.modify n f, table } : Sockets ι κ).own b =
      Function.update s.own (.inl a) (f (s.clients.objects a)).descriptor b := by
  cases b with
  | inr k => rfl
  | inl b =>
    rw [own_inl]
    by_cases hb : b = a
    · subst hb
      rw [SharedPtrs.objects_modify ha, Function.update_self]
    · rw [Function.update_of_ne (by simpa using hb), SharedPtrs.objects_modify_of_ne]
      · rfl
      · rw [ha]
        exact fun heq => hb (Option.some.inj heq).symm

/-- A state that a client points to may get and lose its socket. -/
theorem Sound.modify (h : s.Sound) {n : ι} {a : Nat} (ha : s.clients.address n = some a)
    {f : ClientState → ClientState} {table : Descriptors}
    (howned : Owned (Function.update s.own (.inl a) (f (s.clients.objects a)).descriptor) table) :
    ({ s with clients := s.clients.modify n f, table } : Sockets ι κ).Sound where
  owned := howned.congr (own_modify ha f table)
  held := by
    intro b fd hb
    rw [held_modify]
    by_cases hba : b = a
    · rw [hba]
      exact SharedPtrs.held_iff.mpr ⟨n, ha⟩
    · have hsame := own_modify ha f table (.inl b)
      rw [Function.update_of_ne (by simpa using hba)] at hsame
      exact h.held b fd (hsame.symm.trans hb)

theorem Sound.act (h : s.Sound) (n : ι) {f : WiFiClient → WiFiClient}
    (hf : ∀ c : WiFiClient, (f c).sock = true → c.sock = true) : (s.act n f).Sound := by
  unfold Sockets.act
  split
  · exact h
  · rename_i a ha
    refine h.modify ha ?_
    by_cases hcloses : ((s.clients.objects a).client.sock && !(f (s.clients.objects a).client).sock) = true
    · rw [if_pos hcloses]
      obtain ⟨hsock, hclosed⟩ := Bool.and_eq_true_iff.mp hcloses
      have hown : s.own (.inl a) = some (s.clients.objects a).fd := if_pos hsock
      have hreleased := h.owned.release (.inl a)
      rw [hown] at hreleased
      rwa [descriptor_closed (by simpa [ClientState.withClient] using hclosed)]
    · rw [if_neg hcloses]
      have hsame : (f (s.clients.objects a).client).sock = (s.clients.objects a).client.sock := by
        cases hbefore : (s.clients.objects a).client.sock with
        | true => simpa [hbefore] using hcloses
        | false =>
          cases hafter : (f (s.clients.objects a).client).sock with
          | true => exact absurd (hf _ hafter) (by simp [hbefore])
          | false => rfl
      rw [descriptor_withClient hsame, ← own_inl, Function.update_eq_self]
      exact h.owned

theorem Sound.connect (h : s.Sound) {n : ι} {a : Nat} (ha : s.clients.address n = some a)
    {answer : ConnectAnswer}
    (hfresh : (s.table.closeAny (s.clients.objects a).descriptor).Fresh answer.socket) :
    ({ s with
      clients := s.clients.modify n fun e => (e.connect s.table answer).1
      table := ((s.clients.objects a).connect s.table answer).2 } : Sockets ι κ).Sound := by
  refine h.modify ha ?_
  have hreleased := h.owned.release (.inl a)
  rw [own_inl] at hreleased
  cases answer with
  | noSocket err =>
    rw [descriptor_closed rfl]
    exact hreleased
  | refused fd err =>
    rw [descriptor_closed rfl]
    simp only [ClientState.connect]
    rw [Descriptors.close_open _ (hfresh fd rfl)]
    exact hreleased
  | connected fd stream =>
    have hacquired := hreleased.acquire (b := .inl a) (Function.update_self ..) hfresh
    rw [Function.update_idem] at hacquired
    exact hacquired

/-- What is done to one server shows for it alone. -/
theorem own_listen (k : κ) (fd : Option Nat) (table : Descriptors) (b : Nat ⊕ κ) :
    ({ s with listen_sock_ := Function.update s.listen_sock_ k fd, table } : Sockets ι κ).own b =
      Function.update s.own (.inr k) fd b := by
  cases b with
  | inl a => rfl
  | inr j =>
    change Function.update s.listen_sock_ k fd j = _
    by_cases hj : j = k
    · subst hj
      rw [Function.update_self, Function.update_self]
    · rw [Function.update_of_ne hj, Function.update_of_ne (by simpa using hj), own_inr]

theorem Sound.end_ (h : s.Sound) (k : κ) : (s.end_ k).Sound where
  owned := (h.owned.release (.inr k)).congr (own_listen k .none _)
  held := h.held

theorem Sound.begin_ (h : s.Sound) (k : κ) {answer : BeginAnswer}
    (hfresh : (s.end_ k).table.Fresh answer.socket) : (s.begin_ k answer).Sound := by
  have hended := h.end_ k
  cases answer with
  | noSocket => exact hended
  | notBound fd =>
    simp only [Sockets.begin_]
    rw [Descriptors.close_open _ (hfresh fd rfl)]
    exact hended
  | notListening fd =>
    simp only [Sockets.begin_]
    rw [Descriptors.close_open _ (hfresh fd rfl)]
    exact hended
  | listening fd =>
    refine ⟨?_, hended.held⟩
    have hnone : (s.end_ k).own (.inr k) = .none := Function.update_self ..
    exact (hended.owned.acquire hnone hfresh).congr (own_listen k (some fd) _)

omit [DecidableEq κ] in
/-- A state that was not made yet is held by nobody and has no socket. -/
theorem Sound.next_descriptor (h : s.Sound) : (s.clients.objects s.clients.next).descriptor = .none := by
  cases hdescriptor : (s.clients.objects s.clients.next).descriptor with
  | none => rfl
  | some fd =>
    obtain ⟨n, hn⟩ := SharedPtrs.held_iff.mp (h.held _ fd hdescriptor)
    exact absurd (s.clients.bound n _ hn) (Nat.lt_irrefl _)

theorem own_make (n : ι) (e : ClientState) (table : Descriptors) (b : Nat ⊕ κ) :
    ({ s with clients := s.clients.make n e, table } : Sockets ι κ).own b =
      Function.update s.own (.inl s.clients.next) e.descriptor b := by
  cases b with
  | inr k => rfl
  | inl a =>
    rw [own_inl]
    by_cases ha : a = s.clients.next
    · subst ha
      rw [Function.update_self]
      exact congrArg ClientState.descriptor (Function.update_self ..)
    · rw [Function.update_of_ne (by simpa using ha)]
      exact congrArg ClientState.descriptor (Function.update_of_ne ha ..)

/-- A client under a new name has a state of its own, and a socket that was not open. -/
theorem Sound.make (h : s.Sound) {n : ι} (hnew : s.clients.live n = false) {e : ClientState}
    (hfresh : s.table.Fresh e.descriptor) :
    ({ s with clients := s.clients.make n e, table := s.table.openAny e.descriptor } : Sockets ι κ).Sound where
  owned := (h.owned.acquire (b := .inl s.clients.next) h.next_descriptor hfresh).congr (own_make n e _)
  held := by
    intro a fd ha
    by_cases hnext : a = s.clients.next
    · exact SharedPtrs.held_iff.mpr ⟨n, by rw [SharedPtrs.address_make, if_pos rfl, hnext]⟩
    · have hsame := own_make (s := s) n e (s.table.openAny e.descriptor) (.inl a)
      rw [Function.update_of_ne (by simpa using hnext)] at hsame
      refine SharedPtrs.held_of_address (fun m hm => ?_) (h.held a fd (hsame.symm.trans ha))
      rw [SharedPtrs.address_make, if_neg]
      · exact hm
      · rintro rfl
        simp [SharedPtrs.live, hm] at hnew

theorem Sound.available (h : s.Sound) (k : κ) {n : ι} (hnew : s.clients.live n = false)
    {accepted : Option (Nat × List UInt8)} (hfresh : s.table.Fresh (accepted.map Prod.fst)) :
    (s.available k n accepted).Sound := by
  have hunconnected := h.make hnew (e := .unconnected) nofun
  unfold Sockets.available
  split
  · exact hunconnected
  · cases accepted with
    | none => exact hunconnected
    | some accepted => exact h.make hnew (e := { client := .fresh accepted.2, fd := accepted.1 }) hfresh

/-- A handle is made or redirected, and the state it leaves closes its socket if no handle
    is left on it. -/
theorem Sound.redirect (h : s.Sound) {clients : SharedPtrs ι ClientState}
    (hobjects : ∀ a, clients.objects a = s.clients.objects a) {a : Nat}
    (hkept : ∀ b, b ≠ a → s.clients.held b = true → clients.held b = true) :
    ({ s with
      clients := clients.release ClientState.destroy a
      table := s.table.closeAny ((if clients.held a then .none else some a : Option Nat).bind fun a =>
        (s.clients.objects a).descriptor) } : Sockets ι κ).Sound := by
  unfold SharedPtrs.release
  by_cases hheld : clients.held a = true
  · rw [if_pos hheld, if_pos hheld]
    refine ⟨h.owned.congr fun b => ?_, fun b fd hb => ?_⟩
    · cases b with
      | inr k => rfl
      | inl b => exact congrArg ClientState.descriptor (hobjects b)
    · by_cases hba : b = a
      · rw [hba]
        exact hheld
      · exact hkept b hba (h.held b fd (hobjects b ▸ hb))
  · rw [if_neg hheld, if_neg hheld]
    have hdestroyed : ∀ b, (Function.update clients.objects a (clients.objects a).destroy b).descriptor =
        Function.update s.own (.inl a) .none (.inl b) := by
      intro b
      by_cases hba : b = a
      · rw [hba, Function.update_self, Function.update_self, descriptor_destroy]
      · rw [Function.update_of_ne hba, Function.update_of_ne (by simpa using hba), hobjects, own_inl]
    refine ⟨(h.owned.release (.inl a)).congr fun b => ?_, fun b fd hb => ?_⟩
    · cases b with
      | inr k => rfl
      | inl b => exact hdestroyed b
    · have hb' := (hdestroyed b).symm.trans hb
      by_cases hba : b = a
      · rw [hba, Function.update_self] at hb'
        cases hb'
      · rw [Function.update_of_ne (by simpa using hba)] at hb'
        exact hkept b hba (h.held b fd hb')

theorem filter_held {clients clients' : SharedPtrs ι ClientState} {n : ι} {a : Nat}
    (ha : clients.address n = some a) :
    (clients.address n).filter (fun a => !clients'.held a) = if clients'.held a then .none else some a := by
  rw [ha, Option.filter_some]
  cases clients'.held a <;> rfl

theorem Sound.lifetime (h : s.Sound) {e : Lifetime ι} (hadmits : s.clients.admits e = true) :
    ({ s with
      clients := s.clients.apply .unconnected ClientState.destroy e
      table := s.table.closeAny ((released s.clients e).bind fun a => (s.clients.objects a).descriptor) } :
        Sockets ι κ).Sound := by
  cases e with
  | construct n => exact h.make (by simpa [SharedPtrs.admits] using hadmits) (e := .unconnected) nofun
  | copy src dst =>
    refine ⟨h.owned.congr fun b => ?_, fun a fd ha => ?_⟩
    · cases b with
      | inr k => rfl
      | inl a => exact congrArg ClientState.descriptor (SharedPtrs.objects_copy src dst a)
    · have hnew : s.clients.live dst = false := by
        simp only [SharedPtrs.admits, Bool.and_eq_true, Bool.not_eq_true'] at hadmits
        exact hadmits.2
      have hdescriptor := congrArg ClientState.descriptor (SharedPtrs.objects_copy (s := s.clients) src dst a)
      refine SharedPtrs.held_of_address (fun n hn => ?_) (h.held a fd (hdescriptor.symm.trans ha))
      rw [SharedPtrs.apply, SharedPtrs.address_copy, if_neg]
      · exact hn
      · rintro rfl
        simp [SharedPtrs.live, hn] at hnew
  | assign dst src =>
    obtain ⟨hdst, -⟩ := Bool.and_eq_true_iff.mp hadmits
    obtain ⟨a, ha⟩ := Option.isSome_iff_exists.mp hdst
    have happly : s.clients.apply .unconnected ClientState.destroy (.assign dst src) =
        (s.clients.copy src dst).release ClientState.destroy a := by
      simp only [SharedPtrs.apply, SharedPtrs.assign, ha]
    rw [released, filter_held ha, happly]
    refine h.redirect (SharedPtrs.objects_copy src dst) fun c hc => SharedPtrs.held_of_address fun n hn => ?_
    rw [SharedPtrs.address_copy, if_neg]
    · exact hn
    · rintro rfl
      exact hc (Option.some.inj (hn.symm.trans ha))
  | destroy n =>
    obtain ⟨a, ha⟩ := Option.isSome_iff_exists.mp hadmits
    have happly : s.clients.apply .unconnected ClientState.destroy (.destroy n) =
        (s.clients.erase n).release ClientState.destroy a := by
      simp only [SharedPtrs.apply, SharedPtrs.drop, ha]
    rw [released, filter_held ha, happly]
    have hobjects : ∀ b, (s.clients.erase n).objects b = s.clients.objects b := fun _ => rfl
    refine h.redirect hobjects fun c hc => SharedPtrs.held_of_address fun m hm => ?_
    rw [SharedPtrs.address_erase, if_neg]
    · exact hm
    · rintro rfl
      exact hc (Option.some.inj (hm.symm.trans ha))

theorem Sound.step (h : s.Sound) {e : SocketEvent ι κ} (hstep : s.step e = some s') : s'.Sound := by
  cases e with
  | lifetime e =>
    simp only [Sockets.step] at hstep
    split at hstep
    · rename_i hadmits
      obtain rfl := Option.some.inj hstep
      exact h.lifetime hadmits
    · cases hstep
  | call n call =>
    simp only [Sockets.step] at hstep
    split at hstep
    · obtain rfl := Option.some.inj hstep
      exact h.act n fun c => call_sock c call
    · cases hstep
  | stop n =>
    simp only [Sockets.step] at hstep
    split at hstep
    · obtain rfl := Option.some.inj hstep
      exact h.act n nofun
    · cases hstep
  | connect n answer =>
    simp only [Sockets.step] at hstep
    split at hstep
    · cases hstep
    · rename_i a ha
      split at hstep
      · rename_i hfresh
        obtain rfl := Option.some.inj hstep
        exact h.connect ha hfresh
      · cases hstep
  | begin_ k answer =>
    simp only [Sockets.step] at hstep
    split at hstep
    · rename_i hfresh
      obtain rfl := Option.some.inj hstep
      exact h.begin_ k hfresh
    · cases hstep
  | end_ k =>
    obtain rfl := Option.some.inj hstep
    exact h.end_ k
  | available k n accepted =>
    simp only [Sockets.step] at hstep
    split at hstep
    · rename_i henabled
      obtain rfl := Option.some.inj hstep
      exact h.available k henabled.1 henabled.2
    · cases hstep

end Sockets

end HostArduino.wifi
