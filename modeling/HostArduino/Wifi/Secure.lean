import HostArduino.Lib.EventMachine
import HostArduino.Lib.SharedPtr
import HostArduino.Wifi.WiFiClient

namespace HostArduino.wifi

open Lib

/-- Which of the two objects of the TLS library are there. -/
structure TlsState where
  ctx : Bool
  ssl : Bool
  deriving DecidableEq, Repr

/-- The frees of `stop`, which the destructor repeats. -/
def TlsState.free (tls : TlsState) : TlsState :=
  { tls with ctx := false, ssl := false }

/-- What a handle on a `WiFiClientSecure` points to. -/
structure WiFiClientSecure where
  state : WiFiClient
  tls : TlsState
  deriving DecidableEq, Repr

/-- How the TLS library would answer a call about the session: the result `n` and, if it is
    1, the byte; whether the error is one of the two that ask to try again; and the bytes
    pending before and after. -/
structure SessionAnswer where
  pending : Int
  n : Int
  byte : UInt8
  wants : Bool
  extra : Int

namespace WiFiClientSecure

def available (c : WiFiClientSecure) (ssl : SessionAnswer) : Int :=
  if !c.tls.ssl then 0
  else if ssl.pending > 0 then ssl.pending
  else if ssl.n == 1 then 1 + (if ssl.extra > 0 then ssl.extra else 0)
  else 0

/-- A byte, or `none` for -1. -/
def read (c : WiFiClientSecure) (ssl : SessionAnswer) : Option UInt8 :=
  if !c.tls.ssl then none
  else if ssl.n == 1 then some ssl.byte
  else none

def peek (c : WiFiClientSecure) (ssl : SessionAnswer) : Option UInt8 :=
  if !c.tls.ssl then none
  else if ssl.n == 1 then some ssl.byte
  else none

def connected (c : WiFiClientSecure) (ssl : SessionAnswer) : Bool :=
  if !c.tls.ssl then false
  else if ssl.pending > 0 then true
  else if ssl.n > 0 then true
  else if ssl.n == 0 then false
  else ssl.wants

def operator_bool (c : WiFiClientSecure) : Bool :=
  c.tls.ssl

def usable (c : WiFiClientSecure) : Bool :=
  c.state.sock && c.tls.ssl

/-- Without a session every call gives up at once, whatever has come in. -/
theorem gives_up {c : WiFiClientSecure} (h : c.operator_bool = false) (ssl : SessionAnswer) :
    c.available ssl = 0 ∧ c.read ssl = none ∧ c.peek ssl = none ∧ c.connected ssl = false := by
  have hssl : c.tls.ssl = false := h
  simp [available, read, peek, connected, hssl]

end WiFiClientSecure

variable {ι : Type*} [DecidableEq ι]

/-- The handles on plain clients. The last one on a state closes its socket. -/
abbrev Clients (ι : Type*) [DecidableEq ι] :=
  SharedPtrs ι WiFiClient

def Clients.step (s : Clients ι) (e : Lifetime ι) : Clients ι :=
  s.apply .unconnected WiFiClient.close_socket e

/-- The handles on secure clients, each two pointers made and copied together. -/
structure SecureClients (ι : Type*) [DecidableEq ι] where
  states : SharedPtrs ι WiFiClient
  tls : SharedPtrs ι TlsState
  same_next : tls.next = states.next
  paired : ∀ n, tls.address n = states.address n

namespace SecureClients

/-- One handle, whose `connect` has just succeeded. -/
def single (n : ι) (stream : List UInt8) : SecureClients ι where
  states := .single n (.fresh stream)
  tls := .single n ⟨true, true⟩
  same_next := rfl
  paired m := by rw [SharedPtrs.address_single, SharedPtrs.address_single]

variable (c : SecureClients ι)

def client (n : ι) : Option WiFiClientSecure :=
  (c.states.address n).map fun a => ⟨c.states.objects a, c.tls.objects a⟩

def stop (n : ι) : SecureClients ι where
  states := c.states.modify n WiFiClient.stop
  tls := c.tls.modify n TlsState.free
  same_next := by rw [SharedPtrs.next_modify, SharedPtrs.next_modify, c.same_next]
  paired m := by rw [SharedPtrs.address_modify, SharedPtrs.address_modify, c.paired]

/-- What the compiler generates: the two pointers copied, assigned and let go in turn. -/
def lifetime (e : Lifetime ι) : SecureClients ι where
  states := c.states.apply .unconnected WiFiClient.close_socket e
  tls := c.tls.apply ⟨false, false⟩ TlsState.free e
  same_next := SharedPtrs.next_apply c.same_next e _ _ _ _
  paired := SharedPtrs.address_apply c.same_next c.paired e _ _ _ _

/-- Only the destructor is written out in the class, and it stops the client. -/
def step : Lifetime ι → SecureClients ι
  | .destroy n => (c.stop n).lifetime (.destroy n)
  | e => c.lifetime e

end SecureClients

/-- A handle is destroyed only when it is the last one on the connection, which is the
    object that the run started with, or is not on it. -/
def SecureClients.SparesOthers (c : SecureClients ι) : Lifetime ι → Prop
  | .destroy n =>
    c.states.address n = some 0 → ∀ m, c.states.address m = some 0 → m = n
  | _ => True

def clientsMachine : EventMachine (Clients ι) (Lifetime ι) :=
  .guarded (fun s e => s.admits e) Clients.step

def secureMachine : EventMachine (SecureClients ι) (Lifetime ι) :=
  .guarded (fun c e => c.states.admits e) SecureClients.step

/-- The connection is open as long as a handle is on it. -/
def SecureClients.Intact (c : SecureClients ι) : Prop :=
  ∀ m, c.states.address m = some 0 →
    (c.states.objects 0).sock = true ∧ (c.tls.objects 0).ssl = true

theorem intact_iff {c : SecureClients ι} :
    c.Intact ↔ ∀ m, c.states.address m = some 0 →
      ∃ client, c.client m = some client ∧ client.usable = true := by
  refine forall_congr' fun m => imp_congr_right fun hm => ?_
  rw [SecureClients.client, hm, Option.map_some]
  simp [WiFiClientSecure.usable]

theorem lifetime_intact {c : SecureClients ι} (hfirst : 0 < c.states.next) (h : c.Intact)
    (e : Lifetime ι) : (c.lifetime e).Intact := by
  intro m hm
  have htls : (c.lifetime e).tls.address m = some 0 := ((c.lifetime e).paired m).trans hm
  obtain ⟨hstate, n, hn⟩ := SharedPtrs.apply_objects hfirst hm
  obtain ⟨hssl, -⟩ := SharedPtrs.apply_objects (c.same_next ▸ hfirst) htls
  change ((c.states.apply _ _ e).objects 0).sock = true ∧ ((c.tls.apply _ _ e).objects 0).ssl = true
  rw [hstate, hssl]
  exact h n hn

theorem stop_intact {c : SecureClients ι} {n : ι} (hn : c.states.address n ≠ some 0)
    (h : c.Intact) : (c.stop n).Intact := by
  intro m hm
  have htls : c.tls.address n ≠ some 0 := (c.paired n).trans_ne hn
  change ((c.states.modify n _).objects 0).sock = true ∧ ((c.tls.modify n _).objects 0).ssl = true
  rw [SharedPtrs.objects_modify_of_ne hn, SharedPtrs.objects_modify_of_ne htls]
  exact h m ((SharedPtrs.address_modify n m _).symm.trans hm)

/-- Destroying a handle on the connection closes it under all the others. -/
theorem destroy_intact_iff {c : SecureClients ι} {n : ι} (hfirst : 0 < c.states.next)
    (hn : c.states.address n = some 0) :
    (c.step (.destroy n)).Intact ↔ ∀ m, c.states.address m = some 0 → m = n := by
  have haddress : ∀ m, (c.step (.destroy n)).states.address m =
      if m = n then none else c.states.address m := by
    intro m
    change ((c.stop n).states.drop _ n).address m = _
    rw [SharedPtrs.address_drop]
    exact congrArg (ite (m = n) none) (SharedPtrs.address_modify n m _)
  constructor
  · intro hintact m hm
    by_contra hne
    have hleft : (c.step (.destroy n)).states.address m = some 0 := by
      rw [haddress, if_neg hne, hm]
    have hfirst' : 0 < (c.stop n).states.next := by
      change 0 < (c.states.modify n _).next
      rwa [SharedPtrs.next_modify]
    have hkept := (SharedPtrs.apply_objects hfirst' hleft).1
    have hopen : ((c.step (.destroy n)).states.objects 0).sock = true := (hintact m hleft).1
    have hstopped : (c.stop n).states.objects 0 = (c.states.objects 0).stop :=
      SharedPtrs.objects_modify hn _
    change (((c.stop n).states.apply .unconnected _ (.destroy n)).objects 0).sock = true at hopen
    rw [hkept, hstopped] at hopen
    cases hopen
  · intro hlast m hm
    rw [haddress] at hm
    split at hm
    case isTrue => cases hm
    case isFalse hne => exact absurd (hlast m hm) hne

theorem step_intact_iff {c : SecureClients ι} (hfirst : 0 < c.states.next) (h : c.Intact)
    (e : Lifetime ι) : (c.step e).Intact ↔ c.SparesOthers e := by
  cases e with
  | construct n => exact ⟨fun _ => trivial, fun _ => lifetime_intact hfirst h _⟩
  | copy src dst => exact ⟨fun _ => trivial, fun _ => lifetime_intact hfirst h _⟩
  | assign dst src => exact ⟨fun _ => trivial, fun _ => lifetime_intact hfirst h _⟩
  | destroy n =>
    by_cases hn : c.states.address n = some 0
    · rw [destroy_intact_iff hfirst hn]
      exact ⟨fun hlast _ => hlast, fun hspares => hspares hn⟩
    · refine ⟨fun _ hon => absurd hon hn, fun _ => ?_⟩
      refine lifetime_intact ?_ (stop_intact hn h) _
      change 0 < (c.states.modify n _).next
      rwa [SharedPtrs.next_modify]

theorem next_le_step (c : SecureClients ι) (e : Lifetime ι) :
    c.states.next ≤ (c.step e).states.next := by
  cases e with
  | destroy n =>
    have hstop : (c.stop n).states.next = c.states.next := SharedPtrs.next_modify n _
    exact hstop ▸ SharedPtrs.next_le_apply _ _ _
  | construct n => exact SharedPtrs.next_le_apply _ _ _
  | copy src dst => exact SharedPtrs.next_le_apply _ _ _
  | assign dst src => exact SharedPtrs.next_le_apply _ _ _

/-- A step that is not possible destroys no handle. -/
theorem sparesOthers_of_disabled {c : SecureClients ι} {e : Lifetime ι}
    (h : secureMachine.step c e = none) : c.SparesOthers e := by
  cases e with
  | destroy n =>
    intro hn
    have hadmits : c.states.admits (.destroy n) = true := by
      simp [SharedPtrs.admits, SharedPtrs.live, hn]
    have hnot := EventMachine.guarded_step_eq_none.mp h
    exact absurd hadmits hnot
  | construct n => trivial
  | copy src dst => trivial
  | assign dst src => trivial

theorem single_intact (n : ι) (stream : List UInt8) : (SecureClients.single n stream).Intact :=
  fun _ _ => ⟨rfl, rfl⟩

/-- The plain clients keep the connection open whatever happens to the handles. -/
theorem clients_usable (n : ι) (stream : List UInt8) (es : List (Lifetime ι)) :
    ∀ s ∈ clientsMachine.visited (SharedPtrs.single n (.fresh stream)) es,
      ∀ m, s.address m = some 0 → ∃ client, s.get m = some client ∧ client.sock = true := by
  have hvisited : ∀ s ∈ clientsMachine.visited (SharedPtrs.single n (.fresh stream)) es,
      0 < s.next ∧ ∀ m, s.address m = some 0 → (s.objects 0).sock = true := by
    refine EventMachine.visited_invariant ?_ ⟨Nat.one_pos, fun _ _ => rfl⟩
    rintro s e s' ⟨hfirst, hopen⟩ hstep
    obtain ⟨-, rfl⟩ := EventMachine.guarded_step_eq_some.mp hstep
    refine ⟨Nat.lt_of_lt_of_le hfirst (SharedPtrs.next_le_apply _ _ _), fun m hm => ?_⟩
    obtain ⟨hkept, k, hk⟩ := SharedPtrs.apply_objects hfirst hm
    have hkept : (s.step e).objects 0 = s.objects 0 := hkept
    rw [hkept]
    exact hopen k hk
  intro s hs m hm
  refine ⟨s.objects 0, ?_, (hvisited s hs).2 m hm⟩
  rw [SharedPtrs.get, hm, Option.map_some]

/-- Whatever copies are made, assigned and destroyed, the handles that are left on a secure
    connection can all use it exactly in the runs that destroy none of them before the
    last; on a plain connection they can in every run. -/
theorem secure_copies_usable_iff (n : ι) (stream : List UInt8) (es : List (Lifetime ι)) :
    ((∀ c ∈ secureMachine.visited (.single n stream) es, ∀ m, c.states.address m = some 0 →
        ∃ client, c.client m = some client ∧ client.usable = true) ↔
      secureMachine.Meets SecureClients.SparesOthers (.single n stream) es) ∧
    ∀ s ∈ clientsMachine.visited (SharedPtrs.single n (.fresh stream)) es,
      ∀ m, s.address m = some 0 → ∃ client, s.get m = some client ∧ client.sock = true := by
  refine ⟨?_, clients_usable n stream es⟩
  refine Iff.trans (forall₂_congr fun c _ => intact_iff.symm) ?_
  refine EventMachine.visited_iff_meets_of_invariant (I := fun c => 0 < c.states.next) ?_ ?_
    (fun c e _ => sparesOthers_of_disabled) Nat.one_pos (single_intact n stream)
  · intro c e c' hfirst hstep
    obtain ⟨-, rfl⟩ := EventMachine.guarded_step_eq_some.mp hstep
    exact Nat.lt_of_lt_of_le hfirst (next_le_step c e)
  · intro c e c' hfirst hintact hstep
    obtain ⟨-, rfl⟩ := EventMachine.guarded_step_eq_some.mp hstep
    exact step_intact_iff hfirst hintact e

/-- A client passed by value: the copy `1` made for the call takes the connection with it
    when the call returns, and every call on the original then gives up. -/
theorem secure_closed_by_copy :
    (¬∀ c ∈ secureMachine.visited (.single 0 []) [.copy 0 1, .destroy 1], ∀ m,
        c.states.address m = some 0 → ∃ client, c.client m = some client ∧ client.usable = true) ∧
      ∀ client, (((SecureClients.single 0 []).step (.copy 0 1)).step (.destroy 1)).client 0 = some client →
        ∀ ssl, client.available ssl = 0 ∧ client.read ssl = none ∧ client.peek ssl = none ∧
          client.connected ssl = false := by
  have hclosed : ∀ client,
      (((SecureClients.single 0 []).step (.copy 0 1)).step (.destroy 1)).client 0 = some client →
        client.operator_bool = false := by
    intro client hclient
    obtain rfl := Option.some.inj hclient
    rfl
  refine ⟨fun hall => ?_, fun client hclient => WiFiClientSecure.gives_up (hclosed client hclient)⟩
  have hmem : ((SecureClients.single 0 []).step (.copy 0 1)).step (.destroy 1) ∈
      secureMachine.visited (.single 0 []) [.copy 0 1, .destroy 1] :=
    EventMachine.mem_visited_iff.mpr ⟨_, List.prefix_refl _, rfl⟩
  obtain ⟨client, hclient, husable⟩ := hall _ hmem 0 rfl
  have hssl : client.tls.ssl = false := hclosed client hclient
  rw [WiFiClientSecure.usable, hssl, Bool.and_false] at husable
  cases husable

end HostArduino.wifi
