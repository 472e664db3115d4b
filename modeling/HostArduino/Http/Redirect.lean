import HostArduino.Http.Request
import HostArduino.Lib.Dialogue

namespace HostArduino.http

/-- What makes a request the one after `prev`, whose response had this status. -/
structure FollowUp (mode : FollowRedirects) (prev : Request) (status : Int) (next : Request) : Prop where
  status_redirect : isRedirectStatus status = true
  mode_ne : mode ≠ .HTTPC_DISABLE_FOLLOW_REDIRECTS
  strict : mode = .HTTPC_STRICT_FOLLOW_REDIRECTS → prev.verb = ascii "GET" ∨ prev.verb = ascii "HEAD"
  redirected_eq : (next.verb, next.payload) = Attempt.redirected mode status prev.verb prev.payload
  headers_eq : next.request_headers_ = []

/-- The first request is the one asked for; each further one follows up the response to
    the requests before it. -/
structure Expected (h : HTTPClient) (server : List Request → Reply) (verb payload : Text)
    (seen : List Request) (r : Request) : Prop where
  first : seen = [] → r = h.request verb payload
  next : ∀ prev, seen.getLast? = some prev →
    FollowUp h.follow_mode_ prev ((server seen).status h.timeout_ms_) r

/-- The requests one call of `sendRequest` makes, and the code it returns. -/
structure Follows (h : HTTPClient) (server : List Request → Reply) (verb payload : Text)
    (requests : List Request) (code : Int) : Prop where
  ne_nil : requests ≠ []
  length_le : requests.length ≤ h.redirect_limit_.toNat + 1
  expected : Lib.Dialogue.Justified (Expected h server verb payload) requests
  code_eq : code < 0 ∨ code = (server requests).status h.timeout_ms_
  single : h.follow_mode_ = .HTTPC_DISABLE_FOLLOW_REDIRECTS ∨ h.owned_client_ = false →
    requests.length = 1

namespace Attempt

variable {haveOpenSSL : Bool} {server : List Request → Reply} {a a' : Attempt} {seen : List Request}

/-- The loop of `sendRequest` as one party of a dialogue with a server. -/
def dialogue (haveOpenSSL : Bool) : Lib.Dialogue Attempt Request Reply (Int × HTTPClient) where
  ask := request
  react := react haveOpenSSL
  patience := roundsLeft
  patience_react _ _ _ := roundsLeft_react

theorem Continues.hop_le {status : Int} (hnext : Continues a a' status)
    (hle : a.hop ≤ a.client.redirect_limit_) :
    a'.hop.toNat = a.hop.toNat + 1 ∧ a'.hop ≤ a'.client.redirect_limit_ := by
  have hne : a.hop.toNat ≠ a.client.redirect_limit_.toNat := fun heq =>
    hnext.hop_ne (UInt16.toNat_inj.mp heq)
  have hle' := UInt16.le_iff_toNat_le.mp hle
  have hlimit := a.client.redirect_limit_.toNat_lt
  rw [UInt16.le_iff_toNat_le, hnext.settings.limit_eq, hnext.hop_eq, UInt16.toNat_add, UInt16.toNat_one]
  omega

/-- The loop never leaves through its condition. -/
theorem sendLoop_eq_run (hle : a.hop ≤ a.client.redirect_limit_) :
    sendLoop haveOpenSSL server a seen = (dialogue haveOpenSSL).run server a seen := by
  fun_induction sendLoop haveOpenSSL server a seen with
  | case1 a seen _ result hreact => exact (Lib.Dialogue.run_of_inl (d := dialogue haveOpenSSL) hreact).symm
  | case2 a seen _ a' hreact ih =>
    rw [Lib.Dialogue.run_of_inr (d := dialogue haveOpenSSL) hreact]
    exact ih ((react_inr hreact).hop_le hle).2
  | case3 a seen hnot => exact absurd hle hnot

/-- What holds before each round of the loop. -/
structure Pending (h : HTTPClient) (server : List Request → Reply) (verb payload : Text)
    (seen : List Request) (a : Attempt) : Prop where
  client : a.client.client_.isSome = true
  settings : HTTPClient.SameSettings h a.client
  owned : a.client.owned_client_ = h.owned_client_
  hop_eq : a.hop.toNat = seen.length
  hop_le : a.hop ≤ a.client.redirect_limit_
  followed : seen ≠ [] →
    h.follow_mode_ ≠ .HTTPC_DISABLE_FOLLOW_REDIRECTS ∧ h.owned_client_ = true
  expected : Lib.Dialogue.Justified (Expected h server verb payload) (seen ++ [a.request])

variable {h : HTTPClient} {verb payload : Text}

theorem Pending.react_inr (hpending : Pending h server verb payload seen a)
    (hreact : a.react haveOpenSSL (server (seen ++ [a.request])) = .inr a') :
    Pending h server verb payload (seen ++ [a.request]) a' := by
  have hnext := Attempt.react_inr hreact
  obtain ⟨hhop, hhop_le⟩ := hnext.hop_le hpending.hop_le
  have howned : h.owned_client_ = true := hpending.owned.symm.trans hnext.owned
  have hmode : a.client.follow_mode_ = h.follow_mode_ := hpending.settings.mode_eq
  have htimeout : a.client.timeout_ms_ = h.timeout_ms_ := hpending.settings.timeout_eq
  have hfollowUp : Expected h server verb payload (seen ++ [a.request]) a'.request := by
    refine ⟨by simp, ?_⟩
    intro prev hprev
    obtain rfl : a.request = prev := by simpa using hprev
    rw [← hmode, ← htimeout]
    exact ⟨hnext.status_redirect, hnext.mode_ne, hnext.strict, hnext.redirected_eq, hnext.headers'⟩
  exact {
    client := hnext.client'
    settings := hpending.settings.trans hnext.settings
    owned := hnext.owned'.trans howned.symm
    hop_eq := by rw [hhop, hpending.hop_eq, List.length_append, List.length_singleton]
    hop_le := hhop_le
    followed := fun _ => ⟨hmode ▸ hnext.mode_ne, howned⟩
    expected := hpending.expected.concat hfollowUp }

theorem Pending.react_inl {last : Int × HTTPClient} (hpending : Pending h server verb payload seen a)
    (hreact : a.react haveOpenSSL (server (seen ++ [a.request])) = .inl last) :
    Follows h server verb payload (seen ++ [a.request]) last.1 := by
  have hhop := UInt16.le_iff_toNat_le.mp hpending.hop_le
  rw [hpending.hop_eq, hpending.settings.limit_eq] at hhop
  have hcode := Attempt.react_inl hpending.client hreact
  rw [hpending.settings.timeout_eq] at hcode
  refine ⟨by simp, by simpa using hhop, hpending.expected, hcode, ?_⟩
  intro hsingle
  by_contra hlength
  have hseen : seen ≠ [] := by
    rintro rfl
    exact hlength rfl
  obtain ⟨hmode, howned⟩ := hpending.followed hseen
  simp [hmode, howned] at hsingle

/-- A round with a client of the caller's is the last one. -/
theorem run_of_external (howned : a.client.owned_client_ = false) :
    ((dialogue haveOpenSSL).run server a seen).2 = seen ++ [a.request] := by
  cases hreact : (dialogue haveOpenSSL).react a (server (seen ++ [a.request])) with
  | inl result =>
    rw [Lib.Dialogue.run_of_inl (d := dialogue haveOpenSSL) hreact]
    rfl
  | inr a' =>
    have hnext := react_inr hreact
    rw [hnext.owned] at howned
    cases howned

end Attempt

/-- Through a client that the caller has passed to `begin`, one request is made. -/
theorem sendRequest_beginWith (haveOpenSSL : Bool) (server : List Request → Reply) {client : Client}
    {h : HTTPClient} {url : Text} (hbegin : (h.beginWith client url).1 = true) (verb payload : Text) :
    ((h.beginWith client url).2.sendRequest haveOpenSSL server verb payload).2 =
      [(h.beginWith client url).2.request verb payload] := by
  obtain ⟨howned, hclient, -⟩ := HTTPClient.beginWith_eq_true hbegin
  rw [HTTPClient.sendRequest, if_neg (by simp [hclient])]
  dsimp only
  rw [Attempt.sendLoop_eq_run (UInt16.le_iff_toNat_le.mpr (Nat.zero_le _)), Attempt.run_of_external howned]
  rfl

/-- `sendRequest` always returns, whatever the server answers. It makes at most
    `redirect_limit_` requests after the first, each of them because the response before
    it was a redirect that its mode follows, and without the headers of the first; it
    returns the status of the last response or an error. Where redirects are not followed,
    or the client is an external one, it makes one request. -/
theorem sendRequest_follows (haveOpenSSL : Bool) (server : List Request → Reply) {h : HTTPClient}
    (hclient : h.client_.isSome = true) (verb payload : Text) :
    Follows h server verb payload (h.sendRequest haveOpenSSL server verb payload).2
      (h.sendRequest haveOpenSSL server verb payload).1.1 := by
  let a : Attempt :=
    { client := h
      current_verb := verb
      current_payload := payload
      last_code := HTTPC_ERROR_CONNECTION_LOST
      hop := 0 }
  have hhop : a.hop ≤ a.client.redirect_limit_ := UInt16.le_iff_toNat_le.mpr (Nat.zero_le _)
  have hrun : h.sendRequest haveOpenSSL server verb payload =
      (Attempt.dialogue haveOpenSSL).run server a [] := by
    have hsome : ¬h.client_.isNone = true := by
      rw [Option.isNone_iff_eq_none]
      exact Option.isSome_iff_ne_none.mp hclient
    rw [HTTPClient.sendRequest, if_neg hsome]
    exact Attempt.sendLoop_eq_run hhop
  have hstart : Attempt.Pending h server verb payload [] a := by
    refine ⟨hclient, ⟨rfl, rfl, rfl⟩, rfl, rfl, hhop, by simp, ?_⟩
    exact Lib.Dialogue.justified_nil.concat ⟨fun _ => rfl, by simp⟩
  rw [hrun]
  exact Lib.Dialogue.run_rule
    (Q := fun requests (last : Int × HTTPClient) => Follows h server verb payload requests last.1)
    (fun _ _ _ => Attempt.Pending.react_inr) (fun _ _ _ => Attempt.Pending.react_inl) hstart

/-- A server that accepts every request, and answers each with the text given for it. -/
def answering (responses : List Text) (seen : List Request) : Reply where
  connects := true
  wrote_h := (seen.getLast?.map (·.text.length)).getD 0
  wrote_b := (seen.getLast?.map (·.payload.length)).getD 0
  response :=
    let unread := responses.getD (seen.length - 1) []
    { wire := { now := 0, available := unread.length, arrivals := [], closes := true }, unread }

theorem sendRequest_follows_found :
    ∃ (h : HTTPClient) (server : List Request → Reply),
      Follows h server (ascii "POST") (ascii "x")
        (h.sendRequest false server (ascii "POST") (ascii "x")).2
        (h.sendRequest false server (ascii "POST") (ascii "x")).1.1 ∧
      (h.sendRequest false server (ascii "POST") (ascii "x")).1.1 = 200 ∧
      (h.sendRequest false server (ascii "POST") (ascii "x")).2.map Request.verb =
        [ascii "POST", ascii "GET"] := by
  refine ⟨((HTTPClient.initial.begin false (ascii "http://host/a")).2.setFollowRedirects
      .HTTPC_FORCE_FOLLOW_REDIRECTS).setAuthorization (some (ascii "secret")),
    answering [ascii "HTTP/1.1 302 Found\r\nLocation: /b\r\n\r\n", ascii "HTTP/1.1 200 OK\r\n\r\n"],
    sendRequest_follows false _ ?client _ _, ?code, ?verbs⟩
  case client => decide +kernel
  case code => decide +kernel
  case verbs => decide +kernel

end HostArduino.http
