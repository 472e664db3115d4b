import HostArduino.Http.Head
import HostArduino.Http.Url

namespace HostArduino.http

/-- What one call of `sendOnce` asks of a server: where it connects to, and what its
    request is written from. -/
structure Request where
  use_https_ : Bool
  host_ : Text
  port_ : UInt16
  verb : Text
  uri_ : Text
  user_agent_ : Text
  request_headers_ : List Header
  payload : Text
  deriving DecidableEq

namespace Request

def headerLine (header : Header) : Text :=
  header.name ++ ascii ": " ++ header.value ++ ascii "\r\n"

/-- The request in front of its payload. -/
def text (r : Request) : Text :=
  r.verb ++ ascii " " ++ (if 0 < r.uri_.length then r.uri_ else ascii "/") ++
    ascii " HTTP/1.1\r\nHost: " ++ hostAndPort r.use_https_ r.host_ r.port_ ++
    ascii "\r\nUser-Agent: " ++
    (if 0 < r.user_agent_.length then r.user_agent_ else ascii "host-arduino-core/1") ++
    ascii "\r\nConnection: close\r\n" ++
    (if 0 < r.payload.length then
      ascii "Content-Length: " ++ formatUnsigned r.payload.length ++ ascii "\r\n"
    else []) ++
    r.request_headers_.flatMap headerLine ++ ascii "\r\n"

end Request

/-- How a server takes a request: whether a connection can be made, how many bytes of the
    request and of its payload can be written, and what the client can then read. -/
structure Reply where
  connects : Bool
  wrote_h : Nat
  wrote_b : Nat
  response : Client
  deriving DecidableEq

/-- The status of the response, or the error reading it ends with. -/
def Reply.status (timeout_ms : UInt16) (reply : Reply) : Int :=
  (Client.readResponseHead timeout_ms reply.response).1

/-- A new `WiFiClient`, which is not connected yet. -/
def Client.new : Client where
  wire := { now := 0, available := 0, arrivals := [], closes := true }
  unread := []

def isRedirectStatus (code : Int) : Bool :=
  code == 301 || code == 302 || code == 303 || code == 307 || code == 308

namespace HTTPClient

def end_ (h : HTTPClient) : HTTPClient :=
  { h with
    owned_client_ := false
    client_ := none
    request_headers_ := []
    location_ := []
    content_length_ := -1 }

/-- `begin(url)`; the parameter is `HOST_ARDUINO_HAVE_OPENSSL`. -/
def begin (haveOpenSSL : Bool) (h : HTTPClient) (url : Text) : Bool × HTTPClient :=
  let parsed := h.end_.parseURL url
  let h := parsed.2
  if !parsed.1 then (false, h)
  else if h.use_https_ && !haveOpenSSL then (false, h)
  else (true, { h with owned_client_ := true, client_ := some Client.new })

/-- `begin(client, url)`. -/
def beginWith (client : Client) (h : HTTPClient) (url : Text) : Bool × HTTPClient :=
  let parsed := h.end_.parseURL url
  if !parsed.1 then (false, parsed.2)
  else (true, { parsed.2 with owned_client_ := false, client_ := some client })

/-- The request `sendOnce` writes. -/
def request (h : HTTPClient) (verb payload : Text) : Request where
  use_https_ := h.use_https_
  host_ := h.host_
  port_ := h.port_
  verb
  uri_ := h.uri_
  user_agent_ := h.user_agent_
  request_headers_ := h.request_headers_
  payload

/-- A null payload is an empty one. -/
def sendOnce (h : HTTPClient) (verb payload : Text) (reply : Reply) : Int × HTTPClient :=
  match h.client_ with
  | none => (HTTPC_ERROR_NOT_CONNECTED, h)
  | some c =>
    if !c.wire.connected && !reply.connects then (HTTPC_ERROR_CONNECTION_REFUSED, h)
    else
      let req := (h.request verb payload).text
      let h := { h with client_ := some reply.response }
      if reply.wrote_h ≠ req.length then (HTTPC_ERROR_SEND_HEADER_FAILED, h)
      else if 0 < payload.length ∧ reply.wrote_b ≠ payload.length then
        (HTTPC_ERROR_SEND_PAYLOAD_FAILED, h)
      else h.readResponseHead

def shouldFollowRedirect (h : HTTPClient) (verb : Text) : Bool :=
  match h.follow_mode_ with
  | .HTTPC_DISABLE_FOLLOW_REDIRECTS => false
  | .HTTPC_STRICT_FOLLOW_REDIRECTS => verb == ascii "GET" || verb == ascii "HEAD"
  | .HTTPC_FORCE_FOLLOW_REDIRECTS => true

def close_connection (h : HTTPClient) : HTTPClient :=
  { h with owned_client_ := false, client_ := none, content_length_ := -1, chunked_ := false }

end HTTPClient

/-- The variables of the loop of `sendRequest`. -/
structure Attempt where
  client : HTTPClient
  current_verb : Text
  current_payload : Text
  last_code : Int
  hop : UInt16

namespace Attempt

def request (a : Attempt) : Request :=
  a.client.request a.current_verb a.current_payload

/-- The end of the loop's body: the request to follow a redirect with, and its connection. -/
def redirect (haveOpenSSL : Bool) (a : Attempt) : (Int × HTTPClient) ⊕ Attempt :=
  let h := a.client
  let becomesGet := h.follow_mode_ = .HTTPC_FORCE_FOLLOW_REDIRECTS ∧
    (a.last_code = 301 ∨ a.last_code = 302 ∨ a.last_code = 303) ∧
    a.current_verb ≠ ascii "GET" ∧ a.current_verb ≠ ascii "HEAD"
  let resolved := h.resolveLocation h.location_
  if resolved.length = 0 then .inl (a.last_code, h)
  else
    let begun := h.close_connection.begin haveOpenSSL resolved
    if !begun.1 then .inl (HTTPC_ERROR_CONNECTION_REFUSED, begun.2)
    else
      .inr
        { client := begun.2
          current_verb := if becomesGet then ascii "GET" else a.current_verb
          current_payload := if becomesGet then [] else a.current_payload
          last_code := a.last_code
          hop := a.hop + 1 }

/-- The body of the loop behind `sendOnce`: what `sendRequest` returns, or the next round. -/
def follow (haveOpenSSL : Bool) (a : Attempt) : (Int × HTTPClient) ⊕ Attempt :=
  let h := a.client
  if a.last_code < 0 then .inl (a.last_code, h)
  else if !isRedirectStatus a.last_code then .inl (a.last_code, h)
  else if !h.shouldFollowRedirect a.current_verb then .inl (a.last_code, h)
  else if h.location_.length = 0 then .inl (a.last_code, h)
  else if !h.owned_client_ then .inl (a.last_code, h)
  else if a.hop = h.redirect_limit_ then .inl (a.last_code, h)
  else a.redirect haveOpenSSL

/-- One round of the loop. -/
def react (haveOpenSSL : Bool) (a : Attempt) (reply : Reply) : (Int × HTTPClient) ⊕ Attempt :=
  let sent := a.client.sendOnce a.current_verb a.current_payload reply
  { a with client := sent.2, last_code := sent.1 }.follow haveOpenSSL

end Attempt

namespace HTTPClient

/-- What a request leaves as it is: how long a read waits, and which redirects are followed. -/
structure SameSettings (h h' : HTTPClient) : Prop where
  timeout_eq : h'.timeout_ms_ = h.timeout_ms_
  mode_eq : h'.follow_mode_ = h.follow_mode_
  limit_eq : h'.redirect_limit_ = h.redirect_limit_

theorem SameSettings.trans {h h' h'' : HTTPClient} (hfirst : SameSettings h h')
    (hsecond : SameSettings h' h'') : SameSettings h h'' :=
  ⟨hsecond.timeout_eq.trans hfirst.timeout_eq, hsecond.mode_eq.trans hfirst.mode_eq,
    hsecond.limit_eq.trans hfirst.limit_eq⟩

/-- A client `begin` has set up: a new internal connection, and no header of its own. -/
theorem begin_eq_true {haveOpenSSL : Bool} {h : HTTPClient} {url : Text}
    (hbegin : (h.begin haveOpenSSL url).1 = true) :
    SameSettings h (h.begin haveOpenSSL url).2 ∧
      (h.begin haveOpenSSL url).2.owned_client_ = true ∧
      (h.begin haveOpenSSL url).2.client_ = some Client.new ∧
      (h.begin haveOpenSSL url).2.request_headers_ = [] := by
  obtain ⟨host_, uri_, port_, use_https_, hframe⟩ := parseURL_frame h.end_ url
  simp only [begin, hframe] at hbegin ⊢
  split at hbegin
  · cases hbegin
  · split at hbegin
    · cases hbegin
    · rename_i hparsed hopen
      rw [if_neg hparsed, if_neg hopen]
      exact ⟨⟨rfl, rfl, rfl⟩, rfl, rfl, rfl⟩

/-- `begin` with a client of the caller's: no internal one is set. -/
theorem beginWith_eq_true {client : Client} {h : HTTPClient} {url : Text}
    (hbegin : (h.beginWith client url).1 = true) :
    (h.beginWith client url).2.owned_client_ = false ∧
      (h.beginWith client url).2.client_ = some client ∧
      (h.beginWith client url).2.request_headers_ = [] := by
  obtain ⟨host_, uri_, port_, use_https_, hframe⟩ := parseURL_frame h.end_ url
  simp only [beginWith, hframe] at hbegin ⊢
  split at hbegin
  · cases hbegin
  · rename_i hparsed
    rw [if_neg hparsed]
    exact ⟨rfl, rfl, rfl⟩

theorem readResponseHead_spec {h : HTTPClient} {c : Client} (hclient : h.client_ = some c) :
    h.readResponseHead.1 = (Client.readResponseHead h.timeout_ms_ c).1 ∧
      SameSettings h h.readResponseHead.2 ∧
      h.readResponseHead.2.owned_client_ = h.owned_client_ ∧
      h.readResponseHead.2.client_.isSome = true := by
  refine ⟨?_, ⟨?_, ?_, ?_⟩, ?_, ?_⟩ <;> simp [readResponseHead, hclient]

/-- A request ends with an error or with the status of the response. -/
theorem sendOnce_spec {h : HTTPClient} (hclient : h.client_.isSome = true) (verb payload : Text)
    (reply : Reply) :
    ((h.sendOnce verb payload reply).1 < 0 ∨
        (h.sendOnce verb payload reply).1 = reply.status h.timeout_ms_) ∧
      SameSettings h (h.sendOnce verb payload reply).2 ∧
      (h.sendOnce verb payload reply).2.owned_client_ = h.owned_client_ ∧
      (h.sendOnce verb payload reply).2.client_.isSome = true := by
  obtain ⟨c, hc⟩ := Option.isSome_iff_exists.mp hclient
  have hrefused : HTTPC_ERROR_CONNECTION_REFUSED < 0 := by decide
  have hheader : HTTPC_ERROR_SEND_HEADER_FAILED < 0 := by decide
  have hpayload : HTTPC_ERROR_SEND_PAYLOAD_FAILED < 0 := by decide
  simp only [sendOnce, hc]
  split
  · exact ⟨Or.inl hrefused, ⟨rfl, rfl, rfl⟩, rfl, hclient⟩
  · split
    · exact ⟨Or.inl hheader, ⟨rfl, rfl, rfl⟩, rfl, rfl⟩
    · split
      · exact ⟨Or.inl hpayload, ⟨rfl, rfl, rfl⟩, rfl, rfl⟩
      · obtain ⟨hcode, hsettings, howned, hsome⟩ :=
          readResponseHead_spec (h := { h with client_ := some reply.response }) rfl
        exact ⟨Or.inr hcode, ⟨hsettings.timeout_eq, hsettings.mode_eq, hsettings.limit_eq⟩, howned, hsome⟩

end HTTPClient

theorem HTTPClient.shouldFollowRedirect_iff {h : HTTPClient} {verb : Text} :
    h.shouldFollowRedirect verb = true ↔
      h.follow_mode_ ≠ .HTTPC_DISABLE_FOLLOW_REDIRECTS ∧
        (h.follow_mode_ = .HTTPC_STRICT_FOLLOW_REDIRECTS → verb = ascii "GET" ∨ verb = ascii "HEAD") := by
  cases hmode : h.follow_mode_ <;> simp [HTTPClient.shouldFollowRedirect, hmode]

namespace Attempt

/-- How a redirect changes the verb and the payload. -/
def redirected (mode : FollowRedirects) (status : Int) (verb payload : Text) : Text × Text :=
  if mode = .HTTPC_FORCE_FOLLOW_REDIRECTS ∧ (status = 301 ∨ status = 302 ∨ status = 303) ∧
      verb ≠ ascii "GET" ∧ verb ≠ ascii "HEAD" then (ascii "GET", [])
  else (verb, payload)

/-- When the loop goes on after a response, and with what. -/
structure Continues (a a' : Attempt) (status : Int) : Prop where
  status_redirect : isRedirectStatus status = true
  mode_ne : a.client.follow_mode_ ≠ .HTTPC_DISABLE_FOLLOW_REDIRECTS
  strict : a.client.follow_mode_ = .HTTPC_STRICT_FOLLOW_REDIRECTS →
    a.current_verb = ascii "GET" ∨ a.current_verb = ascii "HEAD"
  owned : a.client.owned_client_ = true
  hop_ne : a.hop ≠ a.client.redirect_limit_
  hop_eq : a'.hop = a.hop + 1
  redirected_eq : (a'.current_verb, a'.current_payload) =
    redirected a.client.follow_mode_ status a.current_verb a.current_payload
  settings : HTTPClient.SameSettings a.client a'.client
  owned' : a'.client.owned_client_ = true
  client' : a'.client.client_.isSome = true
  headers' : a'.client.request_headers_ = []

variable {haveOpenSSL : Bool} {a a' : Attempt} {reply : Reply}

/-- The redirect that is followed goes to a client `begin` has set up. -/
theorem redirect_inr (hredirect : a.redirect haveOpenSSL = .inr a') :
    HTTPClient.SameSettings a.client a'.client ∧ a'.client.owned_client_ = true ∧
      a'.client.client_.isSome = true ∧ a'.client.request_headers_ = [] ∧ a'.hop = a.hop + 1 ∧
      (a'.current_verb, a'.current_payload) =
        redirected a.client.follow_mode_ a.last_code a.current_verb a.current_payload := by
  simp only [redirect] at hredirect
  split at hredirect
  · cases hredirect
  · split at hredirect
    · cases hredirect
    · rename_i _ hbegun
      simp only [Bool.not_eq_true', Bool.not_eq_false] at hbegun
      obtain ⟨hsettings, howned', hclient', hheaders'⟩ := HTTPClient.begin_eq_true hbegun
      obtain rfl := Sum.inr.inj hredirect
      refine ⟨⟨hsettings.timeout_eq, hsettings.mode_eq, hsettings.limit_eq⟩, howned', ?_, hheaders', rfl, ?_⟩
      · rw [hclient']
        rfl
      · rw [redirected]
        split <;> rfl

theorem redirect_inl {result : Int × HTTPClient} (hredirect : a.redirect haveOpenSSL = .inl result) :
    result.1 = a.last_code ∨ result.1 < 0 := by
  have hrefused : HTTPC_ERROR_CONNECTION_REFUSED < 0 := by decide
  simp only [redirect] at hredirect
  split at hredirect
  · cases hredirect
    exact Or.inl rfl
  · split at hredirect
    · cases hredirect
      exact Or.inr hrefused
    · cases hredirect

theorem follow_inr (hfollow : a.follow haveOpenSSL = .inr a') : Continues a a' a.last_code := by
  simp only [follow] at hfollow
  split at hfollow
  · cases hfollow
  split at hfollow
  · cases hfollow
  split at hfollow
  · cases hfollow
  split at hfollow
  · cases hfollow
  split at hfollow
  · cases hfollow
  split at hfollow
  · cases hfollow
  rename_i _ hstatus hverb _ howned hhop
  simp only [Bool.not_eq_true', Bool.not_eq_false] at hstatus hverb howned
  obtain ⟨hmode, hstrict⟩ := HTTPClient.shouldFollowRedirect_iff.mp hverb
  obtain ⟨hsettings, howned', hclient', hheaders', hhop', hredirected⟩ := redirect_inr hfollow
  exact ⟨hstatus, hmode, hstrict, howned, hhop, hhop', hredirected, hsettings, howned', hclient', hheaders'⟩

/-- Where the loop ends, it returns the last status or an error. -/
theorem follow_inl {result : Int × HTTPClient} (hfollow : a.follow haveOpenSSL = .inl result) :
    result.1 = a.last_code ∨ result.1 < 0 := by
  simp only [follow] at hfollow
  repeat' split at hfollow
  all_goals
    first
    | exact redirect_inl hfollow
    | cases hfollow; exact Or.inl rfl

theorem react_inl {result : Int × HTTPClient} (hclient : a.client.client_.isSome = true)
    (hreact : a.react haveOpenSSL reply = .inl result) :
    result.1 < 0 ∨ result.1 = reply.status a.client.timeout_ms_ := by
  obtain ⟨hcode, _⟩ := HTTPClient.sendOnce_spec hclient a.current_verb a.current_payload reply
  obtain hlast | herror := follow_inl hreact
  · rw [hlast]
    exact hcode
  · exact Or.inl herror

theorem client_of_react_inr (hreact : a.react haveOpenSSL reply = .inr a') :
    a.client.client_.isSome = true := by
  cases hclient : a.client.client_ with
  | some c => rfl
  | none =>
    have herror : HTTPC_ERROR_NOT_CONNECTED < 0 := by decide
    simp [react, HTTPClient.sendOnce, hclient, follow, herror] at hreact

theorem nonneg_of_isRedirectStatus {code : Int} (hredirect : isRedirectStatus code = true) : 0 ≤ code := by
  simp only [isRedirectStatus, Bool.or_eq_true, beq_iff_eq] at hredirect
  omega

theorem react_inr (hreact : a.react haveOpenSSL reply = .inr a') :
    Continues a a' (reply.status a.client.timeout_ms_) := by
  obtain ⟨hcode, hsettings, howned, _⟩ :=
    HTTPClient.sendOnce_spec (client_of_react_inr hreact) a.current_verb a.current_payload reply
  have hnext := follow_inr hreact
  have hnonneg := nonneg_of_isRedirectStatus hnext.status_redirect
  have hstatus : (a.client.sendOnce a.current_verb a.current_payload reply).1 =
      reply.status a.client.timeout_ms_ := hcode.resolve_left (Int.not_lt.mpr hnonneg)
  rw [← hstatus]
  exact {
    status_redirect := hnext.status_redirect
    mode_ne := hsettings.mode_eq ▸ hnext.mode_ne
    strict := hsettings.mode_eq ▸ hnext.strict
    owned := howned ▸ hnext.owned
    hop_ne := hsettings.limit_eq ▸ hnext.hop_ne
    hop_eq := hnext.hop_eq
    redirected_eq := hsettings.mode_eq ▸ hnext.redirected_eq
    settings := hsettings.trans hnext.settings
    owned' := hnext.owned'
    client' := hnext.client'
    headers' := hnext.headers' }

/-- How many rounds may still follow. -/
def roundsLeft (a : Attempt) : Nat :=
  (a.client.redirect_limit_ - a.hop).toNat

theorem roundsLeft_react (hreact : a.react haveOpenSSL reply = .inr a') :
    a'.roundsLeft < a.roundsLeft := by
  have hnext := react_inr hreact
  have hne : a.hop.toNat ≠ a.client.redirect_limit_.toNat := fun heq =>
    hnext.hop_ne (UInt16.toNat_inj.mp heq)
  have hhop := a.hop.toNat_lt
  have hlimit := a.client.redirect_limit_.toNat_lt
  rw [roundsLeft, roundsLeft, hnext.settings.limit_eq, hnext.hop_eq, UInt16.toNat_sub, UInt16.toNat_sub,
    UInt16.toNat_add, UInt16.toNat_one]
  omega

end Attempt

/-- The loop of `sendRequest`, with the requests made so far. -/
def sendLoop (haveOpenSSL : Bool) (server : List Request → Reply) (a : Attempt) (seen : List Request) :
    (Int × HTTPClient) × List Request :=
  if a.hop ≤ a.client.redirect_limit_ then
    match _hreact : a.react haveOpenSSL (server (seen ++ [a.request])) with
    | .inl result => (result, seen ++ [a.request])
    | .inr a' => sendLoop haveOpenSSL server a' (seen ++ [a.request])
  else ((a.last_code, a.client), seen)
termination_by a.roundsLeft
decreasing_by exact Attempt.roundsLeft_react _hreact

/-- A server answers by all requests it has seen; the result is the returned code, the
    client, and the requests made. -/
def HTTPClient.sendRequest (haveOpenSSL : Bool) (server : List Request → Reply) (h : HTTPClient)
    (verb payload : Text) : (Int × HTTPClient) × List Request :=
  if h.client_.isNone then ((HTTPC_ERROR_NOT_CONNECTED, h), [])
  else
    let a : Attempt :=
      { client := h
        current_verb := verb
        current_payload := payload
        last_code := HTTPC_ERROR_CONNECTION_LOST
        hop := 0 }
    sendLoop haveOpenSSL server a []

end HostArduino.http
