import HostArduino.Http.Message
import HostArduino.Http.Redirect

namespace HostArduino.http

open Lib

/-- A text on one line: it has no line feed. -/
def OneLine (s : Text) : Prop :=
  10 ∉ s

instance (s : Text) : Decidable (OneLine s) :=
  inferInstanceAs (Decidable (10 ∉ s))

namespace OneLine

variable {s t : Text}

theorem append (hs : OneLine s) (ht : OneLine t) : OneLine (s ++ t) := by
  rw [OneLine, List.mem_append, not_or]
  exact ⟨hs, ht⟩

theorem not_crlf (hs : OneLine s) : ¬crlf <:+: s := fun hwithin =>
  hs (hwithin.subset (by decide))

theorem of_subset (ht : OneLine t) (h : s ⊆ t) : OneLine s := fun hmem => ht (h hmem)

theorem substring (hs : OneLine s) (beginIndex endIndex : Nat) : OneLine (substring s beginIndex endIndex) := by
  simp only [http.substring]
  split
  · exact List.not_mem_nil
  · exact hs.of_subset fun b hb => List.mem_of_mem_drop (List.mem_of_mem_take hb)

theorem substringFrom (hs : OneLine s) (beginIndex : Nat) : OneLine (substringFrom s beginIndex) :=
  hs.substring _ _

theorem dropCarriageReturn (hs : OneLine s) : OneLine (dropCarriageReturn s) := by
  rw [http.dropCarriageReturn]
  split
  · exact hs.of_subset (List.dropLast_subset _)
  · exact hs

theorem trim (hs : OneLine s) : OneLine (trim s) := by
  refine hs.of_subset fun b hb => ?_
  have hback := List.dropWhile_subset _ (List.mem_reverse.mp hb)
  exact List.dropWhile_subset _ (List.mem_reverse.mp hback)

end OneLine

/-- A line that `readHTTPLine` returns ends in front of the line feed. -/
theorem Client.oneLine_readLineLoop (timeout_ms : UInt16) (c : Client) {out : Text} (hout : OneLine out) :
    OneLine (readLineLoop timeout_ms c out).1 := by
  fun_induction readLineLoop timeout_ms c out with
  | case1 c out waited hstall => exact hout
  | case2 c out waited hready next hread => exact hout
  | case3 c out waited hready next rest hread => exact hout.dropCarriageReturn
  | case4 c out waited hready next ch rest hread hother ih =>
    exact ih (hout.append (by simpa [OneLine] using Ne.symm hother))

theorem ResponseHead.oneLine_addLine {head : ResponseHead} (hhead : OneLine head.location_) {line : Text}
    (hline : OneLine line) : OneLine (head.addLine line).location_ := by
  rw [addLine]
  split
  · exact hhead
  · dsimp only
    split
    · exact hhead
    · split
      · split <;> exact hhead
      · split
        · exact (hline.substringFrom _).trim
        · exact hhead

theorem Client.oneLine_readHeaderLines (timeout_ms : UInt16) (c : Client) {head : ResponseHead}
    (hhead : OneLine head.location_) : OneLine (readHeaderLines timeout_ms c head).1.location_ := by
  fun_induction readHeaderLines timeout_ms c head with
  | case1 c head line c' hblank => exact hhead
  | case2 c head line c' hmore ih =>
    exact ih (ResponseHead.oneLine_addLine hhead (oneLine_readLineLoop timeout_ms c List.not_mem_nil))

namespace HTTPClient

/-- The texts a request is written from are on one line each. -/
structure OneLined (h : HTTPClient) : Prop where
  host_ : OneLine h.host_
  uri_ : OneLine h.uri_
  user_agent_ : OneLine h.user_agent_
  headers : ∀ header ∈ h.request_headers_, OneLine header.name ∧ OneLine header.value

/-- What a response names as the next place is on one line. -/
theorem oneLine_readResponseHead (h : HTTPClient) : OneLine h.readResponseHead.2.location_ := by
  have hempty : OneLine [] := List.not_mem_nil
  simp only [readResponseHead]
  split
  · exact hempty
  · simp only [Client.readResponseHead]
    split
    · exact hempty
    · exact Client.oneLine_readHeaderLines _ _ hempty

/-- `sendOnce` leaves what a request is written from, and gives an error or a location. -/
theorem sendOnce_oneLine (h : HTTPClient) (verb payload : Text) (reply : Reply) :
    ((h.sendOnce verb payload reply).1 < 0 ∨ OneLine (h.sendOnce verb payload reply).2.location_) ∧
      (h.OneLined → (h.sendOnce verb payload reply).2.OneLined) := by
  have hconnected : HTTPC_ERROR_NOT_CONNECTED < 0 := by decide
  have hrefused : HTTPC_ERROR_CONNECTION_REFUSED < 0 := by decide
  have hheader : HTTPC_ERROR_SEND_HEADER_FAILED < 0 := by decide
  have hpayload : HTTPC_ERROR_SEND_PAYLOAD_FAILED < 0 := by decide
  rw [sendOnce]
  split
  · exact ⟨Or.inl hconnected, id⟩
  · split
    · exact ⟨Or.inl hrefused, id⟩
    · dsimp only
      split
      · exact ⟨Or.inl hheader, fun h => ⟨h.host_, h.uri_, h.user_agent_, h.headers⟩⟩
      · split
        · exact ⟨Or.inl hpayload, fun h => ⟨h.host_, h.uri_, h.user_agent_, h.headers⟩⟩
        · refine ⟨Or.inr (oneLine_readResponseHead _), fun h => ?_⟩
          simp only [readResponseHead]
          exact ⟨h.host_, h.uri_, h.user_agent_, h.headers⟩

theorem oneLine_hostAndPort (use_https_ : Bool) {host_ : Text} (port_ : UInt16) (hhost : OneLine host_) :
    OneLine (hostAndPort use_https_ host_ port_) := by
  have hport : OneLine (formatUnsigned port_.toNat) := fun hmem =>
    absurd (isdigit_formatUnsigned _ 10 hmem) (by decide)
  have hcolon : OneLine (ascii ":") := by decide
  rw [hostAndPort]
  split
  · exact (hhost.append hcolon).append hport
  · exact hhost

/-- What a location is resolved to. -/
theorem OneLined.resolveLocation {h : HTTPClient} (hline : h.OneLined) {loc : Text} (hloc : OneLine loc) :
    OneLine (h.resolveLocation loc) := by
  have hslash : OneLine (ascii "/") := by decide
  have hscheme : OneLine (if h.use_https_ then ascii "https://" else ascii "http://") := by
    split <;> decide
  have hbase := hscheme.append (oneLine_hostAndPort h.use_https_ h.port_ hline.host_)
  rw [HTTPClient.resolveLocation]
  split
  · exact List.not_mem_nil
  · split
    · exact hloc
    · dsimp only
      split
      · exact hbase.append hloc
      · refine (hbase.append ?_).append hloc
        split
        · exact hline.uri_.substring _ _
        · exact hslash

theorem OneLined.parseAuthority {h : HTTPClient} (hline : h.OneLined) {authority : Text}
    (hauthority : OneLine authority) : (h.parseAuthority authority).2.OneLined := by
  rw [HTTPClient.parseAuthority]
  split
  · exact ⟨hauthority.substring _ _, hline.uri_, hline.user_agent_, hline.headers⟩
  · exact ⟨hauthority, hline.uri_, hline.user_agent_, hline.headers⟩

theorem OneLined.parseRest {h : HTTPClient} (hline : h.OneLined) {rest : Text} (hrest : OneLine rest) :
    (h.parseRest rest).2.OneLined := by
  have hslash : OneLine (ascii "/") := by decide
  rw [HTTPClient.parseRest]
  split
  · refine OneLined.parseAuthority ?_ (hrest.substring _ _)
    exact ⟨hline.host_, hrest.substringFrom _, hline.user_agent_, hline.headers⟩
  · refine OneLined.parseAuthority ?_ hrest
    exact ⟨hline.host_, hslash, hline.user_agent_, hline.headers⟩

theorem OneLined.parseURL {h : HTTPClient} (hline : h.OneLined) {url : Text} (hurl : OneLine url) :
    (h.parseURL url).2.OneLined := by
  have hempty : OneLine [] := List.not_mem_nil
  simp only [HTTPClient.parseURL]
  split
  · exact ⟨hempty, hempty, hline.user_agent_, hline.headers⟩
  · split
    · refine OneLined.parseRest ?_ (hurl.substringFrom _)
      exact ⟨hempty, hempty, hline.user_agent_, hline.headers⟩
    · split
      · exact ⟨hempty, hempty, hline.user_agent_, hline.headers⟩
      · refine OneLined.parseRest ?_ (hurl.substringFrom _)
        exact ⟨hempty, hempty, hline.user_agent_, hline.headers⟩

theorem OneLined.begin {h : HTTPClient} (hline : h.OneLined) (haveOpenSSL : Bool) {url : Text}
    (hurl : OneLine url) : (h.begin haveOpenSSL url).2.OneLined := by
  have hended : h.end_.OneLined := ⟨hline.host_, hline.uri_, hline.user_agent_, by simp [end_]⟩
  have hparsed := hended.parseURL hurl
  simp only [HTTPClient.begin]
  split
  · exact hparsed
  · split
    · exact hparsed
    · exact ⟨hparsed.host_, hparsed.uri_, hparsed.user_agent_, hparsed.headers⟩

end HTTPClient

/-- A request whose texts are on one line each. -/
structure Request.OneLined (r : Request) : Prop where
  verb : OneLine r.verb
  uri_ : OneLine r.uri_
  host_ : OneLine r.host_
  user_agent_ : OneLine r.user_agent_
  headers : ∀ header ∈ r.request_headers_, OneLine header.name ∧ OneLine header.value

namespace Request

/-- The lines of a one-lined request are the ones it is written from. -/
theorem OneLined.lines {r : Request} (h : r.OneLined) (rest : Text) :
    Lib.lines crlf_ne (r.text ++ (r.payload ++ rest)) = some (r.message.headLines, r.payload ++ rest) := by
  refine Message.lines_crlf.mpr ⟨?_, fun line hline => ⟨Message.headLines_ne_nil hline, ?_⟩⟩
  · rw [← List.append_assoc, ← r.text_message, Message.text]
    simp only [List.append_assoc]
    rfl
  · have hheaders : ∀ header ∈ r.request_headers_, ¬crlf <:+: header.name ∧ ¬crlf <:+: header.value :=
      fun header hheader => ⟨(h.headers header hheader).1.not_crlf, (h.headers header hheader).2.not_crlf⟩
    exact r.lines_message.mpr
      ⟨⟨h.verb.not_crlf, h.uri_.not_crlf⟩, ⟨h.host_.not_crlf, h.user_agent_.not_crlf⟩, hheaders⟩ line hline

end Request

namespace Attempt

variable {haveOpenSSL : Bool} {a a' : Attempt} {reply : Reply}

theorem oneLined_request (hclient : a.client.OneLined) (hverb : OneLine a.current_verb) : a.request.OneLined :=
  ⟨hverb, hclient.uri_, hclient.host_, hclient.user_agent_, hclient.headers⟩

theorem redirect_of_follow (hfollow : a.follow haveOpenSSL = .inr a') :
    0 ≤ a.last_code ∧ a.redirect haveOpenSSL = .inr a' := by
  have hstatus := (follow_inr hfollow).status_redirect
  refine ⟨nonneg_of_isRedirectStatus hstatus, ?_⟩
  simp only [follow] at hfollow
  split at hfollow
  · cases hfollow
  split at hfollow
  · cases hfollow
  split at hfollow
  · cases hfollow
  split at hfollow
  · cases hfollow
  split at hfollow
  · cases hfollow
  split at hfollow
  · cases hfollow
  exact hfollow

/-- A redirect goes on with a verb and an origin on one line each. -/
theorem oneLined_redirect (hclient : a.client.OneLined) (hlocation : OneLine a.client.location_)
    (hverb : OneLine a.current_verb) (hredirect : a.redirect haveOpenSSL = .inr a') :
    a'.client.OneLined ∧ OneLine a'.current_verb := by
  have hclosed : a.client.close_connection.OneLined :=
    ⟨hclient.host_, hclient.uri_, hclient.user_agent_, hclient.headers⟩
  have hbegun := hclosed.begin haveOpenSSL (hclient.resolveLocation hlocation)
  simp only [redirect] at hredirect
  split at hredirect
  · cases hredirect
  · split at hredirect
    · cases hredirect
    · obtain rfl := Sum.inr.inj hredirect
      refine ⟨hbegun, ?_⟩
      dsimp only
      split
      · decide
      · exact hverb

/-- The next round's request is written from one-lined texts again, wherever it goes. -/
theorem oneLined_react (hclient : a.client.OneLined) (hverb : OneLine a.current_verb)
    (hreact : a.react haveOpenSSL reply = .inr a') : a'.client.OneLined ∧ OneLine a'.current_verb := by
  obtain ⟨hlocation, hkept⟩ := a.client.sendOnce_oneLine a.current_verb a.current_payload reply
  obtain ⟨hnonneg, hredirect⟩ := redirect_of_follow hreact
  have hcode : ¬(a.client.sendOnce a.current_verb a.current_payload reply).1 < 0 := Int.not_lt.mpr hnonneg
  refine oneLined_redirect ?_ ?_ ?_ hredirect
  · exact hkept hclient
  · exact hlocation.resolve_left hcode
  · exact hverb

end Attempt

/-- Whatever servers answer, and wherever they redirect to: if the texts that the first
    request is written from are on one line each, then every request of `sendRequest` is taken
    apart, by whoever receives it, into exactly the lines it was written as, with its payload
    behind the empty one. No redirect gets a header, or a second request, into a connection. -/
theorem redirects_inject_nothing (haveOpenSSL : Bool) (server : List Request → Reply) {h : HTTPClient}
    (hclient : h.OneLined) {verb : Text} (hverb : OneLine verb) (payload : Text) :
    ∀ r ∈ (h.sendRequest haveOpenSSL server verb payload).2, ∀ rest,
      Lib.lines crlf_ne (r.text ++ (r.payload ++ rest)) = some (r.message.headLines, r.payload ++ rest) := by
  have hall : ∀ r ∈ (h.sendRequest haveOpenSSL server verb payload).2, r.OneLined := by
    rw [HTTPClient.sendRequest]
    split
    · exact List.forall_mem_nil _
    · dsimp only
      rw [Attempt.sendLoop_eq_run (UInt16.le_iff_toNat_le.mpr (Nat.zero_le _))]
      refine Lib.Dialogue.run_rule
        (P := fun requests (a : Attempt) =>
          (∀ r ∈ requests, Request.OneLined r) ∧ a.client.OneLined ∧ OneLine a.current_verb)
        (Q := fun requests _ => ∀ r ∈ requests, Request.OneLined r)
        ?_ ?_ ⟨List.forall_mem_nil _, hclient, hverb⟩
      · rintro seen a a' ⟨hseen, ha, hcurrent⟩ hreact
        refine ⟨List.forall_mem_append.mpr ⟨hseen, ?_⟩, Attempt.oneLined_react ha hcurrent hreact⟩
        exact List.forall_mem_singleton.mpr (Attempt.oneLined_request ha hcurrent)
      · rintro seen a result ⟨hseen, ha, hcurrent⟩ -
        refine List.forall_mem_append.mpr ⟨hseen, ?_⟩
        exact List.forall_mem_singleton.mpr (Attempt.oneLined_request ha hcurrent)
  exact fun r hr rest => (hall r hr).lines rest

/-- A location that goes on behind a carriage return. -/
theorem redirects_inject_nothing_return :
    ∃ (h : HTTPClient) (r : Request),
      r ∈ (h.sendRequest false
        (answering [ascii "HTTP/1.1 302 Found\r\nLocation: /b\rCookie: c\r\n\r\n", ascii "HTTP/1.1 200 OK\r\n\r\n"])
        (ascii "GET") []).2 ∧
      r.uri_ = ascii "/b\rCookie: c" ∧
      Lib.lines crlf_ne (r.text ++ (r.payload ++ [])) = some (r.message.headLines, r.payload ++ []) := by
  refine ⟨(HTTPClient.initial.begin false (ascii "http://host/a")).2.setFollowRedirects
      .HTTPC_FORCE_FOLLOW_REDIRECTS, ⟨false, ascii "host", 80, ascii "GET", ascii "/b\rCookie: c", [], [], []⟩,
    ?mem, rfl, redirects_inject_nothing false _ ⟨?host, ?uri, ?agent, ?headers⟩ ?verb [] _ ?mem []⟩
  case mem => decide +kernel
  case host => decide +kernel
  case uri => decide +kernel
  case agent => decide +kernel
  case headers => decide +kernel
  case verb => decide +kernel

end HostArduino.http
