import HostArduino.Http.Decode
import HostArduino.Http.Redirect

namespace HostArduino.http

/-- The ways a body is put behind a head that announces it so: in chunks, by its length, or up
    to the end of the connection. -/
inductive Framed (head : HeadText) (body : Text) : Text → Prop
  | chunked (f : Framing) (hlength : body.length = f.size) (hchunked : head.fields.chunked_ = true) :
      Framed head body (f.encode body)
  | length (hchunked : head.fields.chunked_ = false) (hlength : head.fields.content_length_ = body.length) :
      Framed head body body
  | close (hchunked : head.fields.chunked_ = false) (hnone : head.fields.content_length_ = -1) :
      Framed head body body

/-- A well-formed response with a text for its body. -/
structure Page where
  head : HeadText
  body : Text
  nul_free : 0 ∉ body
  content : Text
  framed : Framed head body content

namespace Page

def bytes (page : Page) : Text :=
  page.head.encode ++ page.content

def status (page : Page) : Int :=
  statusCode (dropCarriageReturn page.head.status)

/-- A client that gets the page whole: every byte of it comes before a wait gives up. -/
structure Delivered (timeout_ms : UInt16) (page : Page) (c : Client) : Prop where
  unread : c.unread = page.bytes
  fed : c.Fed timeout_ms
  ready : page.bytes.length ≤ (Wire.feed timeout_ms).ready c.wire

variable {page : Page} {c : Client}

theorem Delivered.ready_eq {timeout_ms : UInt16} (h : page.Delivered timeout_ms c) :
    c.ready timeout_ms = page.bytes := by
  have hready : c.unread.length ≤ (Wire.feed timeout_ms).ready c.wire := by
    rw [h.unread]
    exact h.ready
  exact (List.take_of_length_le hready).trans h.unread

/-- The head is read, and then the body as it was before it was framed. -/
theorem readBody (h : HTTPClient) (hdelivered : page.Delivered h.timeout_ms_ c) :
    (h.readBody c).1 = page.body := by
  obtain ⟨head, body, hnul, content, hframed⟩ := page
  obtain ⟨wire, unread⟩ := c
  obtain rfl : unread = head.encode ++ content := hdelivered.unread
  have hready := hdelivered.ready
  have hnonNul := nonNul_of_not_mem hnul
  cases hframed with
  | chunked f hlength hchunked =>
    obtain ⟨kepts, hkepts, hresult⟩ := readBody_chunked h head f hlength hchunked hdelivered.fed hready
    rw [hresult, Lib.staged_all_eq_filter hkepts (Client.nulsLast_chunkData hnul),
      flatten_chunkData f.chunks hlength, List.filter_eq_self.mpr hnonNul]
  | length hchunked hlength =>
    have hannounced : wire.announced ≤ (head.encode ++ (body ++ [])).length := by
      rw [List.append_nil]
      exact hdelivered.fed
    obtain ⟨kept, hkept, hresult, -⟩ := readBody_length h head [] hchunked hlength hannounced hready
    rw [List.append_nil] at hresult
    rw [hresult, hkept.eq_self hnonNul]
  | close hchunked hnone =>
    have hall := hdelivered.ready_eq
    obtain ⟨c', hreads, hbody⟩ := h.readBody_head hdelivered.fed head hall
    have hplain := Client.readPlain_close hreads.fed (hreads.ready_eq hall) hnul []
    simp only [hbody, HTTPClient.getString, hchunked, Bool.false_eq_true, if_false, hnone, hplain,
      List.nil_append]

/-- The status and the location of a page, as the client finds them. -/
theorem readResponseHead (h : HTTPClient) (hclient : h.client_ = some c)
    (hdelivered : page.Delivered h.timeout_ms_ c) :
    h.readResponseHead.1 = page.status ∧ h.readResponseHead.2.location_ = page.head.fields.location_ := by
  obtain ⟨c', hhead, -⟩ := Client.readResponseHead_head hdelivered.fed page.head hdelivered.ready_eq
  simp only [HTTPClient.readResponseHead, hclient, hhead]
  exact ⟨rfl, trivial⟩

end Page

/-- A server that takes the request whole and answers it with the page. -/
structure Reply.Serves (timeout_ms : UInt16) (reply : Reply) (r : Request) (page : Page) : Prop where
  connects : reply.connects = true
  wrote_h : reply.wrote_h = r.text.length
  wrote_b : reply.wrote_b = r.payload.length
  delivered : page.Delivered timeout_ms reply.response

/-- What the client has of a page after its request. -/
structure HTTPClient.Holds (h : HTTPClient) (page : Page) : Prop where
  body : h.getString.1 = page.body
  location : h.location_ = page.head.fields.location_

theorem HTTPClient.sendOnce_serves {h : HTTPClient} {verb payload : Text} {reply : Reply} {page : Page}
    (hclient : h.client_.isSome = true) (hserves : reply.Serves h.timeout_ms_ (h.request verb payload) page) :
    (h.sendOnce verb payload reply).1 = page.status ∧ (h.sendOnce verb payload reply).2.Holds page := by
  obtain ⟨c, hc⟩ := Option.isSome_iff_exists.mp hclient
  have hwrote : ¬(0 < payload.length ∧ reply.wrote_b ≠ payload.length) := fun h => h.2 hserves.wrote_b
  have hsent : h.sendOnce verb payload reply =
      ({ h with client_ := some reply.response } : HTTPClient).readResponseHead := by
    simp only [sendOnce, hc, hserves.connects, hserves.wrote_h, Bool.not_true, Bool.and_false, Bool.false_eq_true,
      if_false, ne_eq, not_true_eq_false, hwrote]
  obtain ⟨hstatus, hlocation⟩ :=
    Page.readResponseHead { h with client_ := some reply.response } rfl hserves.delivered
  rw [hsent]
  exact ⟨hstatus, Page.readBody h hserves.delivered, hlocation⟩

namespace Attempt

variable {haveOpenSSL : Bool} {a a' : Attempt}

/-- Where the loop ends, the client is as the last response left it, unless a redirect could
    not be begun. -/
theorem follow_ends {result : Int × HTTPClient} (hfollow : a.follow haveOpenSSL = .inl result) :
    result = (a.last_code, a.client) ∨
      isRedirectStatus a.last_code = true ∧ result.1 = HTTPC_ERROR_CONNECTION_REFUSED := by
  simp only [follow] at hfollow
  split at hfollow
  · exact Or.inl (Sum.inl.inj hfollow).symm
  split at hfollow
  · exact Or.inl (Sum.inl.inj hfollow).symm
  rename_i hstatus
  split at hfollow
  · exact Or.inl (Sum.inl.inj hfollow).symm
  split at hfollow
  · exact Or.inl (Sum.inl.inj hfollow).symm
  split at hfollow
  · exact Or.inl (Sum.inl.inj hfollow).symm
  split at hfollow
  · exact Or.inl (Sum.inl.inj hfollow).symm
  simp only [redirect] at hfollow
  split at hfollow
  · exact Or.inl (Sum.inl.inj hfollow).symm
  split at hfollow
  · obtain rfl := Sum.inl.inj hfollow
    exact Or.inr ⟨by simpa using hstatus, rfl⟩
  · cases hfollow

end Attempt

/-- Where every request is taken whole and answered with a well-formed page, each delivered
    before a wait gives up: `sendRequest` returns the status of the last page, through all
    redirects it follows, and `getString` then returns the body of that page as it was before
    it was framed, and no part of any page before it. It fails only where it cannot begin the
    redirect that the last page is. -/
theorem http_exchange (haveOpenSSL : Bool) (site : List Request → Page) (server : List Request → Reply)
    {h : HTTPClient} (hclient : h.client_.isSome = true)
    (hserver : ∀ seen r, (server (seen ++ [r])).Serves h.timeout_ms_ r (site (seen ++ [r]))) (verb payload : Text) :
    ((h.sendRequest haveOpenSSL server verb payload).1.1 =
        (site (h.sendRequest haveOpenSSL server verb payload).2).status ∧
      (h.sendRequest haveOpenSSL server verb payload).1.2.Holds
        (site (h.sendRequest haveOpenSSL server verb payload).2)) ∨
    isRedirectStatus (site (h.sendRequest haveOpenSSL server verb payload).2).status = true ∧
      (h.sendRequest haveOpenSSL server verb payload).1.1 = HTTPC_ERROR_CONNECTION_REFUSED := by
  rw [HTTPClient.sendRequest, if_neg (by simpa [Option.isNone_iff_eq_none, Option.isSome_iff_ne_none] using hclient)]
  dsimp only
  rw [Attempt.sendLoop_eq_run (UInt16.le_iff_toNat_le.mpr (Nat.zero_le _))]
  refine Lib.Dialogue.run_rule
    (P := fun _ (a : Attempt) => a.client.client_.isSome = true ∧ a.client.timeout_ms_ = h.timeout_ms_)
    (Q := fun requests (last : Int × HTTPClient) =>
      (last.1 = (site requests).status ∧ last.2.Holds (site requests)) ∨
        isRedirectStatus (site requests).status = true ∧ last.1 = HTTPC_ERROR_CONNECTION_REFUSED)
    ?_ ?_ ⟨hclient, rfl⟩
  · rintro seen a a' ⟨-, htimeout⟩ hreact
    have hnext := Attempt.react_inr hreact
    exact ⟨hnext.client', hnext.settings.timeout_eq.trans htimeout⟩
  · rintro seen a last ⟨hsome, htimeout⟩ hreact
    have hserves := hserver seen a.request
    rw [← htimeout] at hserves
    obtain ⟨hstatus, hholds⟩ := HTTPClient.sendOnce_serves hsome hserves
    obtain rfl | ⟨hredirect, hcode⟩ := Attempt.follow_ends hreact
    · exact Or.inl ⟨hstatus, hholds⟩
    · exact Or.inr ⟨hstatus ▸ hredirect, hcode⟩

/-- A server that serves each page at once. -/
def serving (site : List Request → Page) (seen : List Request) : Reply where
  connects := true
  wrote_h := (seen.getLast?.map (·.text.length)).getD 0
  wrote_b := (seen.getLast?.map (·.payload.length)).getD 0
  response :=
    { wire := { now := 0, available := (site seen).bytes.length, arrivals := [], closes := true }
      unread := (site seen).bytes }

theorem serving_serves (site : List Request → Page) (timeout_ms : UInt16) (seen : List Request) (r : Request) :
    (serving site (seen ++ [r])).Serves timeout_ms r (site (seen ++ [r])) where
  connects := rfl
  wrote_h := by simp [serving]
  wrote_b := by simp [serving]
  delivered := by
    have hready := (Wire.feed timeout_ms).arrived_le_ready (w := (serving site (seen ++ [r])).response.wire)
    exact ⟨rfl, Nat.le_refl _, hready⟩

def Page.found : Page where
  head := { HeadText.five with
    status := ascii "HTTP/1.1 302 Found\r"
    status_line := by decide +kernel
    status_pos := by decide +kernel
    lines := [ascii "Location: /b\r", ascii "Content-Length: 1\r"]
    lines_line := by decide +kernel }
  body := ascii "x"
  nul_free := by decide
  content := ascii "x"
  framed := .length (by decide +kernel) (by decide +kernel)

def Page.hello : Page where
  head := HeadText.five
  body := ascii "hello"
  nul_free := by decide
  content := ascii "hello"
  framed := .length (by decide +kernel) (by decide +kernel)

/-- A redirect, and the page it leads to. -/
def Page.moved (seen : List Request) : Page :=
  if seen.length = 1 then found else hello

theorem http_exchange_moved :
    ∃ h : HTTPClient,
      (h.sendRequest false (serving Page.moved) (ascii "GET") []).1.1 = 200 ∧
        (h.sendRequest false (serving Page.moved) (ascii "GET") []).1.2.getString.1 = ascii "hello" := by
  let h := (HTTPClient.initial.begin false (ascii "http://host/a")).2.setFollowRedirects
    .HTTPC_FORCE_FOLLOW_REDIRECTS
  have hclient : h.client_.isSome = true := by decide +kernel
  have hcode : (h.sendRequest false (serving Page.moved) (ascii "GET") []).1.1 = 200 := by decide +kernel
  have hpage : (Page.moved (h.sendRequest false (serving Page.moved) (ascii "GET") []).2).body = ascii "hello" := by
    decide +kernel
  refine ⟨h, hcode, ?_⟩
  obtain ⟨-, hholds⟩ | ⟨-, hrefused⟩ :=
    http_exchange false Page.moved (serving Page.moved) hclient (serving_serves Page.moved h.timeout_ms_)
      (ascii "GET") []
  · exact hholds.body.trans hpage
  · exact absurd (hcode.symm.trans hrefused) (by decide)

end HostArduino.http
