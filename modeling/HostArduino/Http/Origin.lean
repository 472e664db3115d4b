import HostArduino.Http.Request

namespace HostArduino.http

/-- The URL that `begin(host, port, uri, https)` builds. -/
def originUrl (host : Text) (port : UInt16) (uri : Text) (https : Bool) : Text :=
  let url := (if https then ascii "https://" else ascii "http://") ++ host
  let url :=
    if https && port != 443 || !https && port != 80 then url ++ ascii ":" ++ formatUnsigned port.toNat
    else url
  url ++ uri

/-- `begin(host, port, uri, https)`. -/
def HTTPClient.beginOrigin (haveOpenSSL : Bool) (h : HTTPClient) (host : Text) (port : UInt16) (uri : Text)
    (https : Bool) : Bool × HTTPClient :=
  h.begin haveOpenSSL (originUrl host port uri https)

theorem Url.text_eq_originUrl (u : Url) : u.text = originUrl u.host_ u.port_ u.uri_ u.use_https_ := by
  have hscheme : (if u.use_https_ then ascii "https://" else ascii "http://") = u.scheme ++ ascii "://" := by
    unfold scheme
    split <;> rfl
  have horigin : originUrl u.host_ u.port_ u.uri_ u.use_https_ =
      u.scheme ++ ascii "://" ++ hostAndPort u.use_https_ u.host_ u.port_ ++ u.uri_ := by
    rw [originUrl, hscheme, hostAndPort]
    split <;> simp only [List.append_assoc]
  rw [horigin, u.hostAndPort_eq, text]
  simp only [List.append_assoc]

/-- A URL is read back into all four parts, and nothing else of the client is touched. -/
theorem Url.parseURL_eq (u : Url) (h : HTTPClient) :
    h.parseURL u.text = (true,
      { h with host_ := u.host_, port_ := u.port_, uri_ := u.uri_, use_https_ := u.use_https_ }) := by
  obtain ⟨hok, hparsed⟩ := u.parseURL_text h
  obtain ⟨host_, uri_, port_, use_https_, hframe⟩ := h.parseURL_frame u.text
  have hhost := hparsed.host_eq
  have hport := hparsed.port_eq
  have huri := hparsed.uri_eq
  have hhttps := hparsed.use_https_eq
  rw [hframe] at hhost hport huri hhttps
  refine Prod.ext hok ?_
  rw [hframe]
  congr

/-- `parseURL` inverts the URL that `begin` builds of a host without `/` and `:`, any port
    and a request URI that starts with `/`; so `begin` sets the client to these four. -/
theorem HTTPClient.parseURL_originUrl (h : HTTPClient) (host : Text) (hne : host ≠ [])
    (hslash : '/'.toUInt8 ∉ host) (hcolon : ':'.toUInt8 ∉ host) (port : UInt16) (uri : Text)
    (huri : uri.head? = some '/'.toUInt8) (https : Bool) :
    h.parseURL (originUrl host port uri https) =
        (true, { h with host_ := host, port_ := port, uri_ := uri, use_https_ := https }) ∧
      ∀ haveOpenSSL, ∃ owned_client_ client_,
        h.beginOrigin haveOpenSSL host port uri https = (!https || haveOpenSSL,
          { h.end_ with
            host_ := host, port_ := port, uri_ := uri, use_https_ := https, owned_client_, client_ }) := by
  have hparse (h : HTTPClient) : h.parseURL (originUrl host port uri https) =
      (true, { h with host_ := host, port_ := port, uri_ := uri, use_https_ := https }) := by
    have htext := Url.text_eq_originUrl ⟨https, host, port, uri, hne, hslash, hcolon, huri⟩
    rw [← htext]
    exact Url.parseURL_eq _ h
  refine ⟨hparse h, fun haveOpenSSL => ?_⟩
  simp only [beginOrigin, begin, hparse, Bool.not_true, Bool.false_eq_true, if_false]
  cases https with
  | false => exact ⟨_, _, rfl⟩
  | true =>
    cases haveOpenSSL with
    | false => exact ⟨_, _, rfl⟩
    | true => exact ⟨_, _, rfl⟩

/-- A secure URL on the port that plain HTTP has by default, its URI with the marks in it
    that the parser looks for. -/
theorem HTTPClient.parseURL_originUrl_marks :
    (HTTPClient.initial.parseURL (originUrl (ascii "example") 80 (ascii "/a://b:1/") true)).1 = true :=
  congrArg Prod.fst (HTTPClient.initial.parseURL_originUrl (ascii "example") (by decide) (by decide) (by decide)
    80 (ascii "/a://b:1/") (by decide) true).1

end HostArduino.http
