import HostArduino.Http.HTTPClient

namespace HostArduino.http

/-- The host as a URL and a `Host` header give it: a default port is left out. -/
def hostAndPort (use_https_ : Bool) (host_ : Text) (port_ : UInt16) : Text :=
  if use_https_ && port_ != 443 || !use_https_ && port_ != 80 then
    host_ ++ ascii ":" ++ formatUnsigned port_.toNat
  else host_

namespace HTTPClient

/-- The last part of `parseURL`: the host and, behind a colon, the port. -/
def parseAuthority (h : HTTPClient) (authority : Text) : Bool × HTTPClient :=
  let h := match indexOf authority ':'.toUInt8 with
    | some colon =>
      { h with
        host_ := substring authority 0 colon
        port_ := UInt16.ofInt (toInt (substringFrom authority (colon + 1))) }
    | none => { h with host_ := authority }
  (0 < h.host_.length, h)

/-- The part of `parseURL` behind the scheme, whose default port is set already. -/
def parseRest (h : HTTPClient) (rest : Text) : Bool × HTTPClient :=
  match indexOf rest '/'.toUInt8 with
  | some slash =>
    { h with uri_ := substringFrom rest slash }.parseAuthority (substring rest 0 slash)
  | none => { h with uri_ := ascii "/" }.parseAuthority rest

def parseURL (h : HTTPClient) (url : Text) : Bool × HTTPClient :=
  let h := { h with host_ := [], uri_ := [], port_ := 80, use_https_ := false }
  match indexOfText url (ascii "://") with
  | none => (false, h)
  | some scheme_end =>
    let scheme := toLowerCase (substring url 0 scheme_end)
    let rest := substringFrom url (scheme_end + 3)
    if scheme = ascii "https" then
      { h with use_https_ := true, port_ := 443 }.parseRest rest
    else if scheme ≠ ascii "http" then (false, h)
    else h.parseRest rest

def resolveLocation (h : HTTPClient) (loc : Text) : Text :=
  if loc.length = 0 then []
  else if (indexOfText loc (ascii "://")).any (0 < ·) then loc
  else
    let base := (if h.use_https_ then ascii "https://" else ascii "http://") ++
      hostAndPort h.use_https_ h.host_ h.port_
    if startsWith loc (ascii "/") then base ++ loc
    else
      let dir := match lastIndexOf h.uri_ '/'.toUInt8 with
        | some last_slash => substring h.uri_ 0 (last_slash + 1)
        | none => ascii "/"
      base ++ dir ++ loc

theorem parseAuthority_host (h : HTTPClient) {host : Text} (hcolon : ':'.toUInt8 ∉ host) :
    h.parseAuthority host = (decide (0 < host.length), { h with host_ := host }) := by
  simp only [parseAuthority, indexOf_of_not_mem hcolon]

theorem parseAuthority_port (h : HTTPClient) {host : Text} (hcolon : ':'.toUInt8 ∉ host) (port : Text) :
    h.parseAuthority (host ++ ':'.toUInt8 :: port) =
      (decide (0 < host.length), { h with host_ := host, port_ := UInt16.ofInt (toInt port) }) := by
  simp only [parseAuthority, indexOf_append hcolon, substring_left, substringFrom_after]

theorem parseRest_authority (h : HTTPClient) {authority : Text} (hslash : '/'.toUInt8 ∉ authority) :
    h.parseRest authority = { h with uri_ := ascii "/" }.parseAuthority authority := by
  simp only [parseRest, indexOf_of_not_mem hslash]

theorem parseRest_uri (h : HTTPClient) {authority : Text} (hslash : '/'.toUInt8 ∉ authority) (path : Text) :
    h.parseRest (authority ++ '/'.toUInt8 :: path) =
      { h with uri_ := '/'.toUInt8 :: path }.parseAuthority authority := by
  simp only [parseRest, indexOf_append hslash, substring_left, substringFrom_right]

theorem parseAuthority_frame (h : HTTPClient) (authority : Text) :
    ∃ host_ port_, (h.parseAuthority authority).2 = { h with host_, port_ } := by
  rw [parseAuthority]
  split
  · exact ⟨_, _, rfl⟩
  · exact ⟨_, _, rfl⟩

theorem parseRest_frame (h : HTTPClient) (rest : Text) :
    ∃ host_ uri_ port_, (h.parseRest rest).2 = { h with host_, uri_, port_ } := by
  rw [parseRest]
  split
  · obtain ⟨host_, port_, hframe⟩ := parseAuthority_frame _ _
    exact ⟨host_, _, port_, hframe⟩
  · obtain ⟨host_, port_, hframe⟩ := parseAuthority_frame _ _
    exact ⟨host_, _, port_, hframe⟩

/-- `parseURL` sets nothing but the origin and the request URI. -/
theorem parseURL_frame (h : HTTPClient) (url : Text) :
    ∃ host_ uri_ port_ use_https_,
      (h.parseURL url).2 = { h with host_, uri_, port_, use_https_ } := by
  simp only [parseURL]
  split
  · exact ⟨_, _, _, _, rfl⟩
  · split
    · obtain ⟨host_, uri_, port_, hframe⟩ := parseRest_frame _ _
      exact ⟨host_, uri_, port_, _, hframe⟩
    · split
      · exact ⟨_, _, _, _, rfl⟩
      · obtain ⟨host_, uri_, port_, hframe⟩ := parseRest_frame _ _
        exact ⟨host_, uri_, port_, _, hframe⟩

end HTTPClient

/-- What a URL means to the client: an authority without a further `/` or `:` in its
    host, and a request URI, which starts with a `/`. -/
structure Url where
  use_https_ : Bool
  host_ : Text
  port_ : UInt16
  uri_ : Text
  host_ne_nil : host_ ≠ []
  slash_notMem : '/'.toUInt8 ∉ host_
  colon_notMem : ':'.toUInt8 ∉ host_
  uri_head : uri_.head? = some '/'.toUInt8

namespace Url

/-- The client is set to a URL. -/
structure Of (u : Url) (h : HTTPClient) : Prop where
  use_https_eq : h.use_https_ = u.use_https_
  host_eq : h.host_ = u.host_
  port_eq : h.port_ = u.port_
  uri_eq : h.uri_ = u.uri_

def withUri (u : Url) (uri : Text) (huri : uri.head? = some '/'.toUInt8) : Url :=
  { u with uri_ := uri, uri_head := huri }

def scheme (u : Url) : Text :=
  if u.use_https_ then ascii "https" else ascii "http"

def defaultPort (u : Url) : UInt16 :=
  if u.use_https_ then 443 else 80

def authority (u : Url) : Text :=
  if u.port_ = u.defaultPort then u.host_
  else u.host_ ++ ':'.toUInt8 :: formatUnsigned u.port_.toNat

def text (u : Url) : Text :=
  u.scheme ++ (ascii "://" ++ (u.authority ++ u.uri_))

theorem slash_notMem_authority (u : Url) : '/'.toUInt8 ∉ u.authority := by
  rw [authority]
  split
  · exact u.slash_notMem
  · intro hmem
    obtain hhost | hport := List.mem_append.mp hmem
    · exact u.slash_notMem hhost
    · obtain hcolon | hdigit := List.mem_cons.mp hport
      · exact absurd hcolon (by decide)
      · have hle := ((formatUnsigned_spec u.port_.toNat).1 _ hdigit).1
        exact absurd hle (by decide)

theorem colon_notMem_scheme (u : Url) : ':'.toUInt8 ∉ u.scheme := by
  rw [scheme]
  split <;> decide

theorem hostAndPort_eq (u : Url) : hostAndPort u.use_https_ u.host_ u.port_ = u.authority := by
  have hcolon (digits : Text) : u.host_ ++ ascii ":" ++ digits = u.host_ ++ ':'.toUInt8 :: digits := by
    rw [List.append_assoc]
    rfl
  simp only [hostAndPort, authority, defaultPort, hcolon]
  by_cases hsecure : u.use_https_ = true
  · by_cases hdefault : u.port_ = 443 <;> simp [hsecure, hdefault]
  · by_cases hdefault : u.port_ = 80 <;> simp [hsecure, hdefault]

theorem parseAuthority_authority (u : Url) {h : HTTPClient} (hhttps : h.use_https_ = u.use_https_)
    (hport : h.port_ = u.defaultPort) (huri : h.uri_ = u.uri_) :
    (h.parseAuthority u.authority).1 = true ∧ u.Of (h.parseAuthority u.authority).2 := by
  have hhost : 0 < u.host_.length := List.length_pos_iff.mpr u.host_ne_nil
  by_cases hdefault : u.port_ = u.defaultPort
  · rw [authority, if_pos hdefault, h.parseAuthority_host u.colon_notMem]
    exact ⟨decide_eq_true hhost, hhttps, rfl, hport.trans hdefault.symm, huri⟩
  · have hvalue : UInt16.ofInt (toInt (formatUnsigned u.port_.toNat)) = u.port_ := by
      have hlt := u.port_.toNat_lt
      have hmod : ((u.port_.toNat : Int) % 2 ^ 16).toNat = u.port_.toNat := by omega
      rw [toInt_formatUnsigned (by omega), UInt16.ofInt, hmod, UInt16.ofNat_toNat]
    rw [authority, if_neg hdefault, h.parseAuthority_port u.colon_notMem, hvalue]
    exact ⟨decide_eq_true hhost, hhttps, rfl, rfl, huri⟩

theorem parseRest_text (u : Url) {h : HTTPClient} (hhttps : h.use_https_ = u.use_https_)
    (hport : h.port_ = u.defaultPort) :
    (h.parseRest (u.authority ++ u.uri_)).1 = true ∧
      u.Of (h.parseRest (u.authority ++ u.uri_)).2 := by
  obtain ⟨path, huri⟩ := List.head?_eq_some_iff.mp u.uri_head
  rw [huri, h.parseRest_uri u.slash_notMem_authority]
  exact u.parseAuthority_authority hhttps hport huri.symm

/-- Reading back what a URL is written as. -/
theorem parseURL_text (u : Url) (h : HTTPClient) :
    (h.parseURL u.text).1 = true ∧ u.Of (h.parseURL u.text).2 := by
  have hscheme : indexOfText u.text (ascii "://") = some u.scheme.length :=
    indexOfText_append u.colon_notMem_scheme _
  have hname : substring u.text 0 u.scheme.length = u.scheme := substring_left _ _
  have hrest : substringFrom u.text (u.scheme.length + 3) = u.authority ++ u.uri_ := by
    rw [substringFrom_eq, text, ← List.append_assoc]
    exact List.drop_left' (by simp [ascii])
  simp only [HTTPClient.parseURL, hscheme, hname, hrest]
  cases hhttps : u.use_https_ with
  | true =>
    have hlower : toLowerCase u.scheme = ascii "https" := by
      simp only [scheme, hhttps]
      decide
    rw [if_pos hlower]
    exact u.parseRest_text hhttps.symm (by simp [defaultPort, hhttps])
  | false =>
    have hlower : toLowerCase u.scheme = ascii "http" := by
      simp only [scheme, hhttps]
      decide
    rw [hlower, if_neg (by decide), if_neg (by simp)]
    exact u.parseRest_text hhttps.symm (by simp [defaultPort, hhttps])

theorem exists_of_parseAuthority {h h' : HTTPClient} {authority : Text}
    (hslash : '/'.toUInt8 ∉ authority) (huri : h.uri_.head? = some '/'.toUInt8)
    (hparse : h.parseAuthority authority = (true, h')) : ∃ u : Url, u.Of h' := by
  by_cases hmem : ':'.toUInt8 ∈ authority
  · obtain ⟨host, port, rfl, hcolon⟩ := exists_first hmem
    rw [h.parseAuthority_port hcolon] at hparse
    obtain ⟨hok, rfl⟩ := Prod.mk.inj hparse
    have hne : host ≠ [] := List.length_pos_iff.mp (of_decide_eq_true hok)
    have hslash' : '/'.toUInt8 ∉ host := fun hin => hslash (List.mem_append_left _ hin)
    exact ⟨⟨_, host, _, _, hne, hslash', hcolon, huri⟩, rfl, rfl, rfl, rfl⟩
  · rw [h.parseAuthority_host hmem] at hparse
    obtain ⟨hok, rfl⟩ := Prod.mk.inj hparse
    have hne : authority ≠ [] := List.length_pos_iff.mp (of_decide_eq_true hok)
    exact ⟨⟨_, authority, _, _, hne, hslash, hmem, huri⟩, rfl, rfl, rfl, rfl⟩

theorem exists_of_parseRest {h h' : HTTPClient} {rest : Text} (hparse : h.parseRest rest = (true, h')) :
    ∃ u : Url, u.Of h' := by
  by_cases hmem : '/'.toUInt8 ∈ rest
  · obtain ⟨authority, path, rfl, hslash⟩ := exists_first hmem
    rw [h.parseRest_uri hslash] at hparse
    exact exists_of_parseAuthority hslash rfl hparse
  · rw [h.parseRest_authority hmem] at hparse
    exact exists_of_parseAuthority hmem rfl hparse

/-- A successful `parseURL` sets the client to a URL. -/
theorem exists_of_parseURL {h h' : HTTPClient} {url : Text} (hparse : h.parseURL url = (true, h')) :
    ∃ u : Url, u.Of h' := by
  simp only [HTTPClient.parseURL] at hparse
  split at hparse
  · cases hparse
  · split at hparse
    · exact exists_of_parseRest hparse
    · split at hparse
      · cases hparse
      · exact exists_of_parseRest hparse

end Url

end HostArduino.http
