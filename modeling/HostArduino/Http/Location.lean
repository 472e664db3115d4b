import HostArduino.Http.Url
import Mathlib.Data.List.DropRight

namespace HostArduino.http

def isAlpha (c : UInt8) : Bool :=
  65 ≤ c && c ≤ 90 || 97 ≤ c && c ≤ 122

def isSchemeByte (c : UInt8) : Bool :=
  isAlpha c || 48 ≤ c && c ≤ 57 || c == '+'.toUInt8 || c == '-'.toUInt8 || c == '.'.toUInt8

/-- A URI reference with a scheme: a letter and further letters, digits, `+`, `-` or `.`
    in front of a colon. -/
def hasScheme : Text → Bool
  | [] => false
  | c :: rest => isAlpha c && (rest.dropWhile isSchemeByte).head? == some ':'.toUInt8

/-- A `Location` without a scheme and without an authority of its own. -/
def RelativeLocation (loc : Text) : Prop :=
  hasScheme loc = false ∧ startsWith loc (ascii "//") = false

instance (loc : Text) : Decidable (RelativeLocation loc) :=
  inferInstanceAs (Decidable (_ ∧ _))

def isPathByte (c : UInt8) : Bool :=
  c != '?'.toUInt8 && c != '#'.toUInt8

/-- The path of a request URI, and what follows it: a query or a fragment. -/
def uriPath (uri : Text) : Text :=
  uri.takeWhile isPathByte

def uriQuery (uri : Text) : Text :=
  uri.dropWhile isPathByte

/-- A path up to its last `/`. -/
def directory (path : Text) : Text :=
  path.rdropWhile (· != '/'.toUInt8)

/-- What following a relative `Location` is to lead to: the same origin, at the `Location`
    itself or at what it names in the directory of the current path. -/
def LeadsTo (h : HTTPClient) (loc : Text) (parsed : Bool × HTTPClient) : Prop :=
  parsed.1 = true ∧ parsed.2.use_https_ = h.use_https_ ∧ parsed.2.host_ = h.host_ ∧
    parsed.2.port_ = h.port_ ∧
    parsed.2.uri_ =
      if startsWith loc (ascii "/") then loc else directory (uriPath h.uri_) ++ loc

instance (h : HTTPClient) (loc : Text) (parsed : Bool × HTTPClient) : Decidable (LeadsTo h loc parsed) :=
  inferInstanceAs (Decidable (_ ∧ _))

theorem directory_append {b : Text} (a : Text) (hb : '/'.toUInt8 ∉ b) :
    directory (a ++ '/'.toUInt8 :: b) = a ++ ['/'.toUInt8] := by
  induction b using List.reverseRecOn with
  | nil => exact List.rdropWhile_concat_neg _ _ _ (by simp)
  | append_singleton b c ih =>
    have hc : c ≠ '/'.toUInt8 := fun heq => hb (by simp [heq])
    have hrest := ih fun hmem => hb (by simp [hmem])
    have hassoc : a ++ '/'.toUInt8 :: (b ++ [c]) = a ++ '/'.toUInt8 :: b ++ [c] := by simp
    rw [hassoc, directory, List.rdropWhile_concat_pos _ _ _ (by simpa using hc)]
    exact hrest

theorem length_directory_le (path : Text) : (directory path).length ≤ path.length := by
  have hhead : directory path <+: path := List.rdropWhile_prefix _ _
  exact hhead.length_le

/-- The directory of a request URI as the client cuts it off. -/
theorem exists_lastIndexOf {uri : Text} (huri : uri.head? = some '/'.toUInt8) :
    ∃ last_slash, lastIndexOf uri '/'.toUInt8 = some last_slash ∧
      uri.take (last_slash + 1) = directory uri ∧ (directory uri).head? = some '/'.toUInt8 := by
  obtain ⟨rest, hcons⟩ := List.head?_eq_some_iff.mp huri
  have hmem : '/'.toUInt8 ∈ uri := by simp [hcons]
  obtain ⟨a, b, hsplit, hb⟩ := exists_last hmem
  have hdirectory : directory uri = a ++ ['/'.toUInt8] := by
    rw [hsplit]
    exact directory_append a hb
  have htake : uri.take (a.length + 1) = directory uri := by
    rw [hdirectory, hsplit, List.append_cons]
    exact List.take_left' (by simp)
  refine ⟨a.length, by rw [hsplit, lastIndexOf_append a hb], htake, ?_⟩
  rw [← htake, hcons]
  rfl

/-- The directory of a request URI is that of its path unless what follows the path has
    a `/` as well. -/
theorem directory_uriPath_iff {uri : Text} (huri : uri.head? = some '/'.toUInt8) :
    directory uri = directory (uriPath uri) ↔ '/'.toUInt8 ∉ uriQuery uri := by
  obtain ⟨rest, hcons⟩ := List.head?_eq_some_iff.mp huri
  have hsplit : uriPath uri ++ uriQuery uri = uri := List.takeWhile_append_dropWhile
  have hmem : '/'.toUInt8 ∈ uriPath uri := by
    rw [uriPath, hcons, List.takeWhile_cons_of_pos (by decide)]
    exact List.mem_cons_self
  constructor
  · intro heq hquery
    obtain ⟨a, b, hlast, hb⟩ := exists_last hquery
    have hdirectory : directory uri = uriPath uri ++ a ++ ['/'.toUInt8] := by
      conv_lhs => rw [← hsplit, hlast, ← List.append_assoc]
      exact directory_append _ hb
    have hle := length_directory_le (uriPath uri)
    rw [← heq, hdirectory] at hle
    simp only [List.length_append, List.length_singleton] at hle
    omega
  · intro hquery
    obtain ⟨a, b, hlast, hb⟩ := exists_last hmem
    have hrest : '/'.toUInt8 ∉ b ++ uriQuery uri := by
      simp only [List.mem_append, not_or]
      exact ⟨hb, hquery⟩
    have hdirectory : directory uri = a ++ ['/'.toUInt8] := by
      conv_lhs => rw [← hsplit, hlast, List.append_assoc, List.cons_append]
      exact directory_append a hrest
    rw [hdirectory, hlast]
    exact (directory_append a hb).symm

theorem toLower_letter {c : UInt8} (hlower : 97 ≤ toLower c ∧ toLower c ≤ 122) : isAlpha c = true := by
  unfold toLower at hlower
  split at hlower
  · rename_i hupper
    simp [isAlpha, hupper]
  · simp [isAlpha, hlower]

/-- A text that spells `http` or `https` in front of a colon has a scheme. -/
theorem hasScheme_of_toLowerCase {s : Text} (rest : Text)
    (h : toLowerCase s = ascii "https" ∨ toLowerCase s = ascii "http") :
    hasScheme (s ++ ':'.toUInt8 :: rest) = true := by
  have hletters : ∀ c ∈ s, isAlpha c = true := by
    intro c hc
    have hmem : toLower c ∈ toLowerCase s := List.mem_map_of_mem hc
    have hbounds : ∀ d ∈ toLowerCase s, 97 ≤ d ∧ d ≤ 122 := by
      obtain h | h := h <;> rw [h] <;> decide +kernel
    exact toLower_letter (hbounds _ hmem)
  cases s with
  | nil => obtain h | h := h <;> exact absurd h (by decide +kernel)
  | cons c s =>
    have hdrop : (s ++ ':'.toUInt8 :: rest).dropWhile isSchemeByte = ':'.toUInt8 :: rest := by
      rw [List.dropWhile_append_of_pos, List.dropWhile_cons_of_neg (by decide)]
      intro d hd
      simp [isSchemeByte, hletters d (by simp [hd])]
    rw [List.cons_append, hasScheme, hletters c (by simp), hdrop]
    simp

theorem prefix_of_indexOfText {s str : Text} {i : Nat} (h : indexOfText s str = some i) (hstr : str ≠ []) :
    ∃ a b, s = a ++ (str ++ b) ∧ a.length = i := by
  have hoccurs := (indexOfText_eq_some_iff.mp h).occurs
  have hend := hoccurs.end_le hstr
  obtain ⟨b, hb⟩ := hoccurs
  refine ⟨s.take i, b, ?_, List.length_take_of_le (by omega)⟩
  rw [hb, List.take_append_drop]

/-- Only a text with a scheme is accepted as a URL. -/
theorem hasScheme_of_parseURL {h : HTTPClient} {url : Text} (hparse : (h.parseURL url).1 = true) :
    hasScheme url = true := by
  simp only [HTTPClient.parseURL] at hparse
  split at hparse
  · cases hparse
  · rename_i scheme_end hindex
    obtain ⟨s, rest, hsplit, hlength⟩ := prefix_of_indexOfText hindex (List.cons_ne_nil _ _)
    have hscheme : substring url 0 scheme_end = s := by
      rw [hsplit, ← hlength]
      exact substring_left _ _
    rw [hscheme] at hparse
    have hurl : url = s ++ ':'.toUInt8 :: ([47, 47] ++ rest) := hsplit
    rw [hurl]
    by_cases hhttps : toLowerCase s = ascii "https"
    · exact hasScheme_of_toLowerCase _ (Or.inl hhttps)
    · by_cases hhttp : toLowerCase s = ascii "http"
      · exact hasScheme_of_toLowerCase _ (Or.inr hhttp)
      · rw [if_neg hhttps, if_pos hhttp] at hparse
        cases hparse

/-- A `Location` taken for an absolute URL is returned as it is. -/
theorem resolveLocation_of_absolute {h : HTTPClient} {loc : Text} {i : Nat}
    (hindex : indexOfText loc (ascii "://") = some i) (hi : 0 < i) : h.resolveLocation loc = loc := by
  have hne : loc.length ≠ 0 := by
    obtain ⟨a, b, hsplit, hlength⟩ := prefix_of_indexOfText hindex (List.cons_ne_nil _ _)
    rw [hsplit, List.length_append]
    omega
  have habsolute : (indexOfText loc (ascii "://")).any (0 < ·) = true := by
    rw [hindex]
    exact decide_eq_true hi
  rw [HTTPClient.resolveLocation, if_neg hne, if_pos habsolute]

section Relative

variable {u : Url} {h : HTTPClient} {loc : Text}

theorem base_append (hof : u.Of h) {uri : Text} (huri : uri.head? = some '/'.toUInt8) :
    (if h.use_https_ then ascii "https://" else ascii "http://") ++
        hostAndPort h.use_https_ h.host_ h.port_ ++ uri = (u.withUri uri huri).text := by
  have hscheme : (if h.use_https_ then ascii "https://" else ascii "http://") = u.scheme ++ ascii "://" := by
    rw [hof.use_https_eq, Url.scheme]
    by_cases hhttps : u.use_https_ = true
    · simp only [if_pos hhttps]
      decide
    · simp only [if_neg hhttps]
      decide
  rw [hscheme, hof.use_https_eq, hof.host_eq, hof.port_eq, u.hostAndPort_eq, List.append_assoc,
    List.append_assoc]
  rfl

/-- Any other `Location` is written behind the origin, below the directory of the current
    request URI unless it starts with a `/`. -/
theorem resolveLocation_relative (hof : u.Of h) (hne : loc ≠ [])
    (hrelative : ∀ i, indexOfText loc (ascii "://") = some i → i = 0) :
    ∃ hhead, h.resolveLocation loc =
      (u.withUri (if startsWith loc (ascii "/") then loc else directory h.uri_ ++ loc) hhead).text := by
  have hlength : loc.length ≠ 0 := fun hzero => hne (List.length_eq_zero_iff.mp hzero)
  have hany : ¬(indexOfText loc (ascii "://")).any (0 < ·) = true := by
    intro hany
    obtain ⟨i, hindex, hi⟩ := (Option.any_eq_true _ _).mp hany
    exact absurd (of_decide_eq_true hi) (by simp [hrelative i hindex])
  obtain ⟨last_slash, hlast, hdirectory, hslash⟩ := exists_lastIndexOf (hof.uri_eq ▸ u.uri_head)
  have hresolve : h.resolveLocation loc =
      (if h.use_https_ then ascii "https://" else ascii "http://") ++
        hostAndPort h.use_https_ h.host_ h.port_ ++
        (if startsWith loc (ascii "/") then loc else directory h.uri_ ++ loc) := by
    rw [HTTPClient.resolveLocation, if_neg hlength, if_neg hany]
    by_cases hroot : startsWith loc (ascii "/") = true
    · simp only [if_pos hroot]
    · simp only [if_neg hroot, hlast, substring_zero, hdirectory, List.append_assoc]
  have hhead : (if startsWith loc (ascii "/") then loc else directory h.uri_ ++ loc).head? =
      some '/'.toUInt8 := by
    split
    · rename_i hroot
      obtain ⟨rest, hrest⟩ := List.isPrefixOf_iff_prefix.mp hroot
      rw [← hrest]
      rfl
    · rw [List.head?_append, hslash]
      rfl
  exact ⟨hhead, hresolve.trans (base_append hof hhead)⟩

end Relative

/-- Following a relative `Location` leads where it should exactly when the `Location` is
    not empty, has its first `://`, if it has any, at its first byte, and starts with a
    `/` or the request URI it is relative to has no `/` in its query or fragment. -/
theorem resolveLocation_leadsTo_iff {h₀ h h' : HTTPClient} {url loc : Text}
    (hurl : h₀.parseURL url = (true, h)) (hloc : RelativeLocation loc) :
    LeadsTo h loc (h'.parseURL (h.resolveLocation loc)) ↔
      loc ≠ [] ∧ (∀ i, indexOfText loc (ascii "://") = some i → i = 0) ∧
        (startsWith loc (ascii "/") ∨ '/'.toUInt8 ∉ uriQuery h.uri_) := by
  obtain ⟨u, hof⟩ := Url.exists_of_parseURL hurl
  constructor
  · intro hleads
    have hscheme := hasScheme_of_parseURL hleads.1
    have hne : loc ≠ [] := by
      intro hnil
      rw [hnil] at hscheme
      cases hscheme
    have hrelative : ∀ i, indexOfText loc (ascii "://") = some i → i = 0 := by
      intro i hindex
      by_contra hi
      rw [resolveLocation_of_absolute hindex (Nat.pos_of_ne_zero hi), hloc.1] at hscheme
      cases hscheme
    refine ⟨hne, hrelative, ?_⟩
    obtain ⟨hhead, hresolve⟩ := resolveLocation_relative hof hne hrelative
    by_cases hroot : startsWith loc (ascii "/") = true
    · exact Or.inl hroot
    · refine Or.inr ((directory_uriPath_iff (hof.uri_eq ▸ u.uri_head)).mp ?_)
      obtain ⟨_, _, _, _, huri⟩ := hleads
      rw [hresolve, (Url.parseURL_text _ h').2.uri_eq] at huri
      simp only [Url.withUri, if_neg hroot] at huri
      exact List.append_cancel_right huri
  · intro ⟨hne, hrelative, hdirectory⟩
    obtain ⟨hhead, hresolve⟩ := resolveLocation_relative hof hne hrelative
    rw [hresolve]
    obtain ⟨hok, hparsed⟩ := Url.parseURL_text (u.withUri _ hhead) h'
    refine ⟨hok, hparsed.use_https_eq.trans hof.use_https_eq.symm, hparsed.host_eq.trans hof.host_eq.symm,
      hparsed.port_eq.trans hof.port_eq.symm, hparsed.uri_eq.trans ?_⟩
    by_cases hroot : startsWith loc (ascii "/") = true
    · simp only [Url.withUri, if_pos hroot]
    · have hquery : '/'.toUInt8 ∉ uriQuery h.uri_ := hdirectory.resolve_left hroot
      simp only [Url.withUri, if_neg hroot]
      rw [(directory_uriPath_iff (hof.uri_eq ▸ u.uri_head)).mpr hquery]

theorem resolveLocation_leadsTo_sibling :
    let h := { HTTPClient.initial with host_ := ascii "host", port_ := 8080, uri_ := ascii "/dir/page?x=1" }
    HTTPClient.initial.parseURL (ascii "http://host:8080/dir/page?x=1") = (true, h) ∧
      LeadsTo h (ascii "next") (h.parseURL (h.resolveLocation (ascii "next"))) := by
  intro h
  have hurl : HTTPClient.initial.parseURL (ascii "http://host:8080/dir/page?x=1") = (true, h) := by
    decide +kernel
  have hnone : indexOfText (ascii "next") (ascii "://") = none := by decide +kernel
  have hquery : '/'.toUInt8 ∉ uriQuery h.uri_ := by decide +kernel
  refine ⟨hurl, (resolveLocation_leadsTo_iff hurl (by decide +kernel)).mpr ⟨by decide, ?_, Or.inr hquery⟩⟩
  intro i hindex
  rw [hnone] at hindex
  cases hindex

/-- A `Location` with a URL in its query is rejected, and one below a request URI with a
    `/` in its query leads below that query. -/
theorem resolveLocation_not_leadsTo :
    (∃ h, HTTPClient.initial.parseURL (ascii "http://host/page") = (true, h) ∧
      RelativeLocation (ascii "/login?next=http://other/") ∧
      ¬LeadsTo h (ascii "/login?next=http://other/")
        (h.parseURL (h.resolveLocation (ascii "/login?next=http://other/")))) ∧
    ∃ h, HTTPClient.initial.parseURL (ascii "http://host/page?x=a/b") = (true, h) ∧
      RelativeLocation (ascii "next") ∧
      ¬LeadsTo h (ascii "next") (h.parseURL (h.resolveLocation (ascii "next"))) := by
  refine ⟨⟨{ HTTPClient.initial with host_ := ascii "host", uri_ := ascii "/page" }, ?_⟩,
    { HTTPClient.initial with host_ := ascii "host", uri_ := ascii "/page?x=a/b" }, ?_⟩ <;>
    decide +kernel

end HostArduino.http
