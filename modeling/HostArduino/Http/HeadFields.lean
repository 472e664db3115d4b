import HostArduino.Http.Decode

namespace HostArduino.http

/-- A header line on the wire, without its line feed: any white space around the value,
    and a carriage return at the end or none. -/
structure HeaderLine where
  name : Text
  leading : Text
  value : Text
  trailing : Text
  carriageReturn : Bool
  name_free : ':'.toUInt8 ∉ name ∧ 10 ∉ name
  leading_space : ∀ b ∈ leading, isspace b = true ∧ b ≠ 10
  value_line : 10 ∉ value
  value_head : ∀ b ∈ value.head?, isspace b = false
  value_last : ∀ b ∈ value.getLast?, isspace b = false
  trailing_space : ∀ b ∈ trailing, isspace b = true ∧ b ≠ 10

/-- A status line on the wire, without its line feed: the version, a positive code that an
    `int` holds, and what stands behind it. -/
structure StatusLine where
  version : Text
  digits : Text
  reason : Option Text
  carriageReturn : Bool
  version_free : ' '.toUInt8 ∉ version ∧ 10 ∉ version
  digits_ne_nil : digits ≠ []
  digits_isdigit : ∀ d ∈ digits, isdigit d = true
  code_pos : 0 < readDigits 10 0 digits
  code_lt : readDigits 10 0 digits < 2 ^ 31
  reason_line : ∀ text ∈ reason, 10 ∉ text

def lineEnd (carriageReturn : Bool) : Text :=
  if carriageReturn then [13] else []

namespace HeaderLine

def text (h : HeaderLine) : Text :=
  h.name ++ ':'.toUInt8 :: (h.leading ++ h.value ++ h.trailing ++ lineEnd h.carriageReturn)

/-- Header names are compared in any letter case. -/
def Named (h : HeaderLine) (name : Text) : Prop :=
  h.name.map toLower = name.map toLower

instance (h : HeaderLine) (name : Text) : Decidable (h.Named name) :=
  inferInstanceAs (Decidable (_ = _))

end HeaderLine

namespace StatusLine

def text (s : StatusLine) : Text :=
  ascii "HTTP/" ++ s.version ++ ' '.toUInt8 ::
    (s.digits ++ (s.reason.elim [] (' '.toUInt8 :: ·) ++ lineEnd s.carriageReturn))

def code (s : StatusLine) : Nat :=
  readDigits 10 0 s.digits

end StatusLine

/-- The value of the last header of a name. -/
def lastValue (headers : List HeaderLine) (name : Text) : Option Text :=
  ((headers.filter (·.Named name)).map HeaderLine.value).getLast?

/-- The word occurs in the text, in any letter case. -/
def ContainsWord (word text : Text) : Prop :=
  ∃ before found after, text = before ++ found ++ after ∧ found.map toLower = word.map toLower

/-- Some `Transfer-Encoding` contains `chunked`. -/
def SomeChunked (headers : List HeaderLine) : Prop :=
  ∃ h ∈ headers, h.Named (ascii "Transfer-Encoding") ∧ ContainsWord (ascii "chunked") h.value

/-- No two headers have the same name. -/
def DistinctNames (headers : List HeaderLine) : Prop :=
  headers.Pairwise fun a b => ¬a.Named b.name

theorem dropCarriageReturn_append (a : Text) {b : Text} (hb : b ≠ []) :
    dropCarriageReturn (a ++ b) = a ++ dropCarriageReturn b := by
  unfold dropCarriageReturn
  rw [List.getLast?_append_of_ne_nil _ hb, List.dropLast_append_of_ne_nil hb]
  split <;> rfl

theorem dropCarriageReturn_cons {b : UInt8} (hb : b ≠ 13) (rest : Text) :
    dropCarriageReturn (b :: rest) = b :: dropCarriageReturn rest := by
  by_cases hrest : rest = []
  · subst hrest
    simp [dropCarriageReturn, hb]
  · exact dropCarriageReturn_append [b] hrest

theorem trim_append_space {spaces : Text} (hspaces : ∀ b ∈ spaces, isspace b = true) (s : Text) :
    trim (s ++ spaces) = trim s := by
  have hreverse : ∀ b ∈ spaces.reverse, isspace b = true := fun b hb => hspaces b (List.mem_reverse.mp hb)
  by_cases hblank : s.dropWhile isspace = []
  · have hnone : spaces.dropWhile isspace = [] := List.dropWhile_eq_nil_iff.mpr hspaces
    simp only [trim, List.dropWhile_append, hblank, List.isEmpty_nil, if_true, hnone]
  · have hsome : (s.dropWhile isspace).isEmpty = false := by simpa using hblank
    rw [trim, trim, List.dropWhile_append, hsome, if_neg Bool.false_ne_true, List.reverse_append,
      List.dropWhile_append_of_pos hreverse]

/-- What is trimmed away leaves a text that neither starts nor ends in white space. -/
theorem trim_spaced {leading value trailing : Text} (hleading : ∀ b ∈ leading, isspace b = true)
    (hhead : ∀ b ∈ value.head?, isspace b = false) (hlast : ∀ b ∈ value.getLast?, isspace b = false)
    (htrailing : ∀ b ∈ trailing, isspace b = true) : trim (leading ++ value ++ trailing) = value := by
  have htight (text : Text) (h : ∀ b ∈ text.head?, isspace b = false) : text.dropWhile isspace = text := by
    cases text with
    | nil => rfl
    | cons b text => exact List.dropWhile_cons_of_neg (by simp [h b rfl])
  rw [trim_append_space htrailing, trim, List.dropWhile_append_of_pos hleading, htight value hhead,
    htight value.reverse (by simpa using hlast), List.reverse_reverse]

theorem trim_dropCarriageReturn (text : Text) : trim (dropCarriageReturn text) = trim text := by
  unfold dropCarriageReturn
  split
  · rename_i hlast
    have hsplit := List.dropLast_append_getLast? 13 hlast
    conv_rhs => rw [← hsplit]
    exact (trim_append_space (by simp [isspace]) _).symm
  · rfl

theorem isspace_lineEnd (carriageReturn : Bool) : ∀ b ∈ lineEnd carriageReturn, isspace b = true ∧ b ≠ 10 := by
  cases carriageReturn <;> simp [lineEnd, isspace]

theorem HeaderLine.text_line (h : HeaderLine) : 10 ∉ h.text ∧ dropCarriageReturn h.text ≠ [] := by
  constructor
  · have hcolon : (10 : UInt8) ≠ ':'.toUInt8 := by decide
    have hleading : (10 : UInt8) ∉ h.leading := fun hmem => (h.leading_space _ hmem).2 rfl
    have htrailing : (10 : UInt8) ∉ h.trailing := fun hmem => (h.trailing_space _ hmem).2 rfl
    have hend : (10 : UInt8) ∉ lineEnd h.carriageReturn := fun hmem => (isspace_lineEnd _ _ hmem).2 rfl
    simp only [text, List.mem_append, List.mem_cons, h.name_free.2, hcolon, hleading, h.value_line, htrailing,
      hend, or_self, not_false_iff]
  · rw [text, dropCarriageReturn_append _ (List.cons_ne_nil _ _), dropCarriageReturn_cons (by decide)]
    simp

/-- What the line says is its name and its value. -/
theorem HeaderLine.addLine_text (h : HeaderLine) (fields : ResponseHead) :
    fields.addLine (dropCarriageReturn h.text) =
      if equalsIgnoreCase h.name (ascii "Content-Length") then
        { fields with content_length_ := toInt h.value }
      else if equalsIgnoreCase h.name (ascii "Transfer-Encoding") then
        if (indexOfText (toLowerCase h.value) (ascii "chunked")).isSome then { fields with chunked_ := true }
        else fields
      else if equalsIgnoreCase h.name (ascii "Location") then { fields with location_ := h.value }
      else fields := by
  have hspaces : ∀ b ∈ h.trailing ++ lineEnd h.carriageReturn, isspace b = true := by
    intro b hb
    obtain hb | hb := List.mem_append.mp hb
    · exact (h.trailing_space b hb).1
    · exact (isspace_lineEnd _ b hb).1
  have htrim : trim (dropCarriageReturn (h.leading ++ h.value ++ h.trailing ++ lineEnd h.carriageReturn)) =
      h.value := by
    rw [trim_dropCarriageReturn, List.append_assoc]
    exact trim_spaced (fun b hb => (h.leading_space b hb).1) h.value_head h.value_last hspaces
  rw [text, dropCarriageReturn_append _ (List.cons_ne_nil _ _), dropCarriageReturn_cons (by decide)]
  simp only [ResponseHead.addLine, indexOf_append h.name_free.1, substring_left, substringFrom_after, htrim]

theorem isSome_chunked_iff {value : Text} :
    (indexOfText (toLowerCase value) (ascii "chunked")).isSome = true ↔
      ContainsWord (ascii "chunked") value := by
  have hlower : (ascii "chunked").map toLower = ascii "chunked" := by decide
  rw [isSome_indexOfText_iff, ContainsWord, hlower, toLowerCase]
  constructor
  · rintro ⟨before, after, hsplit⟩
    obtain ⟨front, back, hvalue, hfront, -⟩ := List.map_eq_append_iff.mp hsplit.symm
    obtain ⟨front, found, rfl, -, hfound⟩ := List.map_eq_append_iff.mp hfront
    exact ⟨front, found, back, hvalue, hfound⟩
  · rintro ⟨before, found, after, rfl, hfound⟩
    refine ⟨before.map toLower, after.map toLower, ?_⟩
    rw [List.map_append, List.map_append, hfound]

theorem equalsIgnoreCase_iff {h : HeaderLine} {name : Text} :
    equalsIgnoreCase h.name name = true ↔ h.Named name := by
  rw [equalsIgnoreCase, beq_iff_eq, HeaderLine.Named]

theorem lastValue_concat (headers : List HeaderLine) (h : HeaderLine) (name : Text) :
    lastValue (headers ++ [h]) name = if h.Named name then some h.value else lastValue headers name := by
  unfold lastValue
  by_cases hnamed : h.Named name
  · rw [if_pos hnamed, List.filter_append, List.filter_cons_of_pos (by simpa using hnamed)]
    simp
  · rw [if_neg hnamed, List.filter_append, List.filter_cons_of_neg (by simpa using hnamed)]
    simp

/-- What header lines say: the last length, whether one of them announces chunks, and the
    last location. -/
structure Says (headers : List HeaderLine) (fields : ResponseHead) : Prop where
  content_length : fields.content_length_ = (lastValue headers (ascii "Content-Length")).elim (-1) toInt
  chunked : fields.chunked_ = true ↔ SomeChunked headers
  location : fields.location_ = (lastValue headers (ascii "Location")).getD []

theorem someChunked_concat {headers : List HeaderLine} {h : HeaderLine} :
    SomeChunked (headers ++ [h]) ↔ SomeChunked headers ∨
      h.Named (ascii "Transfer-Encoding") ∧ ContainsWord (ascii "chunked") h.value := by
  simp only [SomeChunked, List.mem_append, List.mem_singleton]
  constructor
  · rintro ⟨g, hg | rfl, hsaid⟩
    · exact .inl ⟨g, hg, hsaid⟩
    · exact .inr hsaid
  · rintro (⟨g, hg, hsaid⟩ | hsaid)
    · exact ⟨g, .inl hg, hsaid⟩
    · exact ⟨h, .inr rfl, hsaid⟩

/-- A header that has one of two different names does not have the other. -/
theorem not_named {h : HeaderLine} {name other : Text} (hnamed : h.Named name)
    (hother : name.map toLower ≠ other.map toLower) : ¬h.Named other :=
  fun hboth => hother (hnamed.symm.trans hboth)

theorem HeaderLine.addLine_content_length (h : HeaderLine) (fields : ResponseHead) :
    (fields.addLine (dropCarriageReturn h.text)).content_length_ =
      if h.Named (ascii "Content-Length") then toInt h.value else fields.content_length_ := by
  rw [h.addLine_text]
  simp only [equalsIgnoreCase_iff]
  split_ifs <;> rfl

theorem HeaderLine.addLine_chunked (h : HeaderLine) (fields : ResponseHead) :
    (fields.addLine (dropCarriageReturn h.text)).chunked_ = true ↔ fields.chunked_ = true ∨
      h.Named (ascii "Transfer-Encoding") ∧ ContainsWord (ascii "chunked") h.value := by
  rw [h.addLine_text, ← isSome_chunked_iff]
  simp only [equalsIgnoreCase_iff]
  by_cases hlength : h.Named (ascii "Content-Length")
  · have hnot : ¬h.Named (ascii "Transfer-Encoding") := not_named hlength (by decide)
    simp only [if_pos hlength, hnot, false_and, or_false]
  · rw [if_neg hlength]
    by_cases hcoding : h.Named (ascii "Transfer-Encoding")
    · rw [if_pos hcoding]
      split
      · rename_i hword
        simp only [hcoding, hword, and_self, or_true]
      · rename_i hword
        simp only [hword, Bool.false_eq_true, and_false, or_false]
    · rw [if_neg hcoding]
      simp only [hcoding, false_and, or_false]
      split <;> rfl

theorem HeaderLine.addLine_location (h : HeaderLine) (fields : ResponseHead) :
    (fields.addLine (dropCarriageReturn h.text)).location_ =
      if h.Named (ascii "Location") then h.value else fields.location_ := by
  rw [h.addLine_text]
  simp only [equalsIgnoreCase_iff]
  by_cases hlocation : h.Named (ascii "Location")
  · have hlength : ¬h.Named (ascii "Content-Length") := not_named hlocation (by decide)
    have hcoding : ¬h.Named (ascii "Transfer-Encoding") := not_named hlocation (by decide)
    rw [if_neg hlength, if_neg hcoding, if_pos hlocation, if_pos hlocation]
  · simp only [if_neg hlocation]
    split_ifs <;> rfl

theorem Says.addLine {headers : List HeaderLine} {fields : ResponseHead} (hsaid : Says headers fields)
    (h : HeaderLine) : Says (headers ++ [h]) (fields.addLine (dropCarriageReturn h.text)) where
  content_length := by
    rw [h.addLine_content_length, lastValue_concat, hsaid.content_length]
    split <;> rfl
  chunked := by rw [h.addLine_chunked, someChunked_concat, hsaid.chunked]
  location := by
    rw [h.addLine_location, lastValue_concat, hsaid.location]
    split <;> rfl

/-- The header lines of a head, each taken in its turn, leave what they say together. -/
theorem says_headers (headers : List HeaderLine) :
    Says headers ((headers.map HeaderLine.text).foldl
      (fun fields line => fields.addLine (dropCarriageReturn line)) ResponseHead.empty) := by
  induction headers using List.reverseRecOn with
  | nil => exact ⟨rfl, by simp [ResponseHead.empty, SomeChunked], rfl⟩
  | append_singleton headers h ih =>
    rw [List.map_append, List.foldl_append]
    exact ih.addLine h

/-- Names that are the same in any letter case count as one name. -/
theorem filter_eq_of_perm {headers headers' : List HeaderLine} (hperm : headers'.Perm headers)
    (hdistinct : DistinctNames headers) (name : Text) :
    headers'.filter (·.Named name) = headers.filter (·.Named name) := by
  have hfilter := hperm.filter (·.Named name)
  have hpairs := hdistinct.filter (·.Named name)
  have hnamed : ∀ h ∈ headers.filter (·.Named name), h.Named name := fun h hh => by
    simpa using (List.mem_filter.mp hh).2
  generalize headers.filter (·.Named name) = found at hfilter hpairs hnamed ⊢
  match found, hpairs, hnamed with
  | [], _, _ => exact List.perm_nil.mp hfilter
  | [h], _, _ => exact List.perm_singleton.mp hfilter
  | h :: g :: _, hpairs, hnamed =>
    have hne := List.rel_of_pairwise_cons hpairs (List.mem_cons_self)
    exact absurd ((hnamed h (by simp)).trans (hnamed g (by simp)).symm) hne

/-- Only the order among headers of one name counts. -/
theorem says_congr {headers headers' : List HeaderLine}
    (hsame : ∀ name, headers'.filter (·.Named name) = headers.filter (·.Named name)) {fields : ResponseHead}
    (hsaid : Says headers fields) : Says headers' fields := by
  have hlast (name : Text) : lastValue headers' name = lastValue headers name := by
    rw [lastValue, lastValue, hsame name]
  have hcoding (h : HeaderLine) : (h ∈ headers' ∧ h.Named (ascii "Transfer-Encoding")) ↔
      (h ∈ headers ∧ h.Named (ascii "Transfer-Encoding")) := by
    have hmem := congrArg (h ∈ ·) (hsame (ascii "Transfer-Encoding"))
    simpa using hmem
  refine ⟨?_, ?_, ?_⟩
  · rw [hlast, hsaid.content_length]
  · rw [hsaid.chunked]
    simp only [SomeChunked, ← and_assoc, hcoding]
  · rw [hlast, hsaid.location]

/-- What a list of headers says is all that a `ResponseHead` holds. -/
theorem Says.unique {headers : List HeaderLine} {fields fields' : ResponseHead} (h : Says headers fields)
    (h' : Says headers fields') : fields = fields' := by
  have hlength := h.content_length.trans h'.content_length.symm
  have hchunked := Bool.eq_iff_iff.mpr (h.chunked.trans h'.chunked.symm)
  have hlocation := h.location.trans h'.location.symm
  cases fields
  cases fields'
  simp_all

namespace StatusLine

theorem text_line (s : StatusLine) : 10 ∉ s.text := by
  have hspace : (10 : UInt8) ≠ ' '.toUInt8 := by decide
  have hhttp : (10 : UInt8) ∉ ascii "HTTP/" := by decide
  have hdigits : (10 : UInt8) ∉ s.digits := fun hmem => absurd (s.digits_isdigit _ hmem) (by decide)
  have hreason : (10 : UInt8) ∉ s.reason.elim [] (' '.toUInt8 :: ·) := by
    cases hreason : s.reason with
    | none => simp
    | some reason =>
      have hline := s.reason_line reason hreason
      simp [hspace, hline]
  have hend : (10 : UInt8) ∉ lineEnd s.carriageReturn := fun hmem => (isspace_lineEnd _ _ hmem).2 rfl
  simp only [text, List.mem_append, List.mem_cons, hhttp, s.version_free.2, hspace, hdigits, hreason, hend,
    or_self, not_false_iff]

theorem space_notMem_front (s : StatusLine) : ' '.toUInt8 ∉ ascii "HTTP/" ++ s.version := by
  have hhttp : ' '.toUInt8 ∉ ascii "HTTP/" := by decide
  simp [hhttp, s.version_free.1]

theorem dropCarriageReturn_text (s : StatusLine) :
    ∃ tail, (tail = [] ∨ ∃ reason, tail = ' '.toUInt8 :: reason) ∧
      dropCarriageReturn s.text = (ascii "HTTP/" ++ s.version) ++ ' '.toUInt8 :: (s.digits ++ tail) := by
  have hfront (rest : Text) : dropCarriageReturn ((ascii "HTTP/" ++ s.version) ++ ' '.toUInt8 :: rest) =
      (ascii "HTTP/" ++ s.version) ++ ' '.toUInt8 :: dropCarriageReturn rest := by
    rw [dropCarriageReturn_append _ (List.cons_ne_nil _ _), dropCarriageReturn_cons (by decide)]
  rw [text, hfront]
  cases s.reason with
  | none =>
    refine ⟨[], .inl rfl, ?_⟩
    rw [List.append_nil, Option.elim_none, List.nil_append]
    congr 2
    cases s.carriageReturn with
    | true => exact (dropCarriageReturn_append s.digits (List.cons_ne_nil 13 [])).trans (List.append_nil _)
    | false =>
      have hlast : s.digits.getLast? ≠ some 13 := fun hlast =>
        absurd (s.digits_isdigit 13 (List.mem_of_getLast? hlast)) (by decide)
      simp only [lineEnd, Bool.false_eq_true, if_false, List.append_nil, dropCarriageReturn, if_neg hlast]
  | some reason =>
    refine ⟨' '.toUInt8 :: dropCarriageReturn (reason ++ lineEnd s.carriageReturn), .inr ⟨_, rfl⟩, ?_⟩
    rw [Option.elim_some, List.cons_append, dropCarriageReturn_append _ (List.cons_ne_nil _ _),
      dropCarriageReturn_cons (by decide)]

theorem toInt_digits_eq (s : StatusLine) : toInt s.digits = s.code := by
  have hvalue : toInt (s.digits ++ []) = _ := toInt_digits s.digits_ne_nil s.digits_isdigit (by simp)
  have hlt := s.code_lt
  rw [List.append_nil] at hvalue
  rw [hvalue]
  refine Int.min_eq_right ?_
  rw [LONG_MAX]
  omega

/-- The code is read from between the first two spaces, or from behind the only one. -/
theorem statusCode_text (s : StatusLine) : statusCode (dropCarriageReturn s.text) = s.code := by
  obtain ⟨tail, htail, htext⟩ := s.dropCarriageReturn_text
  have hstart : startsWith (dropCarriageReturn s.text) (ascii "HTTP/") = true := by
    rw [startsWith, List.isPrefixOf_iff_prefix, htext, List.append_assoc]
    exact List.prefix_append _ _
  have hspace : ' '.toUInt8 ∉ s.digits := fun hmem => absurd (s.digits_isdigit _ hmem) (by decide)
  have hrest := substringFrom_after (ascii "HTTP/" ++ s.version) ' '.toUInt8 (s.digits ++ tail)
  have hcode : (toInt s.digits).bmod (2 ^ 32) = s.code := by
    have hlt := s.code_lt
    rw [s.toInt_digits_eq]
    refine Int.bmod_eq_of_le_mul_two ?_ ?_ <;> rw [code] <;> omega
  have hpos : ¬(s.code : Int) ≤ 0 := by
    have hpos := s.code_pos
    rw [code]
    omega
  rw [statusCode, hstart, Bool.not_true, if_neg Bool.false_ne_true, htext, indexOf_append s.space_notMem_front]
  simp only [indexOfFrom, ← substringFrom_eq, hrest]
  obtain rfl | ⟨reason, rfl⟩ := htail
  · rw [List.append_nil, indexOf_of_not_mem hspace]
    simp only [Option.map_none, hcode, if_neg hpos]
  · have hmiddle := substring_middle (ascii "HTTP/" ++ s.version ++ [' '.toUInt8]) s.digits
      (' '.toUInt8 :: reason)
    have hlength : (ascii "HTTP/" ++ s.version ++ [' '.toUInt8]).length =
        (ascii "HTTP/" ++ s.version).length + 1 := List.length_append
    rw [List.append_assoc, List.singleton_append, hlength] at hmiddle
    rw [indexOf_append hspace]
    simp only [Option.map_some, hmiddle, hcode, if_neg hpos]

end StatusLine

/-- A well-formed response head: a status line, header lines and a blank line. -/
structure WellFormedHead where
  status : StatusLine
  headers : List HeaderLine
  carriageReturn : Bool

namespace WellFormedHead

def encode (head : WellFormedHead) : Text :=
  head.status.text ++ [10] ++
    ((head.headers.map HeaderLine.text).flatMap (· ++ [10]) ++ (lineEnd head.carriageReturn ++ [10]))

def headText (head : WellFormedHead) : HeadText where
  status := head.status.text
  status_line := head.status.text_line
  status_pos := by
    have hpos := head.status.code_pos
    rw [head.status.statusCode_text, StatusLine.code]
    omega
  lines := head.headers.map HeaderLine.text
  lines_line := by
    rintro line hline
    obtain ⟨h, -, rfl⟩ := List.mem_map.mp hline
    exact h.text_line
  blank := lineEnd head.carriageReturn
  blank_line := by cases head.carriageReturn <;> decide

theorem says_fields (head : WellFormedHead) : Says head.headers head.headText.fields :=
  says_headers head.headers

end WellFormedHead

/-- The headers of each name are the same ones, in the same order. -/
def Reordered (headers headers' : List HeaderLine) : Prop :=
  ∀ name, headers'.filter (·.Named name) = headers.filter (·.Named name)

namespace HTTPClient

/-- The client on a connection that delivers these bytes. -/
def withWire (h : HTTPClient) (wire : Wire) (bytes : Text) : HTTPClient :=
  { h with client_ := some { wire, unread := bytes } }

/-- The client once it has read a head whose header lines say `fields`. -/
def withHead (h : HTTPClient) (c : Client) (fields : ResponseHead) : HTTPClient :=
  { h with
    client_ := some c
    content_length_ := fields.content_length_
    chunked_ := fields.chunked_
    location_ := fields.location_ }

theorem readResponseHead_headText (h : HTTPClient) (head : WellFormedHead) {wire : Wire} {rest : Text}
    (hannounced : wire.announced ≤ (head.encode ++ rest).length)
    (hready : head.encode.length ≤ (Wire.feed h.timeout_ms_).ready wire) :
    ∃ c', c'.unread = rest ∧ (h.withWire wire (head.encode ++ rest)).readResponseHead =
      (↑head.status.code, h.withHead c' head.headText.fields) := by
  have hfed : Client.Fed h.timeout_ms_ { wire, unread := head.encode ++ rest } := hannounced
  obtain ⟨more, hsplit⟩ := Client.ready_eq_append hfed rfl hready
  obtain ⟨c', hhead, hreads⟩ := Client.readResponseHead_head hfed head.headText hsplit
  refine ⟨c', hreads.unread_eq rfl, ?_⟩
  have hcode : statusCode (dropCarriageReturn head.headText.status) = head.status.code :=
    head.status.statusCode_text
  simp only [readResponseHead, withWire, hhead, hcode]
  rfl

/-- A well-formed head of which every byte comes before a wait gives up is read whole, and
    nothing behind it. The client then holds its code, its last length and location and
    whether it announces chunks; an order of the headers that keeps those of each name in
    order makes no difference to that. -/
theorem readResponseHead_wellFormed (h : HTTPClient) (head : WellFormedHead) (wire : Wire) (rest : Text)
    (hannounced : wire.announced ≤ (head.encode ++ rest).length)
    (hready : head.encode.length ≤ (Wire.feed h.timeout_ms_).ready wire) :
    ∃ c' fields, c'.unread = rest ∧ Says head.headers fields ∧
      (h.withWire wire (head.encode ++ rest)).readResponseHead = (↑head.status.code, h.withHead c' fields) ∧
      ∀ headers', Reordered head.headers headers' ∨
          headers'.Perm head.headers ∧ DistinctNames head.headers →
        ∀ (head' : WellFormedHead) (wire' : Wire) (rest' : Text), head' = { head with headers := headers' } →
          wire'.announced ≤ (head'.encode ++ rest').length →
          head'.encode.length ≤ (Wire.feed h.timeout_ms_).ready wire' →
          ∃ c'', c''.unread = rest' ∧ (h.withWire wire' (head'.encode ++ rest')).readResponseHead =
            (↑head.status.code, h.withHead c'' fields) := by
  obtain ⟨c', hunread, hresult⟩ := h.readResponseHead_headText head hannounced hready
  refine ⟨c', head.headText.fields, hunread, head.says_fields, hresult, ?_⟩
  rintro headers' hheaders head' wire' rest' rfl hannounced' hready'
  have horder : ∀ name, headers'.filter (·.Named name) = head.headers.filter (·.Named name) := by
    obtain horder | ⟨hperm, hdistinct⟩ := hheaders
    · exact horder
    · exact filter_eq_of_perm hperm hdistinct
  obtain ⟨c'', hunread', hresult'⟩ := h.readResponseHead_headText _ hannounced' hready'
  have hsaid := says_congr horder head.says_fields
  rw [(WellFormedHead.says_fields { head with headers := headers' }).unique hsaid] at hresult'
  exact ⟨c'', hunread', hresult'⟩

end HTTPClient

/-- A length in unusual writing. -/
def WellFormedHead.five : WellFormedHead where
  status :=
    { version := ascii "1.1", digits := ascii "200", reason := some (ascii "OK"), carriageReturn := true
      version_free := by decide +kernel, digits_ne_nil := by decide +kernel
      digits_isdigit := by decide +kernel, code_pos := by decide +kernel, code_lt := by decide +kernel
      reason_line := by decide +kernel }
  headers :=
    [{ name := ascii "content-LENGTH", leading := ascii " \t", value := ascii "5", trailing := ascii " "
       carriageReturn := true, name_free := by decide +kernel, leading_space := by decide +kernel
       value_line := by decide +kernel, value_head := by decide +kernel, value_last := by decide +kernel
       trailing_space := by decide +kernel }]
  carriageReturn := false

theorem HTTPClient.readResponseHead_wellFormed_five :
    ∃ c', c'.unread = ascii "hello" ∧
      (HTTPClient.initial.withWire ⟨0, 0, [20, 22], true⟩
          (WellFormedHead.five.encode ++ ascii "hello")).readResponseHead =
        (200, HTTPClient.initial.withHead c' ⟨5, false, []⟩) := by
  obtain ⟨c', fields, hunread, hsaid, hresult, -⟩ :=
    HTTPClient.initial.readResponseHead_wellFormed WellFormedHead.five ⟨0, 0, [20, 22], true⟩
      (ascii "hello") (by decide +kernel) (by decide +kernel)
  have hunchunked : ¬SomeChunked WellFormedHead.five.headers := by
    rintro ⟨h, hh, hnamed, -⟩
    rw [List.mem_singleton.mp hh] at hnamed
    exact absurd hnamed (by decide +kernel)
  have hfields : Says WellFormedHead.five.headers ⟨5, false, []⟩ :=
    ⟨by decide +kernel, iff_of_false Bool.false_ne_true hunchunked, by decide +kernel⟩
  rw [hsaid.unique hfields] at hresult
  exact ⟨c', hunread, hresult⟩

end HostArduino.http
