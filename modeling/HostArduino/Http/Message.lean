import HostArduino.Http.Request
import HostArduino.Lib.Lines

namespace HostArduino.http

open Lib

def crlf : Text := ascii "\r\n"

theorem crlf_ne : crlf ≠ [] := by decide

theorem fresh_of_all {sep : Text} (hsep : sep.all fun x => !crlf.contains x) : ∀ x ∈ sep, x ∉ crlf := by
  simpa using hsep

/-- A request as whoever receives it takes it apart. -/
structure Message where
  verb : Text
  target : Text
  fields : List (Text × Text)
  body : Text
  deriving DecidableEq

namespace Message

def startLine (m : Message) : Text :=
  m.verb ++ (ascii " " ++ (m.target ++ (ascii " " ++ ascii "HTTP/1.1")))

def fieldLine (field : Text × Text) : Text :=
  field.1 ++ (ascii ": " ++ field.2)

def headLines (m : Message) : List Text :=
  m.startLine :: m.fields.map fieldLine

def text (m : Message) : Text :=
  m.headLines.flatMap (· ++ crlf) ++ (crlf ++ m.body)

/-- How long the first field for it says the body is. -/
def bodyLength (fields : List (Text × Text)) : Nat :=
  match fields.find? fun field => equalsIgnoreCase field.1 (ascii "Content-Length") with
  | some field => readDigits 10 0 field.2
  | none => 0

/-- The verb and the target of a request. -/
def parseStart (line : Text) : Option (Text × Text) :=
  (cut (ascii " ") line).bind fun verb =>
    (cut (ascii " ") verb.2).bind fun target =>
      if target.2 = ascii "HTTP/1.1" then some (verb.1, target.1) else none

def parseFields : List Text → Option (List (Text × Text))
  | [] => some []
  | line :: rest =>
    (cut (ascii ": ") line).bind fun field => (parseFields rest).map (field :: ·)

/-- The first request of a connection, and the bytes behind it. -/
def parse (s : Text) : Option (Message × Text) :=
  (lines crlf_ne s).bind fun head =>
    match head.1 with
    | [] => none
    | start :: rest =>
      (parseStart start).bind fun start =>
        (parseFields rest).bind fun fields =>
          if bodyLength fields ≤ head.2.length then
            some
              ({ verb := start.1
                 target := start.2
                 fields
                 body := head.2.take (bodyLength fields) },
                head.2.drop (bodyLength fields))
          else none

/-- A message none of whose parts holds what separates it from the next. -/
structure Clean (m : Message) : Prop where
  verb : ' '.toUInt8 ∉ m.verb
  target : ' '.toUInt8 ∉ m.target
  names : ∀ field ∈ m.fields, ¬ascii ": " <:+: field.1
  lines : ∀ line ∈ m.headLines, ¬crlf <:+: line
  body : bodyLength m.fields = m.body.length

theorem cut_space {s front back : Text} :
    cut (ascii " ") s = some (front, back) ↔ s = front ++ (ascii " " ++ back) ∧ ' '.toUInt8 ∉ front := by
  have hunbordered : Unbordered (ascii " ") := by
    intro i hi _
    exact Nat.lt_one_iff.mp hi
  have hwithin : ascii " " <:+: front ↔ ' '.toUInt8 ∈ front := List.singleton_infix_iff _ _
  rw [cut_eq_some_iff (by decide), free_iff (by decide) hunbordered, hwithin]

theorem parseStart_eq_some_iff {line verb target : Text} :
    parseStart line = some (verb, target) ↔
      line = verb ++ (ascii " " ++ (target ++ (ascii " " ++ ascii "HTTP/1.1"))) ∧
        ' '.toUInt8 ∉ verb ∧ ' '.toUInt8 ∉ target := by
  simp only [parseStart, Option.bind_eq_some_iff, Prod.exists, cut_space]
  constructor
  · rintro ⟨_, _, ⟨rfl, hverb⟩, _, _, ⟨rfl, htarget⟩, hparse⟩
    split at hparse
    · rename_i hversion
      obtain ⟨rfl, rfl⟩ := Prod.mk.inj (Option.some.inj hparse)
      exact ⟨by rw [hversion], hverb, htarget⟩
    · cases hparse
  · rintro ⟨rfl, hverb, htarget⟩
    exact ⟨verb, _, ⟨rfl, hverb⟩, target, _, ⟨rfl, htarget⟩, if_pos rfl⟩

theorem cut_colon {line name value : Text} :
    cut (ascii ": ") line = some (name, value) ↔ line = fieldLine (name, value) ∧ ¬ascii ": " <:+: name := by
  have hunbordered : Unbordered (ascii ": ") := unbordered_pair (by decide)
  rw [cut_eq_some_iff (by decide), free_iff (by decide) hunbordered]
  exact Iff.rfl

theorem parseFields_eq_some_iff {ls : List Text} {fields : List (Text × Text)} :
    parseFields ls = some fields ↔
      ls = fields.map fieldLine ∧ ∀ field ∈ fields, ¬ascii ": " <:+: field.1 := by
  induction ls generalizing fields with
  | nil =>
    rw [parseFields, Option.some.injEq]
    constructor
    · rintro rfl
      exact ⟨rfl, by simp⟩
    · rintro ⟨hnil, -⟩
      exact (List.map_eq_nil_iff.mp hnil.symm).symm
  | cons line ls ih =>
    simp only [parseFields, Option.bind_eq_some_iff, Option.map_eq_some_iff, Prod.exists, cut_colon, ih]
    constructor
    · rintro ⟨name, value, ⟨rfl, hname⟩, rest, ⟨rfl, hrest⟩, rfl⟩
      exact ⟨rfl, List.forall_mem_cons.mpr ⟨hname, hrest⟩⟩
    · rintro ⟨hlines, hnames⟩
      cases fields with
      | nil => cases hlines
      | cons field fields =>
        obtain ⟨rfl, rfl⟩ := List.cons.inj hlines
        obtain ⟨hname, hrest⟩ := List.forall_mem_cons.mp hnames
        exact ⟨field.1, field.2, ⟨rfl, hname⟩, fields, ⟨rfl, hrest⟩, rfl⟩

theorem lines_crlf {s back : Text} {ls : List Text} :
    Lib.lines crlf_ne s = some (ls, back) ↔
      s = ls.flatMap (· ++ crlf) ++ (crlf ++ back) ∧ ∀ line ∈ ls, line ≠ [] ∧ ¬crlf <:+: line := by
  have hunbordered : Unbordered crlf := unbordered_pair (by decide)
  simp only [lines_eq_some_iff, free_iff crlf_ne hunbordered]

theorem headLines_ne_nil {m : Message} {line : Text} (hline : line ∈ m.headLines) : line ≠ [] := by
  rw [headLines, List.mem_cons, List.mem_map] at hline
  obtain rfl | ⟨field, -, rfl⟩ := hline
  · simp [startLine, ascii]
  · simp [fieldLine, ascii]

/-- A message is read exactly from its own text, and only if it is clean. -/
theorem parse_eq_some_iff {s rest : Text} {m : Message} :
    parse s = some (m, rest) ↔ s = m.text ++ rest ∧ m.Clean := by
  constructor
  · intro h
    obtain ⟨⟨ls, back⟩, hlines, hhead⟩ := Option.bind_eq_some_iff.mp h
    obtain ⟨rfl, hclean⟩ := lines_crlf.mp hlines
    cases ls with
    | nil => cases hhead
    | cons start ls =>
      obtain ⟨⟨verb, target⟩, hstart, hrest⟩ := Option.bind_eq_some_iff.mp hhead
      obtain ⟨fields, hfields, hbytes⟩ := Option.bind_eq_some_iff.mp hrest
      obtain ⟨rfl, hverb, htarget⟩ := parseStart_eq_some_iff.mp hstart
      obtain ⟨rfl, hnames⟩ := parseFields_eq_some_iff.mp hfields
      dsimp only at hbytes
      split at hbytes
      · rename_i hbody
        obtain ⟨rfl, rfl⟩ := Prod.mk.inj (Option.some.inj hbytes)
        constructor
        · simp only [text, headLines, startLine, List.append_assoc, List.take_append_drop]
        · exact {
            verb := hverb
            target := htarget
            names := hnames
            lines := fun line hline => (hclean line hline).2
            body := (List.length_take_of_le hbody).symm }
      · cases hbytes
  · rintro ⟨rfl, hclean⟩
    have hlines : Lib.lines crlf_ne (m.text ++ rest) = some (m.headLines, m.body ++ rest) := by
      refine lines_crlf.mpr ⟨by simp only [text, List.append_assoc], fun line hline => ?_⟩
      exact ⟨headLines_ne_nil hline, hclean.lines line hline⟩
    have hstart : parseStart m.startLine = some (m.verb, m.target) :=
      parseStart_eq_some_iff.mpr ⟨rfl, hclean.verb, hclean.target⟩
    have hfields : parseFields (m.fields.map fieldLine) = some m.fields :=
      parseFields_eq_some_iff.mpr ⟨rfl, hclean.names⟩
    have hlength : bodyLength m.fields ≤ (m.body ++ rest).length := by
      rw [List.length_append, hclean.body]
      exact Nat.le_add_right _ _
    simp only [parse, hlines, Option.bind_some, headLines, hstart, hfields, if_pos hlength]
    rw [hclean.body, List.take_left, List.drop_left]

theorem crlf_fieldLine {field : Text × Text} :
    crlf <:+: fieldLine field ↔ crlf <:+: field.1 ∨ crlf <:+: field.2 :=
  infix_append_iff crlf_ne (by decide) (fresh_of_all (by decide))

theorem crlf_line {name value : Text} (hname : ¬crlf <:+: name) :
    crlf <:+: fieldLine (name, value) ↔ crlf <:+: value :=
  crlf_fieldLine.trans (or_iff_right hname)

theorem crlf_startLine {m : Message} : crlf <:+: m.startLine ↔ crlf <:+: m.verb ∨ crlf <:+: m.target := by
  have hversion : ¬crlf <:+: ascii "HTTP/1.1" := by decide
  rw [startLine, infix_append_iff crlf_ne (by decide) (fresh_of_all (by decide)),
    infix_append_iff crlf_ne (by decide) (fresh_of_all (by decide)), or_iff_left hversion]

end Message

theorem crlf_formatUnsigned (n : Nat) : ¬crlf <:+: formatUnsigned n := by
  intro hwithin
  have hmem : 13 ∈ formatUnsigned n := hwithin.subset (by decide)
  exact absurd (isdigit_formatUnsigned n 13 hmem) (by decide)

theorem crlf_hostAndPort {use_https_ : Bool} {host_ : Text} {port_ : UInt16} :
    crlf <:+: hostAndPort use_https_ host_ port_ ↔ crlf <:+: host_ := by
  rw [hostAndPort]
  split
  · rw [List.append_assoc, infix_append_iff crlf_ne (by decide) (fresh_of_all (by decide)),
      or_iff_left (crlf_formatUnsigned port_.toNat)]
  · exact Iff.rfl

namespace Request

open Message

def userFields (r : Request) : List (Text × Text) :=
  r.request_headers_.map fun header => (header.name, header.value)

/-- The fields of a request in front of those its user added. -/
def ownFields (r : Request) : List (Text × Text) :=
  (ascii "Host", hostAndPort r.use_https_ r.host_ r.port_) ::
    (ascii "User-Agent", if 0 < r.user_agent_.length then r.user_agent_ else ascii "host-arduino-core/1") ::
    (ascii "Connection", ascii "close") ::
    if 0 < r.payload.length then [(ascii "Content-Length", formatUnsigned r.payload.length)] else []

/-- What the request is to say. -/
def message (r : Request) : Message where
  verb := r.verb
  target := if 0 < r.uri_.length then r.uri_ else ascii "/"
  fields := r.ownFields ++ r.userFields
  body := r.payload

/-- A request none of whose parts can be taken for another. -/
structure Clean (r : Request) : Prop where
  verb : ' '.toUInt8 ∉ r.verb ∧ ¬crlf <:+: r.verb
  uri_ : ' '.toUInt8 ∉ r.uri_ ∧ ¬crlf <:+: r.uri_
  host_ : ¬crlf <:+: r.host_
  user_agent_ : ¬crlf <:+: r.user_agent_
  headers : ∀ header ∈ r.request_headers_,
    ¬ascii ": " <:+: header.name ∧ ¬crlf <:+: header.name ∧ ¬crlf <:+: header.value
  length : r.payload = [] → bodyLength r.userFields = 0

theorem text_message (r : Request) : r.message.text = r.text ++ r.payload := by
  have hhost : ascii " HTTP/1.1\r\nHost: " =
      ascii " " ++ (ascii "HTTP/1.1" ++ (crlf ++ (ascii "Host" ++ ascii ": "))) := by decide
  have hagent : ascii "\r\nUser-Agent: " = crlf ++ (ascii "User-Agent" ++ ascii ": ") := by decide
  have hconnection : ascii "\r\nConnection: close\r\n" =
      crlf ++ (ascii "Connection" ++ (ascii ": " ++ (ascii "close" ++ crlf))) := by decide
  have hlength : ascii "Content-Length: " = ascii "Content-Length" ++ ascii ": " := by decide
  have huser : (r.userFields.map fieldLine).flatMap (· ++ crlf) = r.request_headers_.flatMap headerLine := by
    simp only [userFields, List.map_map, List.flatMap_map]
    refine List.flatMap_congr fun header _ => ?_
    simp only [Function.comp_apply, fieldLine, headerLine, List.append_assoc, crlf]
  have hbody : ((if 0 < r.payload.length then [(ascii "Content-Length", formatUnsigned r.payload.length)]
      else []).map fieldLine).flatMap (· ++ crlf) =
      if 0 < r.payload.length then
        ascii "Content-Length" ++ (ascii ": " ++ (formatUnsigned r.payload.length ++ crlf))
      else [] := by
    split
    · simp only [List.map_cons, List.map_nil, List.flatMap_cons, List.flatMap_nil, fieldLine, List.append_assoc,
        List.append_nil]
    · rfl
  rw [Message.text, message, headLines, List.flatMap_cons, List.map_append, List.flatMap_append, huser]
  simp only [ownFields, List.map_cons, List.flatMap_cons, hbody]
  simp only [startLine, fieldLine, text, hhost, hagent, hconnection, hlength, List.append_assoc]
  rfl

/-- With a payload, the length is the client's own field; without, only its user can name one. -/
theorem bodyLength_message (r : Request) :
    bodyLength r.message.fields = if r.payload = [] then bodyLength r.userFields else r.payload.length := by
  have hhost : equalsIgnoreCase (ascii "Host") (ascii "Content-Length") = false := by decide
  have hagent : equalsIgnoreCase (ascii "User-Agent") (ascii "Content-Length") = false := by decide
  have hconnection : equalsIgnoreCase (ascii "Connection") (ascii "Content-Length") = false := by decide
  have hlength : equalsIgnoreCase (ascii "Content-Length") (ascii "Content-Length") = true := by decide
  simp only [bodyLength, message, ownFields, List.cons_append, List.find?_cons, hhost, hagent, hconnection]
  by_cases hpayload : r.payload = []
  · rw [if_pos hpayload, if_neg (by simp [hpayload])]
    rfl
  · rw [if_neg hpayload, if_pos (List.length_pos_iff.mpr hpayload)]
    simp only [List.cons_append, List.find?_cons, hlength]
    exact (formatUnsigned_spec r.payload.length).2.2

theorem forall_ownFields (r : Request) {P : Text × Text → Prop} :
    (∀ field ∈ r.ownFields, P field) ↔
      P (ascii "Host", hostAndPort r.use_https_ r.host_ r.port_) ∧
        P (ascii "User-Agent", if 0 < r.user_agent_.length then r.user_agent_ else ascii "host-arduino-core/1") ∧
          P (ascii "Connection", ascii "close") ∧
            (0 < r.payload.length → P (ascii "Content-Length", formatUnsigned r.payload.length)) := by
  have hbody : (∀ field ∈ if 0 < r.payload.length then [(ascii "Content-Length", formatUnsigned r.payload.length)]
      else [], P field) ↔ (0 < r.payload.length → P (ascii "Content-Length", formatUnsigned r.payload.length)) := by
    split
    · rename_i hpayload
      rw [List.forall_mem_singleton, forall_prop_of_true hpayload]
    · rename_i hpayload
      exact iff_of_true (List.forall_mem_nil _) fun h => absurd h hpayload
  rw [ownFields, List.forall_mem_cons, List.forall_mem_cons, List.forall_mem_cons, hbody]

theorem names_ownFields (r : Request) : ∀ field ∈ r.ownFields, ¬ascii ": " <:+: field.1 := by
  have hhost : ¬ascii ": " <:+: ascii "Host" := by decide
  have hagent : ¬ascii ": " <:+: ascii "User-Agent" := by decide
  have hconnection : ¬ascii ": " <:+: ascii "Connection" := by decide
  have hlength : ¬ascii ": " <:+: ascii "Content-Length" := by decide
  exact r.forall_ownFields.mpr ⟨hhost, hagent, hconnection, fun _ => hlength⟩

theorem lines_ownFields (r : Request) :
    (∀ field ∈ r.ownFields, ¬crlf <:+: fieldLine field) ↔ ¬crlf <:+: r.host_ ∧ ¬crlf <:+: r.user_agent_ := by
  have hagent : crlf <:+: (if 0 < r.user_agent_.length then r.user_agent_ else ascii "host-arduino-core/1") ↔
      crlf <:+: r.user_agent_ := by
    split
    · exact Iff.rfl
    · rename_i hempty
      rw [List.eq_nil_of_length_eq_zero (Nat.eq_zero_of_not_pos hempty)]
      decide
  have hconnection : ¬crlf <:+: fieldLine (ascii "Connection", ascii "close") := by decide
  have hlength : ¬crlf <:+: fieldLine (ascii "Content-Length", formatUnsigned r.payload.length) := by
    rw [crlf_line (by decide)]
    exact crlf_formatUnsigned _
  rw [forall_ownFields, crlf_line (by decide), crlf_hostAndPort, crlf_line (by decide), hagent]
  exact and_congr_right fun _ => and_iff_left ⟨hconnection, fun _ => hlength⟩

theorem target_message (r : Request) :
    (' '.toUInt8 ∈ r.message.target ↔ ' '.toUInt8 ∈ r.uri_) ∧ (crlf <:+: r.message.target ↔ crlf <:+: r.uri_) := by
  simp only [message]
  split
  · exact ⟨Iff.rfl, Iff.rfl⟩
  · rename_i hempty
    rw [List.eq_nil_of_length_eq_zero (Nat.eq_zero_of_not_pos hempty)]
    decide

/-- The lines of a request hold an end of a line only where its parts do. -/
theorem lines_message (r : Request) :
    (∀ line ∈ r.message.headLines, ¬crlf <:+: line) ↔
      (¬crlf <:+: r.verb ∧ ¬crlf <:+: r.uri_) ∧ (¬crlf <:+: r.host_ ∧ ¬crlf <:+: r.user_agent_) ∧
        ∀ header ∈ r.request_headers_, ¬crlf <:+: header.name ∧ ¬crlf <:+: header.value := by
  have hlines : (∀ line ∈ r.message.headLines, ¬crlf <:+: line) ↔
      ¬crlf <:+: r.message.startLine ∧ (∀ field ∈ r.ownFields, ¬crlf <:+: fieldLine field) ∧
        ∀ field ∈ r.userFields, ¬crlf <:+: fieldLine field := by
    simp only [headLines, message, List.forall_mem_cons, List.forall_mem_map, List.forall_mem_append]
  rw [hlines, crlf_startLine, not_or, r.target_message.2, lines_ownFields]
  simp only [crlf_fieldLine, not_or, userFields, List.forall_mem_map]
  exact Iff.rfl

theorem clean_message_iff (r : Request) : r.message.Clean ↔ r.Clean := by
  constructor
  · intro h
    obtain ⟨⟨hverb, huri⟩, ⟨hhost, hagent⟩, huser⟩ := r.lines_message.mp h.lines
    refine {
      verb := ⟨h.verb, hverb⟩
      uri_ := ⟨mt r.target_message.1.mpr h.target, huri⟩
      host_ := hhost
      user_agent_ := hagent
      headers := fun header hheader => ⟨?_, huser header hheader⟩
      length := fun hpayload => ?_ }
    · exact h.names _ (List.mem_append_right _ (List.mem_map_of_mem hheader))
    · have hbody := h.body
      rwa [bodyLength_message, if_pos hpayload, message, hpayload] at hbody
  · intro h
    refine {
      verb := h.verb.1
      target := mt r.target_message.1.mp h.uri_.1
      names := List.forall_mem_append.mpr ⟨r.names_ownFields, ?_⟩
      lines := r.lines_message.mpr ⟨⟨h.verb.2, h.uri_.2⟩, ⟨h.host_, h.user_agent_⟩, fun header hheader =>
        (h.headers header hheader).2⟩
      body := ?_ }
    · exact List.forall_mem_map.mpr fun header hheader => (h.headers header hheader).1
    · rw [bodyLength_message]
      split
      · rename_i hpayload
        rw [h.length hpayload, message, hpayload]
        rfl
      · rfl

/-- Whoever takes the request apart finds exactly what it is to say, and behind it what
    follows, if and only if none of its parts holds the mark that ends it. -/
theorem request_framing (r : Request) (rest : Text) :
    parse (r.text ++ (r.payload ++ rest)) = some (r.message, rest) ↔ r.Clean := by
  rw [parse_eq_some_iff, clean_message_iff, text_message, List.append_assoc]
  exact and_iff_right rfl

end Request

end HostArduino.http
