import HostArduino.Http.Chunked
import HostArduino.Http.Head

namespace HostArduino.http

/-- A response head on the wire: a status line with a positive code, header lines, and a
    blank line, each without its line feed. -/
structure HeadText where
  status : Text
  status_line : 10 ∉ status
  status_pos : 0 < statusCode (dropCarriageReturn status)
  lines : List Text
  lines_line : ∀ line ∈ lines, 10 ∉ line ∧ dropCarriageReturn line ≠ []
  blank : Text
  blank_line : 10 ∉ blank ∧ dropCarriageReturn blank = []

namespace HeadText

def encodeLines (lines : List Text) : Text :=
  lines.flatMap (· ++ [10])

def encode (head : HeadText) : Text :=
  head.status ++ [10] ++ (encodeLines head.lines ++ (head.blank ++ [10]))

/-- What the header lines say, each in its turn. -/
def fields (head : HeadText) : ResponseHead :=
  head.lines.foldl (fun fields line => fields.addLine (dropCarriageReturn line)) ResponseHead.empty

end HeadText

namespace Client

variable {timeout_ms : UInt16} {c : Client}

/-- Header lines that are ready are read one by one, up to the blank one. -/
theorem readHeaderLines_lines (hfed : c.Fed timeout_ms) {lines : List Text}
    (hlines : ∀ line ∈ lines, 10 ∉ line ∧ dropCarriageReturn line ≠ []) {blank rest : Text}
    (hblank : 10 ∉ blank ∧ dropCarriageReturn blank = [])
    (hready : c.ready timeout_ms = HeadText.encodeLines lines ++ (blank ++ [10]) ++ rest)
    (fields : ResponseHead) :
    ∃ c', readHeaderLines timeout_ms c fields =
        (lines.foldl (fun fields line => fields.addLine (dropCarriageReturn line)) fields, c') ∧
      Reads timeout_ms c (HeadText.encodeLines lines ++ (blank ++ [10])) c' := by
  induction lines generalizing c fields with
  | nil =>
    have hline : c.ready timeout_ms = blank ++ 10 :: rest := by
      rw [hready]
      simp [HeadText.encodeLines]
    obtain ⟨c', hread, hreads⟩ := readHTTPLine_of_newline hfed hline hblank.1
    refine ⟨c', ?_, hreads⟩
    rw [readHeaderLines]
    simp only [hread, hblank.2, List.length_nil, if_true, List.foldl_nil]
  | cons line lines ih =>
    obtain ⟨hnewline, hne⟩ := hlines line (by simp)
    have hlist : HeadText.encodeLines (line :: lines) = line ++ [10] ++ HeadText.encodeLines lines := rfl
    have hsplit : c.ready timeout_ms =
        line ++ [10] ++ (HeadText.encodeLines lines ++ (blank ++ [10]) ++ rest) := by
      rw [hready, hlist]
      simp only [List.append_assoc]
    have hline := hsplit
    rw [List.append_assoc, List.singleton_append] at hline
    obtain ⟨c₁, hread, hreads⟩ := readHTTPLine_of_newline hfed hline hnewline
    have hrest := hreads.ready_eq hsplit
    obtain ⟨c', hloop, hreads'⟩ := ih hreads.fed (fun l hl => hlines l (by simp [hl])) hrest
      (fields.addLine (dropCarriageReturn line))
    refine ⟨c', ?_, ?_⟩
    · rw [readHeaderLines]
      simp only [hread, List.length_eq_zero_iff, if_neg hne, List.foldl_cons]
      exact hloop
    · rw [hlist, List.append_assoc]
      exact hreads.trans hreads'

/-- A response head that is ready is read whole, and nothing behind it. -/
theorem readResponseHead_head (hfed : c.Fed timeout_ms) (head : HeadText) {rest : Text}
    (hready : c.ready timeout_ms = head.encode ++ rest) :
    ∃ c', readResponseHead timeout_ms c =
        (statusCode (dropCarriageReturn head.status), head.fields, c') ∧
      Reads timeout_ms c head.encode c' := by
  have hsplit : c.ready timeout_ms =
      head.status ++ [10] ++ (HeadText.encodeLines head.lines ++ (head.blank ++ [10]) ++ rest) := by
    rw [hready, HeadText.encode, List.append_assoc]
  have hline := hsplit
  rw [List.append_assoc, List.singleton_append] at hline
  obtain ⟨c₁, hread, hreads⟩ := readHTTPLine_of_newline hfed hline head.status_line
  have hrest := hreads.ready_eq hsplit
  obtain ⟨c', hlines, hreads'⟩ :=
    readHeaderLines_lines hreads.fed head.lines_line head.blank_line hrest ResponseHead.empty
  refine ⟨c', ?_, hreads.trans hreads'⟩
  have hpos : ¬statusCode (dropCarriageReturn head.status) ≤ 0 := Int.not_le.mpr head.status_pos
  simp only [readResponseHead, hread, if_neg hpos, hlines]
  rfl

end Client

namespace HTTPClient

/-- `readResponseHead` and then one `getString`, on a client that has sent its request. -/
def readBody (h : HTTPClient) (c : Client) : Text × HTTPClient :=
  ({ h with client_ := some c } : HTTPClient).readResponseHead.2.getString

theorem readBody_head (h : HTTPClient) {c : Client} (hfed : c.Fed h.timeout_ms_) (head : HeadText)
    {rest : Text} (hready : c.ready h.timeout_ms_ = head.encode ++ rest) :
    ∃ c', Client.Reads h.timeout_ms_ c head.encode c' ∧
      h.readBody c = ({ h with
        client_ := some c', content_length_ := head.fields.content_length_,
        chunked_ := head.fields.chunked_, location_ := head.fields.location_ } : HTTPClient).getString := by
  obtain ⟨c', hhead, hreads⟩ := Client.readResponseHead_head hfed head hready
  refine ⟨c', hreads, ?_⟩
  simp only [readBody, readResponseHead, hhead]

end HTTPClient

end HostArduino.http
