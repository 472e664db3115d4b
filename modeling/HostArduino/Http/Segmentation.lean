import HostArduino.Http.Decode

namespace HostArduino.http

open Lib

/-- A connection on which every look at the socket finds the next piece, until the peer closes. -/
def Client.segmented (pieces : List Text) : Client where
  wire := { now := 0, available := 0, arrivals := pieces.map List.length, closes := true }
  unread := pieces.flatten

theorem singles_append (a b : Text) : singles (a ++ b) = singles a ++ singles b :=
  List.map_append

theorem appendBytes_piece (dst : Text) {piece : Text} (hne : piece ≠ []) (hle : piece.length ≤ 256) :
    appendBytes dst piece = dst ++ piece.takeWhile nonNul := by
  have hsome : piece.length ≠ 0 := fun hzero => hne (List.eq_nil_of_length_eq_zero hzero)
  rw [appendBytes, if_neg hsome, List.take_of_length_le hle, List.drop_of_length_le hle, appendBytes,
    if_pos List.length_nil, concatCString]

namespace Client

variable (timeout_ms : UInt16) (pieces : List Text)

theorem read_segmented {piece : Text} (hne : piece ≠ []) {n : Nat} (hle : piece.length ≤ n) :
    ∃ c, waitData timeout_ms (segmented (piece :: pieces)) = (true, c) ∧
      read c n = (piece, segmented pieces) := by
  have hpos : 0 < piece.length := List.length_pos_iff.mpr hne
  have hwire : Wire.waitData timeout_ms (segmented (piece :: pieces)).wire =
      (true, ⟨0, piece.length, pieces.map List.length, true⟩) :=
    if_pos hpos
  have hwait : waitData timeout_ms (segmented (piece :: pieces)) =
      (true, ⟨⟨0, piece.length, pieces.map List.length, true⟩, piece ++ pieces.flatten⟩) := by
    rw [waitData, hwire]
    rfl
  refine ⟨_, hwait, ?_⟩
  simp only [read, Nat.min_eq_right hle, List.take_left, List.drop_left, Wire.take, Nat.sub_self, segmented]

/-- A line that comes byte by byte. -/
theorem readLineLoop_segmented {line : Text} (hline : 10 ∉ line) (out : Text) :
    readLineLoop timeout_ms (segmented (singles (line ++ [10]) ++ pieces)) out =
      (dropCarriageReturn (out ++ line), segmented pieces) := by
  induction line generalizing out with
  | nil =>
    obtain ⟨c, hwait, hread⟩ :=
      read_segmented timeout_ms pieces (List.cons_ne_nil 10 []) (Nat.le_refl 1)
    change readLineLoop timeout_ms (segmented ([10] :: pieces)) out = _
    rw [readLineLoop_step hwait hread, if_pos rfl, List.append_nil]
  | cons ch line ih =>
    obtain ⟨c, hwait, hread⟩ :=
      read_segmented timeout_ms (singles (line ++ [10]) ++ pieces) (List.cons_ne_nil ch []) (Nat.le_refl 1)
    have hother : ch ≠ 10 := fun hnewline => hline (by simp [hnewline])
    change readLineLoop timeout_ms (segmented ([ch] :: (singles (line ++ [10]) ++ pieces))) out = _
    rw [readLineLoop_step hwait hread, if_neg hother, ih fun hmem => hline (by simp [hmem])]
    rw [List.append_assoc]
    rfl

theorem readHTTPLine_segmented {line : Text} (hline : 10 ∉ line) :
    readHTTPLine timeout_ms (segmented (singles (line ++ [10]) ++ pieces)) =
      (dropCarriageReturn line, segmented pieces) :=
  readLineLoop_segmented timeout_ms pieces hline []

/-- Data that comes in pieces of up to 256 bytes: each piece is read and staged by itself. -/
theorem readChunkData_segmented {parts : List Text}
    (hparts : ∀ part ∈ parts, part ≠ [] ∧ part.length ≤ 256) (body : Text) :
    readChunkData timeout_ms (segmented (parts ++ pieces)) body parts.flatten.length =
      (true, body ++ parts.flatMap (·.takeWhile nonNul), segmented pieces) := by
  induction parts generalizing body with
  | nil =>
    change readChunkData timeout_ms (segmented pieces) body 0 = (true, body ++ [], segmented pieces)
    rw [readChunkData, if_pos rfl, List.append_nil]
  | cons part parts ih =>
    obtain ⟨hne, hle⟩ := hparts part (by simp)
    have hrest : ∀ other ∈ parts, other ≠ [] ∧ other.length ≤ 256 := fun other hmem =>
      hparts other (List.mem_cons_of_mem part hmem)
    obtain ⟨b, got, rfl⟩ := List.exists_cons_of_ne_nil hne
    have hlength : ((b :: got) :: parts).flatten.length = (b :: got).length + parts.flatten.length := by
      rw [List.flatten_cons, List.length_append]
    have hmore : ((b :: got) :: parts).flatten.length ≠ 0 := by
      rw [hlength, List.length_cons]
      omega
    have hwant : (b :: got).length ≤ if ((b :: got) :: parts).flatten.length < 256 then
        ((b :: got) :: parts).flatten.length else 256 := by
      split
      · omega
      · exact hle
    obtain ⟨c, hwait, hread⟩ := read_segmented timeout_ms (parts ++ pieces) hne hwant
    rw [List.cons_append, readChunkData_step hwait hread body hmore, appendBytes_piece body hne hle, hlength,
      Nat.add_sub_cancel_left, ih hrest, List.append_assoc, List.flatMap_cons]

/-- A chunk whose framing comes byte by byte adds what is in front of the NULs of its pieces. -/
theorem readChunked_segmented {l : SizeLine} (hl : 0 < l.size) {parts : List Text}
    (hparts : ∀ part ∈ parts, part ≠ [] ∧ part.length ≤ 256) (hsize : parts.flatten.length = l.size)
    (body : Text) :
    readChunked timeout_ms
        (segmented (singles (l.line ++ [10]) ++ (parts ++ (singles ([13] ++ [10]) ++ pieces)))) body =
      readChunked timeout_ms (segmented pieces) (body ++ parts.flatMap (·.takeWhile nonNul)) := by
  have hline := readHTTPLine_segmented timeout_ms (parts ++ (singles ([13] ++ [10]) ++ pieces))
    l.newline_not_mem_line
  have hcr : (10 : UInt8) ∉ [13] := by decide
  have hend := readHTTPLine_segmented timeout_ms pieces hcr
  have hdata := readChunkData_segmented timeout_ms (singles ([13] ++ [10]) ++ pieces) hparts body
  rw [l.dropCarriageReturn_line] at hline
  have hnumber : (strtol l.text 16).toNat = parts.flatten.length := by
    rw [l.strtol_text, Int.toNat_natCast, hsize]
  rw [readChunked_of_data hline (by rw [l.strtol_text]; exact_mod_cast hl) (by rw [hnumber, hdata])]
  simp only [Bool.not_true, Bool.false_eq_true, if_false, hend]

end Client

/-- The pieces of a chunked encoding whose framing comes byte by byte, and the data of
    each chunk as `parts` cuts it. -/
def segments (parts : Text → List Text) (tail : Text) : List SizeLine → Text → List Text
  | [], _ => singles tail
  | l :: ls, body =>
    singles (l.line ++ [10]) ++
      (parts (body.take l.size) ++ (singles ([13] ++ [10]) ++ segments parts tail ls (body.drop l.size)))

/-- A way to cut data into pieces, none of them empty and none too long for one read. -/
structure Cuts (parts : Text → List Text) : Prop where
  flatten_eq : ∀ data, (parts data).flatten = data
  pieces : ∀ data, ∀ part ∈ parts data, part ≠ [] ∧ part.length ≤ 256

theorem cuts_singles : Cuts singles where
  flatten_eq := flatten_singles
  pieces data part hpart := by
    obtain ⟨b, -, rfl⟩ := List.mem_map.mp hpart
    exact ⟨List.cons_ne_nil b [], Nat.succ_le_succ (Nat.zero_le 255)⟩

theorem cuts_pairs : Cuts (pairs nonNul) where
  flatten_eq := flatten_pairs nonNul
  pieces data part hpart := by
    obtain ⟨hne, hle⟩ := mem_pairs hpart
    exact ⟨hne, by omega⟩

theorem Cuts.flatten_segments {parts : Text → List Text} (hparts : Cuts parts) (tail : Text)
    (ls : List SizeLine) (body : Text) :
    (segments parts tail ls body).flatten = encodeChunks tail ls body := by
  induction ls generalizing body with
  | nil => exact flatten_singles tail
  | cons l ls ih =>
    rw [segments, List.flatten_append, List.flatten_append, List.flatten_append, flatten_singles,
      flatten_singles, hparts.flatten_eq, ih, encodeChunks, List.append_assoc]
    rfl

theorem Cuts.pieces_segments {parts : Text → List Text} (hparts : Cuts parts) (tail : Text)
    (ls : List SizeLine) (body : Text) : ∀ piece ∈ segments parts tail ls body, piece ≠ [] := by
  have hsingles : ∀ text : Text, ∀ piece ∈ singles text, piece ≠ [] := fun text piece hpiece =>
    (cuts_singles.pieces text piece hpiece).1
  induction ls generalizing body with
  | nil => exact hsingles tail
  | cons l ls ih =>
    intro piece hpiece
    rw [segments, List.mem_append, List.mem_append, List.mem_append] at hpiece
    obtain hpiece | hpiece | hpiece | hpiece := hpiece
    · exact hsingles _ piece hpiece
    · exact (hparts.pieces _ piece hpiece).1
    · exact hsingles _ piece hpiece
    · exact ih _ piece hpiece

/-- Every chunk of a body adds what is in front of the NULs of its pieces. -/
theorem Cuts.readChunked_segments {parts : Text → List Text} (hparts : Cuts parts) (timeout_ms : UInt16)
    (tail : Text) {ls : List SizeLine} (hpos : ∀ l ∈ ls, 0 < l.size) {data : Text}
    (hlength : data.length = chunksSize ls) (body : Text) :
    Client.readChunked timeout_ms (.segmented (segments parts tail ls data)) body =
      Client.readChunked timeout_ms (.segmented (singles tail))
        (body ++ (chunkData ls data).flatMap fun d => (parts d).flatMap (·.takeWhile nonNul)) := by
  induction ls generalizing data body with
  | nil => rw [segments, chunkData, List.flatMap_nil, List.append_nil]
  | cons l ls ih =>
    rw [chunksSize, List.map_cons, List.sum_cons] at hlength
    have hsize : (parts (data.take l.size)).flatten.length = l.size := by
      rw [hparts.flatten_eq, List.length_take]
      omega
    have hrest : (data.drop l.size).length = chunksSize ls := by
      rw [List.length_drop, chunksSize]
      omega
    rw [segments, Client.readChunked_segmented timeout_ms _ (hpos l (by simp)) (hparts.pieces _) hsize,
      ih (fun l hl => hpos l (by simp [hl])) hrest, chunkData, List.flatMap_cons, List.append_assoc]

namespace Client

/-- Header lines that come byte by byte. -/
theorem readHeaderLines_segmented (timeout_ms : UInt16) (pieces : List Text) {lines : List Text}
    (hlines : ∀ line ∈ lines, 10 ∉ line ∧ dropCarriageReturn line ≠ []) {blank : Text}
    (hblank : 10 ∉ blank ∧ dropCarriageReturn blank = []) (fields : ResponseHead) :
    readHeaderLines timeout_ms
        (segmented (singles (HeadText.encodeLines lines ++ (blank ++ [10])) ++ pieces)) fields =
      (lines.foldl (fun fields line => fields.addLine (dropCarriageReturn line)) fields,
        segmented pieces) := by
  induction lines generalizing fields with
  | nil =>
    have hread := readHTTPLine_segmented timeout_ms pieces hblank.1
    change readHeaderLines timeout_ms (segmented (singles (blank ++ [10]) ++ pieces)) fields = _
    rw [readHeaderLines]
    simp only [hread, hblank.2, List.length_nil, if_true, List.foldl_nil]
  | cons line lines ih =>
    obtain ⟨hnewline, hne⟩ := hlines line (by simp)
    have hread := readHTTPLine_segmented timeout_ms
      (singles (HeadText.encodeLines lines ++ (blank ++ [10])) ++ pieces) hnewline
    have hsplit : singles (HeadText.encodeLines (line :: lines) ++ (blank ++ [10])) ++ pieces =
        singles (line ++ [10]) ++ (singles (HeadText.encodeLines lines ++ (blank ++ [10])) ++ pieces) := by
      rw [HeadText.encodeLines, List.flatMap_cons, List.append_assoc, singles_append, List.append_assoc]
      rfl
    rw [hsplit, readHeaderLines]
    simp only [hread, List.length_eq_zero_iff, if_neg hne, List.foldl_cons]
    exact ih (fun l hl => hlines l (by simp [hl])) _

theorem readResponseHead_segmented (timeout_ms : UInt16) (pieces : List Text) (head : HeadText) :
    readResponseHead timeout_ms (segmented (singles head.encode ++ pieces)) =
      (statusCode (dropCarriageReturn head.status), head.fields, segmented pieces) := by
  have hread := readHTTPLine_segmented timeout_ms
    (singles (HeadText.encodeLines head.lines ++ (head.blank ++ [10])) ++ pieces) head.status_line
  have hlines :=
    readHeaderLines_segmented timeout_ms pieces head.lines_line head.blank_line ResponseHead.empty
  have hpos : ¬statusCode (dropCarriageReturn head.status) ≤ 0 := Int.not_le.mpr head.status_pos
  rw [HeadText.encode, singles_append, List.append_assoc]
  simp only [readResponseHead, hread, if_neg hpos, hlines]
  rfl

end Client

theorem HTTPClient.readBody_segmented (h : HTTPClient) (head : HeadText) (pieces : List Text) :
    h.readBody (.segmented (singles head.encode ++ pieces)) = ({ h with
      client_ := some (.segmented pieces), content_length_ := head.fields.content_length_,
      chunked_ := head.fields.chunked_, location_ := head.fields.location_ } : HTTPClient).getString := by
  simp only [readBody, readResponseHead, Client.readResponseHead_segmented]

/-- The wire delivers the response before a wait gives up, and nothing after it. -/
structure Wire.Delivers (timeout_ms : UInt16) (response : Text) (wire : Wire) : Prop where
  announced : wire.announced ≤ response.length
  ready : response.length ≤ (Wire.feed timeout_ms).ready wire

/-- Pieces that each come at the first look are all ready. -/
theorem ready_arrivals (timeout_ms : UInt16) {arrivals : List Nat} (hpos : ∀ n ∈ arrivals, 0 < n)
    (available : Nat) :
    available + arrivals.sum ≤ (Wire.feed timeout_ms).ready ⟨0, available, arrivals, true⟩ := by
  induction arrivals generalizing available with
  | nil => exact Feed.arrived_le_ready (A := Wire.feed timeout_ms) (w := ⟨0, available, [], true⟩)
  | cons n arrivals ih =>
    have hdrain : (Wire.feed timeout_ms).drain ⟨0, available, n :: arrivals, true⟩ =
        ⟨0, 0, n :: arrivals, true⟩ := by
      change (⟨0, available - available, n :: arrivals, true⟩ : Wire) = _
      rw [Nat.sub_self]
    have hwait : (Wire.feed timeout_ms).wait ⟨0, 0, n :: arrivals, true⟩ = (true, ⟨0, n, arrivals, true⟩) :=
      if_pos (hpos n (by simp))
    have hready := (Feed.burst_of_drain_true (A := Wire.feed timeout_ms) (by rw [hdrain, hwait])).1
    rw [hdrain, hwait] at hready
    have hrest := ih (fun m hm => hpos m (by simp [hm])) n
    rw [hready, List.sum_cons]
    exact Nat.add_le_add_left hrest available

theorem delivers_segmented (timeout_ms : UInt16) {pieces : List Text}
    (hpieces : ∀ piece ∈ pieces, piece ≠ []) :
    Wire.Delivers timeout_ms pieces.flatten (Client.segmented pieces).wire := by
  have hpos : ∀ n ∈ pieces.map List.length, 0 < n := by
    intro n hn
    obtain ⟨piece, hpiece, rfl⟩ := List.mem_map.mp hn
    exact List.length_pos_iff.mpr (hpieces piece hpiece)
  have hready := ready_arrivals timeout_ms hpos 0
  rw [Nat.zero_add, ← List.length_flatten] at hready
  refine ⟨?_, hready⟩
  rw [List.length_flatten]
  exact Nat.le_of_eq (Nat.zero_add _)

/-- However the response comes, as long as no wait gives up before the end of it,
    `getString` returns the same. -/
def HTTPClient.SameBody (h : HTTPClient) (response : Text) : Prop :=
  ∀ wire wire' : Wire, wire.Delivers h.timeout_ms_ response → wire'.Delivers h.timeout_ms_ response →
    (h.readBody { wire, unread := response }).1 = (h.readBody { wire := wire', unread := response }).1

/-- Behind a NUL there are only NULs. -/
abbrev NulsLast (data : Text) : Prop :=
  StopsLast nonNul data

section SameBody

variable (h : HTTPClient) (head : HeadText)

theorem readBody_segments {parts : Text → List Text} (hparts : Cuts parts) (f : Framing) {body : Text}
    (hlength : body.length = f.size) (hchunked : head.fields.chunked_ = true) :
    (h.readBody (.segmented (singles head.encode ++ segments parts f.tail f.chunks body))).1 =
      (chunkData f.chunks body).flatMap fun d => (parts d).flatMap (·.takeWhile nonNul) := by
  have htail : ∀ piece ∈ singles f.tail, piece ≠ [] := fun piece hpiece =>
    (cuts_singles.pieces f.tail piece hpiece).1
  have hfed : (Client.segmented (singles f.tail)).Fed h.timeout_ms_ :=
    (delivers_segmented h.timeout_ms_ htail).announced
  rw [h.readBody_segmented]
  simp only [HTTPClient.getString, hchunked, if_true]
  rw [hparts.readChunked_segments h.timeout_ms_ f.tail f.chunks_pos hlength []]
  exact Client.readChunked_terminator hfed f.last_zero (flatten_singles f.tail) _

theorem readBody_parts {parts : Text → List Text} (hparts : Cuts parts) {body : Text}
    (hchunked : head.fields.chunked_ = false) (hlength : head.fields.content_length_ = body.length) :
    (h.readBody (.segmented (singles head.encode ++ parts body))).1 =
      (parts body).flatMap (·.takeWhile nonNul) := by
  have hdata := Client.readChunkData_segmented h.timeout_ms_ [] (hparts.pieces body) []
  rw [List.append_nil, hparts.flatten_eq] at hdata
  rw [h.readBody_segmented]
  simp only [HTTPClient.getString, hchunked, Bool.false_eq_true, if_false, hlength]
  rw [Client.readPlain_eq_readChunkData, hdata]
  rfl

variable {h} in
theorem HTTPClient.SameBody.pieces {response : Text} (hsame : h.SameBody response)
    {pieces pieces' : List Text} (hflatten : pieces.flatten = response) (hflatten' : pieces'.flatten = response)
    (hpieces : ∀ piece ∈ pieces, piece ≠ []) (hpieces' : ∀ piece ∈ pieces', piece ≠ []) :
    (h.readBody (.segmented pieces)).1 = (h.readBody (.segmented pieces')).1 := by
  subst hflatten
  have hdelivers' := delivers_segmented h.timeout_ms_ hpieces'
  have hsecond : Client.segmented pieces' = ⟨(Client.segmented pieces').wire, pieces.flatten⟩ := by
    rw [← hflatten']
    rfl
  rw [hflatten'] at hdelivers'
  rw [hsecond]
  exact hsame _ _ (delivers_segmented h.timeout_ms_ hpieces) hdelivers'

/-- The pieces of a response whose head comes byte by byte are its bytes, and none is empty. -/
theorem head_pieces {pieces : List Text} {rest : Text} (hflatten : pieces.flatten = rest)
    (hpieces : ∀ piece ∈ pieces, piece ≠ []) :
    (singles head.encode ++ pieces).flatten = head.encode ++ rest ∧
      ∀ piece ∈ singles head.encode ++ pieces, piece ≠ [] := by
  refine ⟨?_, fun piece hpiece => ?_⟩
  · rw [List.flatten_append, flatten_singles, hflatten]
  · obtain hpiece | hpiece := List.mem_append.mp hpiece
    · exact (cuts_singles.pieces _ piece hpiece).1
    · exact hpieces piece hpiece

theorem sameBody_chunked_iff (f : Framing) {body : Text} (hlength : body.length = f.size)
    (hchunked : head.fields.chunked_ = true) :
    h.SameBody (head.encode ++ f.encode body) ↔ ∀ data ∈ chunkData f.chunks body, NulsLast data := by
  constructor
  · intro hsame
    have hpieces : ∀ {parts : Text → List Text}, Cuts parts →
        (singles head.encode ++ segments parts f.tail f.chunks body).flatten = head.encode ++ f.encode body ∧
          ∀ piece ∈ singles head.encode ++ segments parts f.tail f.chunks body, piece ≠ [] :=
      fun hparts => head_pieces head (hparts.flatten_segments _ _ _) (hparts.pieces_segments _ _ _)
    have hbody := hsame.pieces (hpieces cuts_pairs).1 (hpieces cuts_singles).1 (hpieces cuts_pairs).2
      (hpieces cuts_singles).2
    rw [readBody_segments h head cuts_pairs f hlength hchunked,
      readBody_segments h head cuts_singles f hlength hchunked] at hbody
    rw [flatMap_singles_all] at hbody
    exact stopsLast_of_pairs_all (congrArg List.length hbody)
  · intro hlast wire wire' hdelivers hdelivers'
    obtain ⟨kepts, hkepts, hresult⟩ :=
      readBody_chunked h head f hlength hchunked hdelivers.announced hdelivers.ready
    obtain ⟨kepts', hkepts', hresult'⟩ :=
      readBody_chunked h head f hlength hchunked hdelivers'.announced hdelivers'.ready
    rw [hresult, hresult', staged_all_eq_filter hkepts hlast, staged_all_eq_filter hkepts' hlast]

theorem sameBody_length_iff {body : Text} (hchunked : head.fields.chunked_ = false)
    (hlength : head.fields.content_length_ = body.length) :
    h.SameBody (head.encode ++ body) ↔ NulsLast body := by
  constructor
  · intro hsame
    have hpieces : ∀ {parts : Text → List Text}, Cuts parts →
        (singles head.encode ++ parts body).flatten = head.encode ++ body ∧
          ∀ piece ∈ singles head.encode ++ parts body, piece ≠ [] :=
      fun hparts => head_pieces head (hparts.flatten_eq body) fun piece hpiece =>
        (hparts.pieces body piece hpiece).1
    have hbody := hsame.pieces (hpieces cuts_pairs).1 (hpieces cuts_singles).1 (hpieces cuts_pairs).2
      (hpieces cuts_singles).2
    rw [readBody_parts h head cuts_pairs hchunked hlength,
      readBody_parts h head cuts_singles hchunked hlength, flatMap_singles] at hbody
    exact stopsLast_of_pairs (congrArg List.length hbody)
  · intro hlast wire wire' hdelivers hdelivers'
    obtain ⟨kept, hkept, hresult, -⟩ :=
      readBody_length h head [] hchunked hlength (by simpa using hdelivers.announced) hdelivers.ready
    obtain ⟨kept', hkept', hresult', -⟩ :=
      readBody_length h head [] hchunked hlength (by simpa using hdelivers'.announced) hdelivers'.ready
    rw [List.append_nil] at hresult hresult'
    rw [hresult, hresult', hkept.eq_filter hlast, hkept'.eq_filter hlast]

end SameBody

/-- The `String` that `getString` returns for a response that comes whole is the same for
    every way the response can come in pieces exactly when no byte other than a NUL stands
    behind a NUL in the body; in a chunked body, when none does in the data of one chunk. -/
theorem getString_timing_iff (h : HTTPClient) (head : HeadText) (body : Text) :
    (∀ f : Framing, body.length = f.size → head.fields.chunked_ = true →
      (h.SameBody (head.encode ++ f.encode body) ↔ ∀ data ∈ chunkData f.chunks body, NulsLast data)) ∧
    (head.fields.chunked_ = false → head.fields.content_length_ = body.length →
      (h.SameBody (head.encode ++ body) ↔ NulsLast body)) :=
  ⟨fun f hlength hchunked => sameBody_chunked_iff h head f hlength hchunked,
    fun hchunked hlength => sameBody_length_iff h head hchunked hlength⟩

theorem getString_timing_hello : HTTPClient.initial.SameBody (HeadText.five.encode ++ ascii "hello") :=
  ((getString_timing_iff HTTPClient.initial HeadText.five (ascii "hello")).2 (by decide +kernel)
    (by decide +kernel)).mpr (.of_all (by decide +kernel))

/-- Five bytes with a NUL as the second, in one piece and in two pieces cut behind the NUL. -/
theorem getString_depends_on_timing :
    Wire.Delivers 5000 (HeadText.five.encode ++ [104, 0, 105, 106, 107]) ⟨0, 0, [43], true⟩ ∧
    Wire.Delivers 5000 (HeadText.five.encode ++ [104, 0, 105, 106, 107]) ⟨0, 0, [40, 3], true⟩ ∧
    (HTTPClient.initial.readBody
      { wire := ⟨0, 0, [43], true⟩, unread := HeadText.five.encode ++ [104, 0, 105, 106, 107] }).1 =
        ascii "h" ∧
    (HTTPClient.initial.readBody
      { wire := ⟨0, 0, [40, 3], true⟩, unread := HeadText.five.encode ++ [104, 0, 105, 106, 107] }).1 =
        ascii "hijk" := by
  refine ⟨⟨?_, ?_⟩, ⟨?_, ?_⟩, ?_, ?_⟩
  all_goals decide +kernel

end HostArduino.http
