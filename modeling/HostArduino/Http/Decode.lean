import HostArduino.Http.Response

namespace HostArduino.http

namespace Client

variable {timeout_ms : UInt16} {c : Client} {ls : List SizeLine} {tail data : Text}

/-- Chunks that are ready whole each add their data, as it comes through the stage. -/
theorem readChunked_chunks_staged (hfed : c.Fed timeout_ms) (hpos : ∀ l ∈ ls, 0 < l.size)
    (hlength : data.length = chunksSize ls) (hunread : c.unread = encodeChunks tail ls data)
    (hready : (encodeChunks tail ls data).length ≤ (c.ready timeout_ms).length) (body : Text) :
    ∃ kepts c', List.Forall₂ (Lib.Staged nonNul) (chunkData ls data) kepts ∧
      readChunked timeout_ms c body = readChunked timeout_ms c' (body ++ kepts.flatten) ∧
      c'.unread = tail ∧ c'.Fed timeout_ms := by
  induction ls generalizing c data body with
  | nil =>
    refine ⟨[], c, .nil, ?_, hunread, hfed⟩
    rw [List.flatten_nil, List.append_nil]
  | cons l ls ih =>
    rw [chunksSize, List.map_cons, List.sum_cons] at hlength
    have hdata : (data.take l.size).length = l.size := by
      rw [List.length_take]
      omega
    have hparts : (encodeChunks tail (l :: ls) data).length =
        l.line.length + 1 + l.size + 2 + (encodeChunks tail ls (data.drop l.size)).length := by
      simp only [encodeChunks, List.length_append, List.length_cons, hdata]
      omega
    obtain ⟨kept, c₁, hkept, hchunk, hunread₁, hlength₁, hreads⟩ :=
      readChunked_chunk_staged hfed (hpos l (by simp)) hunread hdata (by omega) body
    obtain ⟨kepts, c', hkepts, hchunks, hunread', hfed'⟩ := ih hreads.fed (fun l hl => hpos l (by simp [hl]))
      (by rw [List.length_drop, chunksSize]; omega) hunread₁ (by omega) (body ++ kept)
    refine ⟨kept :: kepts, c', .cons hkept hkepts, ?_, hunread', hfed'⟩
    rw [hchunk, hchunks, List.flatten_cons, List.append_assoc]

/-- A body without a NUL has none in its chunks. -/
theorem nulsLast_chunkData (hnul : 0 ∉ data) : ∀ d ∈ chunkData ls data, Lib.StopsLast nonNul d := by
  induction ls generalizing data with
  | nil => simp [chunkData]
  | cons l ls ih =>
    intro d hd
    obtain rfl | hd := List.mem_cons.mp hd
    · exact .of_all (nonNul_of_not_mem fun hmem => hnul (List.mem_of_mem_take hmem))
    · exact ih (fun hmem => hnul (List.mem_of_mem_drop hmem)) d hd

theorem readChunked_encode (hfed : c.Fed timeout_ms) (f : Framing) {body : Text}
    (hlength : body.length = f.size) (hunread : c.unread = f.encode body)
    (hready : (f.encode body).length ≤ (c.ready timeout_ms).length) :
    ∃ kepts, List.Forall₂ (Lib.Staged nonNul) (chunkData f.chunks body) kepts ∧
      (readChunked timeout_ms c []).1 = kepts.flatten := by
  obtain ⟨kepts, c', hkepts, hchunks, hunread', hfed'⟩ :=
    readChunked_chunks_staged hfed f.chunks_pos hlength hunread hready []
  refine ⟨kepts, hkepts, ?_⟩
  rw [hchunks]
  exact readChunked_terminator hfed' f.last_zero hunread' kepts.flatten

/-- A beginning of the bytes to come is ready once as many bytes are. -/
theorem ready_eq_append (hfed : c.Fed timeout_ms) {bytes rest : Text} (hunread : c.unread = bytes ++ rest)
    (hready : bytes.length ≤ (Wire.feed timeout_ms).ready c.wire) :
    ∃ more, c.ready timeout_ms = bytes ++ more := by
  have hlength : (c.ready timeout_ms).length = (Wire.feed timeout_ms).ready c.wire := hfed.length_ready
  have hbytes : bytes <+: c.unread := by
    rw [hunread]
    exact List.prefix_append _ _
  have hhead : bytes <+: c.ready timeout_ms :=
    List.prefix_of_prefix_length_le hbytes (ready_prefix_unread timeout_ms c) (by omega)
  obtain ⟨more, hmore⟩ := hhead
  exact ⟨more, hmore.symm⟩

end Client

section Body

variable (h : HTTPClient) (head : HeadText) {body : Text} {wire : Wire}

/-- A chunked response that comes whole: the data of each chunk goes through the stage. -/
theorem readBody_chunked (f : Framing) (hlength : body.length = f.size)
    (hchunked : head.fields.chunked_ = true)
    (hannounced : wire.announced ≤ (head.encode ++ f.encode body).length)
    (hready : (head.encode ++ f.encode body).length ≤ (Wire.feed h.timeout_ms_).ready wire) :
    ∃ kepts, List.Forall₂ (Lib.Staged nonNul) (chunkData f.chunks body) kepts ∧
      (h.readBody { wire, unread := head.encode ++ f.encode body }).1 = kepts.flatten := by
  have hfed : Client.Fed h.timeout_ms_ { wire, unread := head.encode ++ f.encode body } := hannounced
  rw [List.length_append] at hready
  have hhead : head.encode.length ≤ (Wire.feed h.timeout_ms_).ready wire := by omega
  obtain ⟨rest, hsplit⟩ := Client.ready_eq_append hfed rfl hhead
  obtain ⟨c, hreads, hbody⟩ := h.readBody_head hfed head hsplit
  have hall : (Wire.feed h.timeout_ms_).ready wire =
      head.encode.length + (c.ready h.timeout_ms_).length :=
    hfed.length_ready.symm.trans hreads.length_ready
  simp only [hbody, HTTPClient.getString, hchunked, if_true]
  exact Client.readChunked_encode hreads.fed f hlength (hreads.unread_eq rfl) (by omega)

/-- A response of known length that comes whole: its body goes through the stage, and
    what follows it is not touched. -/
theorem readBody_length (following : Text) (hchunked : head.fields.chunked_ = false)
    (hlength : head.fields.content_length_ = body.length)
    (hannounced : wire.announced ≤ (head.encode ++ (body ++ following)).length)
    (hready : (head.encode ++ body).length ≤ (Wire.feed h.timeout_ms_).ready wire) :
    ∃ kept, Lib.Staged nonNul body kept ∧
      (h.readBody { wire, unread := head.encode ++ (body ++ following) }).1 = kept ∧
      (h.readBody { wire, unread := head.encode ++ (body ++ following) }).2.client_.map (·.unread) =
        some following := by
  have hfed : Client.Fed h.timeout_ms_ { wire, unread := head.encode ++ (body ++ following) } := hannounced
  obtain ⟨rest, hsplit⟩ := Client.ready_eq_append hfed (List.append_assoc _ _ _).symm hready
  rw [List.append_assoc] at hsplit
  obtain ⟨c, hreads, hbody⟩ := h.readBody_head hfed head hsplit
  obtain ⟨kept, c', hkept, hplain, hreads'⟩ := Client.readPlain_staged hreads.fed (hreads.ready_eq hsplit) []
  have hunread : c'.unread = following := hreads'.unread_eq (hreads.unread_eq rfl)
  refine ⟨kept, hkept, ?_⟩
  simp only [hbody, HTTPClient.getString, hchunked, Bool.false_eq_true, if_false, hlength, hplain,
    List.nil_append, Option.map_some, hunread, and_self]

end Body

/-- After `readResponseHead`, `getString` inverts each of the three framings when every
    byte of the response comes before a wait gives up: the chunked encoding, a known
    length with any bytes after the body, none of which it reads, and a body that ends
    with the connection. -/
theorem getString_inverts (h : HTTPClient) (head : HeadText) (body : Text) (hnul : 0 ∉ body) (wire : Wire) :
    (∀ f : Framing, body.length = f.size → head.fields.chunked_ = true →
      wire.announced ≤ (head.encode ++ f.encode body).length →
      (head.encode ++ f.encode body).length ≤ (Wire.feed h.timeout_ms_).ready wire →
        (h.readBody { wire, unread := head.encode ++ f.encode body }).1 = body) ∧
    (∀ following : Text, head.fields.chunked_ = false → head.fields.content_length_ = body.length →
      wire.announced ≤ (head.encode ++ (body ++ following)).length →
      (head.encode ++ body).length ≤ (Wire.feed h.timeout_ms_).ready wire →
        (h.readBody { wire, unread := head.encode ++ (body ++ following) }).1 = body ∧
        (h.readBody { wire, unread := head.encode ++ (body ++ following) }).2.client_.map (·.unread) =
          some following) ∧
    (head.fields.chunked_ = false → head.fields.content_length_ = -1 →
      wire.announced ≤ (head.encode ++ body).length →
      (head.encode ++ body).length ≤ (Wire.feed h.timeout_ms_).ready wire →
        (h.readBody { wire, unread := head.encode ++ body }).1 = body) := by
  refine ⟨?_, ?_, ?_⟩
  · intro f hlength hchunked hannounced hready
    obtain ⟨kepts, hkepts, hresult⟩ := readBody_chunked h head f hlength hchunked hannounced hready
    rw [hresult, Lib.staged_all_eq_filter hkepts (Client.nulsLast_chunkData hnul),
      flatten_chunkData f.chunks hlength, List.filter_eq_self.mpr (nonNul_of_not_mem hnul)]
  · intro following hchunked hlength hannounced hready
    obtain ⟨kept, hkept, hresult⟩ := readBody_length h head following hchunked hlength hannounced hready
    rwa [hkept.eq_self (nonNul_of_not_mem hnul)] at hresult
  · intro hchunked hnone hannounced hready
    have hfed : Client.Fed h.timeout_ms_ { wire, unread := head.encode ++ body } := hannounced
    have hall : Client.ready h.timeout_ms_ { wire, unread := head.encode ++ body } = head.encode ++ body :=
      List.take_of_length_le hready
    obtain ⟨c, hreads, hbody⟩ := h.readBody_head hfed head hall
    have hplain := Client.readPlain_close hreads.fed (hreads.ready_eq hall) hnul []
    simp only [hbody, HTTPClient.getString, hchunked, Bool.false_eq_true, if_false, hnone, hplain,
      List.nil_append]

/-- `HTTP/1.1 200 OK` and a length of 5. -/
def HeadText.five : HeadText where
  status := ascii "HTTP/1.1 200 OK\r"
  status_line := by decide +kernel
  status_pos := by decide +kernel
  lines := [ascii "Content-Length: 5\r"]
  lines_line := by decide +kernel
  blank := [13]
  blank_line := by decide +kernel

/-- A response in two pieces, with other bytes behind its body. -/
theorem getString_inverts_hello :
    (HTTPClient.initial.readBody
      { wire := { now := 0, available := 0, arrivals := [30, 0, 15], closes := true },
        unread := HeadText.five.encode ++ (ascii "hello" ++ ascii "!!") }).1 = ascii "hello" :=
  ((getString_inverts HTTPClient.initial HeadText.five (ascii "hello") (by decide +kernel)
    { now := 0, available := 0, arrivals := [30, 0, 15], closes := true }).2.1 (ascii "!!")
    (by decide +kernel) (by decide +kernel) (by decide +kernel) (by decide +kernel)).1

end HostArduino.http
