import HostArduino.Http.Chunked

namespace HostArduino.http

/-- A stall after `n` bytes of the chunks falls inside a size line, behind a digit other
    than 0 and before the line feed; `b` is the byte of the size line that comes next. -/
inductive CutsSizeLine : List SizeLine → Nat → UInt8 → Prop
  | here {l : SizeLine} {ls : List SizeLine} {n : Nat} {b : UInt8}
      (hdigit : 0 < readDigits 16 0 (l.digits.take n)) (hbyte : (l.line ++ [10])[n]? = some b) :
      CutsSizeLine (l :: ls) n b
  | later {l : SizeLine} {ls : List SizeLine} {n : Nat} {b : UInt8} (h : CutsSizeLine ls n b) :
      CutsSizeLine (l :: ls) (l.line.length + 1 + l.size + 2 + n) b

theorem CutsSizeLine.ne_nul {ls : List SizeLine} {n : Nat} {b : UInt8} (h : CutsSizeLine ls n b) : b ≠ 0 := by
  induction h with
  | @here l ls n b hdigit hbyte =>
    rintro rfl
    obtain hline | hnewline := List.mem_append.mp (List.mem_of_getElem? hbyte)
    · exact l.nul_not_mem_line hline
    · exact absurd hnewline (by decide)
  | later h ih => exact ih

namespace Client

variable {timeout_ms : UInt16} {c : Client} {ls : List SizeLine} {last : SizeLine} {more data : Text}

/-- A stall that cuts a size line ends the reading, if nothing is read after it. -/
theorem readChunked_stall_sizeLine {l : SizeLine} {tail : Text} (hfed : c.Fed timeout_ms)
    (hunread : c.unread = encodeChunks tail (l :: ls) data)
    (hcut : (c.ready timeout_ms).length ≤ l.line.length)
    (hsafe : ∀ b, CutsSizeLine (l :: ls) (c.ready timeout_ms).length b →
      (c.stalled timeout_ms).ready timeout_ms = []) (body : Text) :
    (readChunked timeout_ms c body).1 = body := by
  obtain ⟨hmore, -⟩ | ⟨-, htake, hread⟩ := readHTTPLine_line hfed hunread l.newline_not_mem_line
  · omega
  · have hnumber := l.strtol_take_line (c.ready timeout_ms).length
    rw [← htake] at hnumber
    obtain hzero | hdigit :=
      Nat.eq_zero_or_pos (readDigits 16 0 (l.digits.take (c.ready timeout_ms).length))
    · exact readChunked_of_last hread (by rw [hnumber, hzero]; exact Int.le_refl _) body
    · have hnext : (c.ready timeout_ms).length < (l.line ++ [10]).length := by
        rw [List.length_append]
        exact Nat.lt_succ_of_le hcut
      have hstall := hsafe _ (.here hdigit (List.getElem?_eq_getElem hnext))
      obtain ⟨hwait, -⟩ | ⟨c₁, b, got, c', hwait, hreads', hle, hreads⟩ :=
        waitData_read hfed.stalled Nat.one_pos
      · rw [readChunked_of_data hread (by omega)
          (readChunkData_stall hwait body (by omega))]
        rfl
      · have hfirst := hreads.ready
        rw [hstall] at hfirst
        cases hfirst

/-- Decoding yields a prefix of the data unless the reading goes on after a stall that
    cuts a size line. -/
theorem readChunked_prefix (hfed : c.Fed timeout_ms) (hpos : ∀ l ∈ ls, 0 < l.size) (hlast : last.size = 0)
    (hlength : data.length = chunksSize ls) (hnul : 0 ∉ data)
    (hunread : c.unread = encodeChunks (last.line ++ 10 :: more) ls data)
    (hsafe : ∀ b, CutsSizeLine ls (c.ready timeout_ms).length b →
      (c.stalled timeout_ms).ready timeout_ms = []) (body : Text) :
    ∃ d, d <+: data ∧ (readChunked timeout_ms c body).1 = body ++ d := by
  induction ls generalizing c data body with
  | nil =>
    refine ⟨[], List.nil_prefix, ?_⟩
    rw [readChunked_terminator hfed hlast hunread, List.append_nil]
  | cons l ls ih =>
    have hl : 0 < l.size := hpos l (by simp)
    rw [chunksSize, List.map_cons, List.sum_cons] at hlength
    have hdata : (data.take l.size).length = l.size := by
      rw [List.length_take]
      omega
    have hnul₁ : 0 ∉ data.take l.size := fun hmem => hnul (List.mem_of_mem_take hmem)
    obtain hline | hcut := Nat.lt_or_ge l.line.length (c.ready timeout_ms).length
    · obtain hshort | hfull := Nat.lt_or_ge (c.ready timeout_ms).length (l.line.length + 1 + l.size)
      · obtain ⟨d, hd, hresult⟩ := readChunked_stall_data hfed hl hunread hdata hline hshort hnul₁ body
        exact ⟨d, hd.trans (List.take_prefix _ _), hresult⟩
      · obtain hend | hwhole := Nat.lt_or_ge (c.ready timeout_ms).length (l.line.length + 1 + l.size + 2)
        · obtain ⟨c₁, hchunk, hunread₁, hlength₁, hreads⟩ :=
            readChunked_chunk_data hfed hl hunread hdata hfull hnul₁ body
          refine ⟨data.take l.size, List.take_prefix _ _, ?_⟩
          rw [hchunk]
          exact readChunked_stall_lineEnd hreads.fed hunread₁ (by omega) _
        · obtain ⟨c₁, hchunk, hunread₁, hlength₁, hreads⟩ :=
            readChunked_chunk hfed hl hunread hdata hwhole hnul₁ body
          have hsafe₁ : ∀ b, CutsSizeLine ls (c₁.ready timeout_ms).length b →
              (c₁.stalled timeout_ms).ready timeout_ms = [] := by
            intro b hcut
            rw [hreads.stalled]
            refine hsafe b ?_
            rw [hlength₁]
            exact .later hcut
          obtain ⟨d, hd, hresult⟩ := ih hreads.fed (fun l hl => hpos l (by simp [hl]))
            (by rw [List.length_drop, chunksSize]; omega) (fun hmem => hnul (List.mem_of_mem_drop hmem))
            hunread₁ hsafe₁ (body ++ data.take l.size)
          refine ⟨data.take l.size ++ d, ?_, ?_⟩
          · obtain ⟨after, hafter⟩ := hd
            refine ⟨after, ?_⟩
            rw [List.append_assoc, hafter, List.take_append_drop]
          · rw [hchunk, hresult, List.append_assoc]
    · refine ⟨[], List.nil_prefix, ?_⟩
      rw [List.append_nil]
      exact readChunked_stall_sizeLine hfed hunread hcut hsafe body

/-- A reading that goes on after a stall that cuts a size line puts the next byte of the
    line into the body. -/
theorem readChunked_leak {b : UInt8} {n : Nat} (hcut : CutsSizeLine ls n b) (hfed : c.Fed timeout_ms)
    (hready : (c.ready timeout_ms).length = n) (hpos : ∀ l ∈ ls, 0 < l.size)
    (hlength : data.length = chunksSize ls) (hnul : 0 ∉ data) {tail : Text}
    (hunread : c.unread = encodeChunks tail ls data)
    (hmore : (c.stalled timeout_ms).ready timeout_ms ≠ []) (body : Text) :
    b ∈ (readChunked timeout_ms c body).1 := by
  have hb := hcut.ne_nul
  induction hcut generalizing c data body with
  | @here l ls n b hdigit hbyte =>
    subst hready
    obtain ⟨hlt, hget⟩ := List.getElem?_eq_some_iff.mp hbyte
    rw [List.length_append] at hlt
    obtain ⟨hline, -⟩ | ⟨-, htake, hread⟩ := readHTTPLine_line hfed hunread l.newline_not_mem_line
    · exact absurd hlt (Nat.not_lt.mpr hline)
    · have hnumber := l.strtol_take_line (c.ready timeout_ms).length
      rw [← htake] at hnumber
      have hunread₁ := stalled_unread hfed
      rw [hunread, encodeChunks, ← List.singleton_append, ← List.append_assoc,
        List.drop_append_of_le_length (by rw [List.length_append]; omega),
        List.drop_eq_getElem_cons (by rw [List.length_append]; exact hlt), hget] at hunread₁
      obtain ⟨more, hready₁⟩ := ready_cons_of_unread hunread₁ hmore
      have hsize : (strtol (c.ready timeout_ms) 16).toNat ≠ 0 := by omega
      have hleak := prefix_readChunkData_cons hfed.stalled hready₁ hb body hsize
      have hmem := hleak.subset (List.mem_append_right _ (List.mem_singleton_self b))
      rw [readChunked_of_data hread (by omega) rfl]
      split
      · exact hmem
      · exact (prefix_readChunked _ _ _).subset hmem
  | @later l ls n b hcut ih =>
    have hl : 0 < l.size := hpos l (by simp)
    rw [chunksSize, List.map_cons, List.sum_cons] at hlength
    have hdata : (data.take l.size).length = l.size := by
      rw [List.length_take]
      omega
    obtain ⟨c₁, hchunk, hunread₁, hlength₁, hreads⟩ := readChunked_chunk hfed hl hunread hdata (by omega)
      (fun hmem => hnul (List.mem_of_mem_take hmem)) body
    rw [hchunk]
    exact ih hreads.fed (by omega) (fun l hl => hpos l (by simp [hl]))
      (by rw [List.length_drop, chunksSize]; omega) (fun hmem => hnul (List.mem_of_mem_drop hmem)) hunread₁
      (by rwa [hreads.stalled]) _ hb

end Client

/-- For a framing and a delivery schedule, `getString` yields a prefix of every body if
    and only if the first wait that gives up does not cut a size line behind its first
    digit other than 0, or the wait after it gives up too: `readHTTPLine` hands over a
    line that timed out as if it were whole, and the rest of it is then read as data. -/
theorem getString_prefix_iff (f : Framing) (wire : Wire) (hfed : wire.announced ≤ f.length)
    (h : HTTPClient) (hchunked : h.chunked_ = true) :
    (∀ body : Text, body.length = f.size → 0 ∉ body →
        ({ h with client_ := some { wire, unread := f.encode body } } : HTTPClient).getString.1 <+: body) ↔
      ((∃ b, CutsSizeLine f.chunks ((Wire.feed h.timeout_ms_).ready wire) b) →
        (Wire.feed h.timeout_ms_).ready ((Wire.feed h.timeout_ms_).stalled wire) = 0) := by
  have hclient : ∀ body : Text, body.length = f.size →
      Client.Fed h.timeout_ms_ { wire, unread := f.encode body } := by
    intro body hbody
    change wire.announced ≤ (f.encode body).length
    rwa [f.length_encode hbody]
  have hresult : ∀ body : Text,
      ({ h with client_ := some { wire, unread := f.encode body } } : HTTPClient).getString.1 =
        (Client.readChunked h.timeout_ms_ { wire, unread := f.encode body } []).1 := by
    intro body
    simp only [HTTPClient.getString, hchunked, if_true]
  constructor
  · rintro hprefix ⟨b, hcut⟩
    by_contra hmore
    -- A body of one byte only, which is not the byte of the framing that leaks.
    obtain ⟨x, hx, hx0⟩ : ∃ x : UInt8, x ≠ b ∧ x ≠ 0 := by
      by_cases hb : b = 1
      · exact ⟨2, by rw [hb]; decide, by decide⟩
      · exact ⟨1, Ne.symm hb, by decide⟩
    have hlength : (List.replicate f.size x).length = f.size := List.length_replicate
    have hnul : 0 ∉ List.replicate f.size x := fun hmem => hx0 (List.eq_of_mem_replicate hmem).symm
    have hfed' := hclient _ hlength
    have hleak := Client.readChunked_leak hcut hfed' hfed'.length_ready f.chunks_pos hlength hnul rfl
      (List.ne_nil_of_length_pos (by rw [hfed'.stalled.length_ready]; exact Nat.pos_of_ne_zero hmore)) []
    have hsub := hprefix _ hlength hnul
    rw [hresult] at hsub
    exact hx (List.eq_of_mem_replicate (hsub.subset hleak)).symm
  · intro hsafe body hlength hnul
    have hfed' := hclient body hlength
    have hstall : ∀ b, CutsSizeLine f.chunks
        (Client.ready h.timeout_ms_ { wire, unread := f.encode body }).length b →
          (Client.stalled h.timeout_ms_ { wire, unread := f.encode body }).ready h.timeout_ms_ = [] := by
      intro b hcut
      rw [hfed'.length_ready] at hcut
      refine List.eq_nil_of_length_eq_zero ?_
      rw [hfed'.stalled.length_ready]
      exact hsafe ⟨b, hcut⟩
    obtain ⟨d, hd, hdecoded⟩ :=
      Client.readChunked_prefix hfed' f.chunks_pos f.last_zero hlength hnul rfl hstall []
    rw [hresult, hdecoded]
    exact hd

/-- A connection that closes in the middle of a size line: nothing comes after it. -/
theorem getString_prefix_closed :
    ({ HTTPClient.initial with
      client_ := some {
        wire := { now := 0, available := 0, arrivals := [1], closes := true },
        unread := Framing.five.encode (ascii "hello") },
      chunked_ := true, timeout_ms_ := 1 } : HTTPClient).getString.1 <+: ascii "hello" :=
  (getString_prefix_iff Framing.five { now := 0, available := 0, arrivals := [1], closes := true }
    (by decide +kernel) { HTTPClient.initial with chunked_ := true, timeout_ms_ := 1 } rfl).mpr
    (fun _ => by decide +kernel) (ascii "hello") (by decide +kernel) (by decide +kernel)

/-- A delivery that stalls between the size and its line end: the line end becomes data. -/
theorem getString_leaks_line_end :
    ({ HTTPClient.initial with
      client_ := some {
        wire := { now := 0, available := 0, arrivals := [1, 0, 0, 14], closes := false },
        unread := Framing.five.encode (ascii "hello") },
      chunked_ := true, timeout_ms_ := 1 } : HTTPClient).getString.1 = ascii "\r\nhel" ∧
    ¬ascii "\r\nhel" <+: ascii "hello" := by
  decide +kernel

end HostArduino.http
