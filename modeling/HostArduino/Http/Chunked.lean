import HostArduino.Http.Framing
import HostArduino.Http.Reading

namespace HostArduino.http

namespace Client

variable {timeout_ms : UInt16} {c : Client}

/-- A line is read whole, or the reading stalls at its line feed or before it. -/
theorem readHTTPLine_line (hfed : c.Fed timeout_ms) {line rest : Text}
    (hunread : c.unread = line ++ 10 :: rest) (hline : 10 ∉ line) :
    (line.length < (c.ready timeout_ms).length ∧
        ∃ c', readHTTPLine timeout_ms c = (dropCarriageReturn line, c') ∧
          Reads timeout_ms c (line ++ [10]) c') ∨
      ((c.ready timeout_ms).length ≤ line.length ∧
        c.ready timeout_ms = line.take (c.ready timeout_ms).length ∧
        readHTTPLine timeout_ms c = (c.ready timeout_ms, c.stalled timeout_ms)) := by
  have hready : c.ready timeout_ms <+: line ++ 10 :: rest := hunread ▸ ready_prefix_unread timeout_ms c
  obtain hmore | hless := Nat.lt_or_ge line.length (c.ready timeout_ms).length
  · have hline' : line ++ [10] <+: line ++ 10 :: rest := ⟨rest, by simp⟩
    have hwhole : line ++ [10] <+: c.ready timeout_ms := by
      refine List.prefix_of_prefix_length_le hline' hready ?_
      rw [List.length_append]
      exact hmore
    obtain ⟨after, hafter⟩ := hwhole
    rw [List.append_assoc] at hafter
    exact .inl ⟨hmore, readHTTPLine_of_newline hfed hafter.symm hline⟩
  · have htake : c.ready timeout_ms = line.take (c.ready timeout_ms).length := by
      have hhead := List.prefix_iff_eq_take.mp hready
      rwa [List.take_append_of_le_length hless] at hhead
    refine .inr ⟨hless, htake, readHTTPLine_of_stall hfed ?_⟩
    intro hmem
    rw [htake] at hmem
    exact hline (List.mem_of_mem_take hmem)

theorem readChunked_of_empty {c₁ : Client} (hline : readHTTPLine timeout_ms c = ([], c₁)) (body : Text) :
    (readChunked timeout_ms c body).1 = body := by
  rw [readChunked, hline]
  rfl

/-- A line without a positive number in it ends the body. -/
theorem readChunked_of_last {size_line : Text} {c₁ : Client}
    (hline : readHTTPLine timeout_ms c = (size_line, c₁)) (hlast : strtol size_line 16 ≤ 0) (body : Text) :
    (readChunked timeout_ms c body).1 = body := by
  rw [readChunked, hline]
  simp only [hlast, if_true]
  split
  · rfl
  · rfl

/-- What is left of a line end after a stall in it reads as the end of the body. -/
theorem readChunked_of_lineEnd (hfed : c.Fed timeout_ms) {line rest : Text}
    (hunread : c.unread = line ++ 10 :: rest) (hline : line = [] ∨ line = [13]) (body : Text) :
    (readChunked timeout_ms c body).1 = body := by
  have hnewline : 10 ∉ line := by
    obtain rfl | rfl := hline
    · exact List.not_mem_nil
    · decide
  obtain ⟨-, c', hread, -⟩ | ⟨hless, htake, hread⟩ := readHTTPLine_line hfed hunread hnewline
  · have hblank : dropCarriageReturn line = [] := by
      obtain rfl | rfl := hline
      · rfl
      · rfl
    rw [hblank] at hread
    exact readChunked_of_empty hread body
  · refine readChunked_of_last hread ?_ body
    obtain rfl | rfl := hline
    · rw [htake, List.take_nil]
      decide
    · rw [htake]
      obtain hnone | hone := Nat.le_one_iff_eq_zero_or_eq_one.mp hless
      · rw [hnone]
        decide
      · rw [hone]
        decide

theorem readChunked_of_data {size_line : Text} {c₁ : Client} {data : Bool × Text × Client}
    (hline : readHTTPLine timeout_ms c = (size_line, c₁)) (hpos : 0 < strtol size_line 16) {body : Text}
    (hdata : readChunkData timeout_ms c₁ body (strtol size_line 16).toNat = data) :
    readChunked timeout_ms c body =
      if !data.1 then data.2 else readChunked timeout_ms (readHTTPLine timeout_ms data.2.2).2 data.2.1 := by
  have hsome : size_line.length ≠ 0 := by
    intro hzero
    rw [List.eq_nil_of_length_eq_zero hzero] at hpos
    exact absurd hpos (by decide)
  rw [readChunked, hline]
  simp only [if_neg hsome, if_neg (Int.not_le.mpr hpos), hdata]

/-- Behind a size line that is ready comes the loop over the chunk's data. -/
theorem readChunked_sizeLine (hfed : c.Fed timeout_ms) {l : SizeLine} (hl : 0 < l.size) {rest : Text}
    (hunread : c.unread = l.line ++ 10 :: rest) (hmore : l.line.length < (c.ready timeout_ms).length) (body : Text) :
    ∃ c₁, Reads timeout_ms c (l.line ++ [10]) c₁ ∧ c₁.unread = rest ∧
      (c.ready timeout_ms).length = l.line.length + 1 + (c₁.ready timeout_ms).length ∧
      ∀ data, readChunkData timeout_ms c₁ body l.size = data →
        readChunked timeout_ms c body =
          if !data.1 then data.2 else readChunked timeout_ms (readHTTPLine timeout_ms data.2.2).2 data.2.1 := by
  obtain ⟨-, c₁, hread, hreads⟩ | ⟨hless, -⟩ := readHTTPLine_line hfed hunread l.newline_not_mem_line
  · rw [l.dropCarriageReturn_line] at hread
    have hunread₁ : c₁.unread = rest := hreads.unread_eq (by simp [hunread])
    have hlength₁ := hreads.length_ready
    rw [List.length_append, List.length_singleton] at hlength₁
    refine ⟨c₁, hreads, hunread₁, hlength₁, fun data hdata => ?_⟩
    have hpos : 0 < strtol l.text 16 := by
      rw [l.strtol_text]
      exact_mod_cast hl
    have hsize : (strtol l.text 16).toNat = l.size := by rw [l.strtol_text, Int.toNat_natCast]
    exact readChunked_of_data hread hpos (by rw [hsize, hdata])
  · omega

/-- A chunk that is ready from its size line to the end of its data goes through the stage. -/
theorem readChunked_data_staged (hfed : c.Fed timeout_ms) {l : SizeLine} (hl : 0 < l.size) {data rest : Text}
    (hunread : c.unread = l.line ++ 10 :: (data ++ rest)) (hlength : data.length = l.size)
    (hready : l.line.length + 1 + l.size ≤ (c.ready timeout_ms).length) (body : Text) :
    ∃ kept c', Lib.Staged nonNul data kept ∧
      readChunked timeout_ms c body =
        readChunked timeout_ms (readHTTPLine timeout_ms c').2 (body ++ kept) ∧ c'.unread = rest ∧
      (c.ready timeout_ms).length = l.line.length + 1 + l.size + (c'.ready timeout_ms).length ∧
      Reads timeout_ms c (l.line ++ [10] ++ data) c' := by
  obtain ⟨c₁, hreads, hunread₁, hlength₁, hchunk⟩ := readChunked_sizeLine hfed hl hunread (by omega) body
  have hdata : data <+: c₁.unread := by
    rw [hunread₁]
    exact List.prefix_append _ _
  have hhead : data <+: c₁.ready timeout_ms :=
    List.prefix_of_prefix_length_le hdata (ready_prefix_unread timeout_ms c₁) (by omega)
  obtain ⟨after, hafter⟩ := hhead
  obtain ⟨kept, hkept, ⟨-, c', hread', hreads'⟩ | ⟨hless, -⟩⟩ :=
    readChunkData_staged hreads.fed hafter.symm body (Nat.le_of_eq hlength)
      (fun hless => absurd hlength (Nat.ne_of_lt hless))
  · have hlength' := hreads'.length_ready
    exact ⟨kept, c', hkept, hchunk _ hread', hreads'.unread_eq hunread₁, by omega, hreads.trans hreads'⟩
  · omega

/-- A chunk that is ready from its size line to the end of its data. -/
theorem readChunked_chunk_data (hfed : c.Fed timeout_ms) {l : SizeLine} (hl : 0 < l.size) {data rest : Text}
    (hunread : c.unread = l.line ++ 10 :: (data ++ rest)) (hlength : data.length = l.size)
    (hready : l.line.length + 1 + l.size ≤ (c.ready timeout_ms).length) (hnul : 0 ∉ data) (body : Text) :
    ∃ c', readChunked timeout_ms c body =
        readChunked timeout_ms (readHTTPLine timeout_ms c').2 (body ++ data) ∧ c'.unread = rest ∧
      (c.ready timeout_ms).length = l.line.length + 1 + l.size + (c'.ready timeout_ms).length ∧
      Reads timeout_ms c (l.line ++ [10] ++ data) c' := by
  obtain ⟨kept, c', hkept, hchunk⟩ := readChunked_data_staged hfed hl hunread hlength hready body
  rw [hkept.eq_self (nonNul_of_not_mem hnul)] at hchunk
  exact ⟨c', hchunk⟩

/-- A chunk that is ready whole adds its data to the body, as it comes through the stage. -/
theorem readChunked_chunk_staged (hfed : c.Fed timeout_ms) {l : SizeLine} (hl : 0 < l.size) {data rest : Text}
    (hunread : c.unread = l.line ++ 10 :: (data ++ 13 :: 10 :: rest)) (hlength : data.length = l.size)
    (hready : l.line.length + 1 + l.size + 2 ≤ (c.ready timeout_ms).length) (body : Text) :
    ∃ kept c', Lib.Staged nonNul data kept ∧
      readChunked timeout_ms c body = readChunked timeout_ms c' (body ++ kept) ∧ c'.unread = rest ∧
      (c.ready timeout_ms).length = l.line.length + 1 + l.size + 2 + (c'.ready timeout_ms).length ∧
      Reads timeout_ms c (l.line ++ [10] ++ data ++ [13, 10]) c' := by
  obtain ⟨kept, c₁, hkept, hchunk, hunread₁, hlength₁, hreads⟩ :=
    readChunked_data_staged hfed hl hunread hlength (by omega) body
  have hlineEnd : c₁.unread = [13] ++ 10 :: rest := hunread₁
  obtain ⟨-, c', hread, hreads'⟩ | ⟨hless, -⟩ :=
    readHTTPLine_line hreads.fed hlineEnd (by decide)
  · have hlength' : _ = 2 + (c'.ready timeout_ms).length := hreads'.length_ready
    refine ⟨kept, c', hkept, ?_, hreads'.unread_eq hunread₁, by omega, hreads.trans hreads'⟩
    rw [hchunk, hread]
  · rw [List.length_singleton] at hless
    omega

/-- A chunk that is ready whole adds its data to the body. -/
theorem readChunked_chunk (hfed : c.Fed timeout_ms) {l : SizeLine} (hl : 0 < l.size) {data rest : Text}
    (hunread : c.unread = l.line ++ 10 :: (data ++ 13 :: 10 :: rest)) (hlength : data.length = l.size)
    (hready : l.line.length + 1 + l.size + 2 ≤ (c.ready timeout_ms).length) (hnul : 0 ∉ data) (body : Text) :
    ∃ c', readChunked timeout_ms c body = readChunked timeout_ms c' (body ++ data) ∧ c'.unread = rest ∧
      (c.ready timeout_ms).length = l.line.length + 1 + l.size + 2 + (c'.ready timeout_ms).length ∧
      Reads timeout_ms c (l.line ++ [10] ++ data ++ [13, 10]) c' := by
  obtain ⟨kept, c', hkept, hchunk⟩ := readChunked_chunk_staged hfed hl hunread hlength hready body
  rw [hkept.eq_self (nonNul_of_not_mem hnul)] at hchunk
  exact ⟨c', hchunk⟩

/-- The terminator chunk ends the body wherever the reading stalls in it. -/
theorem readChunked_terminator (hfed : c.Fed timeout_ms) {last : SizeLine} (hlast : last.size = 0)
    {rest : Text} (hunread : c.unread = last.line ++ 10 :: rest) (body : Text) :
    (readChunked timeout_ms c body).1 = body := by
  obtain ⟨-, c', hread, -⟩ | ⟨-, htake, hread⟩ :=
    readHTTPLine_line hfed hunread last.newline_not_mem_line
  · rw [last.dropCarriageReturn_line] at hread
    refine readChunked_of_last hread ?_ body
    rw [last.strtol_text, hlast]
    exact Int.le_refl _
  · refine readChunked_of_last hread ?_ body
    have hzero := last.readDigits_take_le (c.ready timeout_ms).length
    rw [htake, last.strtol_take_line]
    omega

/-- A stall in the line end after a chunk's data ends the body. -/
theorem readChunked_stall_lineEnd {c₁ : Client} (hfed : c₁.Fed timeout_ms) {rest : Text}
    (hunread : c₁.unread = [13] ++ 10 :: rest) (hready : (c₁.ready timeout_ms).length < 2) (body : Text) :
    (readChunked timeout_ms (readHTTPLine timeout_ms c₁).2 body).1 = body := by
  obtain ⟨hmore, -⟩ | ⟨hless, htake, hread⟩ := readHTTPLine_line hfed hunread (by decide)
  · rw [List.length_singleton] at hmore
    omega
  · rw [hread]
    have hdrop := stalled_unread hfed
    rw [hunread] at hdrop
    obtain hnone | hone := Nat.le_one_iff_eq_zero_or_eq_one.mp hless
    · have hwhole : (c₁.stalled timeout_ms).unread = [13] ++ 10 :: rest := by rwa [hnone] at hdrop
      exact readChunked_of_lineEnd hfed.stalled hwhole (.inr rfl) body
    · have hfeed : (c₁.stalled timeout_ms).unread = [] ++ 10 :: rest := by rwa [hone] at hdrop
      exact readChunked_of_lineEnd hfed.stalled hfeed (.inl rfl) body

/-- A stall in the data of a chunk ends the body with the data that came. -/
theorem readChunked_stall_data (hfed : c.Fed timeout_ms) {l : SizeLine} (hl : 0 < l.size) {data rest : Text}
    (hunread : c.unread = l.line ++ 10 :: (data ++ rest)) (hlength : data.length = l.size)
    (hline : l.line.length < (c.ready timeout_ms).length)
    (hready : (c.ready timeout_ms).length < l.line.length + 1 + l.size) (hnul : 0 ∉ data) (body : Text) :
    ∃ d, d <+: data ∧ (readChunked timeout_ms c body).1 = body ++ d := by
  obtain ⟨c₁, hreads, hunread₁, hlength₁, hchunk⟩ := readChunked_sizeLine hfed hl hunread hline body
  have hhead : c₁.ready timeout_ms <+: data := by
    refine List.prefix_of_prefix_length_le (ready_prefix_unread timeout_ms c₁) ?_ ?_
    · rw [hunread₁]
      exact List.prefix_append _ _
    · omega
  refine ⟨c₁.ready timeout_ms, hhead, ?_⟩
  have hnul₁ : 0 ∉ c₁.ready timeout_ms := fun hmem => hnul (hhead.subset hmem)
  have hless : (c₁.ready timeout_ms).length < l.size := by omega
  obtain ⟨hall, -⟩ | ⟨-, hdata⟩ :=
    readChunkData_spec hreads.fed (List.append_nil _).symm hnul₁ body (Nat.le_of_lt hless) (fun _ => rfl)
  · omega
  · rw [hchunk _ hdata]
    rfl

end Client

end HostArduino.http
