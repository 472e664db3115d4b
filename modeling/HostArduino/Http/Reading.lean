import HostArduino.Http.Body
import HostArduino.Lib.Staging

namespace HostArduino.http

/-- `appendBytes` goes through a NUL-terminated buffer, so of each piece that it stages
    only what is in front of a NUL gets into the `String`. -/
abbrev nonNul (b : UInt8) : Bool := b ≠ 0

theorem nonNul_of_not_mem {buf : Text} (h : 0 ∉ buf) : ∀ b ∈ buf, nonNul b = true := by
  intro b hb
  simpa using fun hzero : b = 0 => h (hzero ▸ hb)

theorem appendBytes_staged (dst buf : Text) :
    ∃ kept, Lib.Staged nonNul buf kept ∧ appendBytes dst buf = dst ++ kept := by
  fun_induction appendBytes dst buf with
  | case1 dst buf hempty =>
    rw [List.eq_nil_of_length_eq_zero hempty]
    exact ⟨[], .nil, (List.append_nil dst).symm⟩
  | case2 dst buf hmore ih =>
    obtain ⟨kept, hstaged, happend⟩ := ih
    have hall := (Lib.Staged.piece nonNul (buf.take 256)).append hstaged
    rw [List.take_append_drop] at hall
    refine ⟨_, hall, ?_⟩
    rw [happend, concatCString, List.append_assoc]

theorem appendBytes_of_not_mem (dst : Text) {buf : Text} (h : 0 ∉ buf) : appendBytes dst buf = dst ++ buf := by
  obtain ⟨kept, hstaged, happend⟩ := appendBytes_staged dst buf
  rw [happend, hstaged.eq_self (nonNul_of_not_mem h)]

theorem prefix_appendBytes (dst buf : Text) : dst <+: appendBytes dst buf := by
  fun_induction appendBytes dst buf with
  | case1 dst buf hempty => exact List.prefix_refl _
  | case2 dst buf hmore ih => exact (List.prefix_append _ _).trans ih

theorem prefix_appendBytes_cons (dst : Text) {b : UInt8} (hb : b ≠ 0) (buf : Text) :
    dst ++ [b] <+: appendBytes dst (b :: buf) := by
  rw [appendBytes, if_neg (by simp)]
  refine List.IsPrefix.trans ?_ (prefix_appendBytes _ _)
  rw [concatCString, List.take_succ_cons, List.takeWhile_cons_of_pos (by simpa using hb)]
  exact ⟨_, List.append_assoc _ _ _⟩

namespace Client

/-- The bytes delivered before a wait times out or finds the connection closed for the
    first time, and the client after that wait. -/
abbrev ready (timeout_ms : UInt16) (c : Client) : Text :=
  Lib.Source.ready (Wire.feed timeout_ms) c

abbrev stalled (timeout_ms : UInt16) (c : Client) : Client :=
  Lib.Source.stalled (Wire.feed timeout_ms) c

/-- Every byte the wire announces is there: with bytes available, a read returns one. -/
abbrev Fed (timeout_ms : UInt16) (c : Client) : Prop :=
  Lib.Source.Fed (Wire.feed timeout_ms) c

variable {timeout_ms : UInt16} {c c' : Client}

/-- `c'` is `c` with `bytes` read off, on the way to the same stall. -/
structure Reads (timeout_ms : UInt16) (c : Client) (bytes : Text) (c' : Client) : Prop where
  ready : bytes ++ c'.ready timeout_ms = c.ready timeout_ms
  stalled : c'.stalled timeout_ms = c.stalled timeout_ms
  unread : bytes ++ c'.unread = c.unread
  fed : c'.Fed timeout_ms

theorem Reads.refl (hfed : c.Fed timeout_ms) : Reads timeout_ms c [] c :=
  ⟨rfl, rfl, rfl, hfed⟩

theorem Reads.trans {c'' : Client} {bytes more : Text} (h : Reads timeout_ms c bytes c')
    (h' : Reads timeout_ms c' more c'') : Reads timeout_ms c (bytes ++ more) c'' := by
  refine ⟨?_, h'.stalled.trans h.stalled, ?_, h'.fed⟩
  · rw [List.append_assoc, h'.ready, h.ready]
  · rw [List.append_assoc, h'.unread, h.unread]

theorem Reads.length_ready {bytes : Text} (h : Reads timeout_ms c bytes c') :
    (c.ready timeout_ms).length = bytes.length + (c'.ready timeout_ms).length := by
  rw [← h.ready, List.length_append]

theorem Reads.ready_eq {bytes rest : Text} (h : Reads timeout_ms c bytes c')
    (hready : c.ready timeout_ms = bytes ++ rest) : c'.ready timeout_ms = rest :=
  List.append_cancel_left (h.ready.trans hready)

theorem Reads.unread_eq {bytes rest : Text} (h : Reads timeout_ms c bytes c')
    (hunread : c.unread = bytes ++ rest) : c'.unread = rest :=
  List.append_cancel_left (h.unread.trans hunread)

theorem ready_prefix_unread (timeout_ms : UInt16) (c : Client) : c.ready timeout_ms <+: c.unread :=
  ⟨_, Lib.Source.ready_append_stalled⟩

theorem stalled_unread (hfed : c.Fed timeout_ms) :
    (c.stalled timeout_ms).unread = c.unread.drop (c.ready timeout_ms).length := by
  rw [hfed.length_ready]
  rfl

theorem ready_cons_of_unread {b : UInt8} {rest : Text} (hunread : c.unread = b :: rest)
    (hsome : c.ready timeout_ms ≠ []) : ∃ more, c.ready timeout_ms = b :: more := by
  obtain ⟨b', more, hready⟩ := List.exists_cons_of_ne_nil hsome
  have hprefix := ready_prefix_unread timeout_ms c
  rw [hready, hunread] at hprefix
  obtain ⟨rfl, -⟩ := List.cons_prefix_cons.mp hprefix
  exact ⟨more, hready⟩

/-- Waiting and reading stalls exactly when nothing is ready. -/
theorem waitData_read (hfed : c.Fed timeout_ms) {n : Nat} (hn : 0 < n) :
    (waitData timeout_ms c = (false, c.stalled timeout_ms) ∧ c.ready timeout_ms = []) ∨
      ∃ c₁ b got c', waitData timeout_ms c = (true, c₁) ∧ read c₁ n = (b :: got, c') ∧
        (b :: got).length ≤ n ∧ Reads timeout_ms c (b :: got) c' := by
  obtain ⟨hwait, hready⟩ |
    ⟨c₁, got, c', hwait, hread, hsome, hle, hunread, hready, hstalled, hfed'⟩ := Lib.Source.pull hfed hn
  · exact .inl ⟨hwait, hready⟩
  · obtain ⟨b, got, rfl⟩ := List.exists_cons_of_ne_nil hsome
    exact .inr ⟨c₁, b, got, c', hwait, hread, hle, hready, hstalled, hunread, hfed'⟩

/-- Of what is ready the first byte can be read. -/
theorem waitData_one (hfed : c.Fed timeout_ms) {b : UInt8} {rest : Text} (hready : c.ready timeout_ms = b :: rest) :
    ∃ c₁ c', waitData timeout_ms c = (true, c₁) ∧ read c₁ 1 = ([b], c') ∧ Reads timeout_ms c [b] c' ∧
      c'.ready timeout_ms = rest := by
  obtain ⟨-, hnone⟩ | ⟨c₁, first, got, c', hwait, hread, hle, hreads⟩ := waitData_read hfed Nat.one_pos
  · rw [hnone] at hready
    cases hready
  · obtain rfl : got = [] := List.eq_nil_of_length_eq_zero (by simpa using hle)
    have hfirst := hreads.ready
    rw [hready] at hfirst
    obtain ⟨rfl, hrest⟩ := List.cons.inj hfirst
    exact ⟨c₁, c', hwait, hread, hreads, hrest⟩

theorem readLineLoop_stall {c₁ : Client} (hwait : waitData timeout_ms c = (false, c₁)) (out : Text) :
    readLineLoop timeout_ms c out = (out, c₁) := by
  rw [readLineLoop]
  simp only [hwait, Bool.not_false, if_true]

theorem readLineLoop_step {c₁ : Client} {b : UInt8} {got : Text}
    (hwait : waitData timeout_ms c = (true, c₁)) (hread : read c₁ 1 = (b :: got, c')) (out : Text) :
    readLineLoop timeout_ms c out =
      if b = 10 then (dropCarriageReturn out, c') else readLineLoop timeout_ms c' (out ++ [b]) := by
  rw [readLineLoop]
  simp only [hwait, Bool.not_true, Bool.false_eq_true, if_false]
  split
  · rename_i hnone
    simp only [hwait, hread, reduceCtorEq] at hnone
  · rename_i ch rest hsome
    simp only [hwait, hread, List.cons.injEq] at hsome
    rw [hread, hsome.1]

/-- A line whose line feed comes before the first stall is read whole. -/
theorem readLineLoop_of_newline (hfed : c.Fed timeout_ms) {line rest : Text}
    (hready : c.ready timeout_ms = line ++ 10 :: rest) (hline : 10 ∉ line) (out : Text) :
    ∃ c', readLineLoop timeout_ms c out = (dropCarriageReturn (out ++ line), c') ∧
      Reads timeout_ms c (line ++ [10]) c' := by
  induction line generalizing c out with
  | nil =>
    obtain ⟨c₁, c', hwait, hread, hreads, -⟩ := waitData_one hfed hready
    refine ⟨c', ?_, hreads⟩
    rw [readLineLoop_step hwait hread, if_pos rfl, List.append_nil]
  | cons ch line ih =>
    obtain ⟨c₁, c', hwait, hread, hreads, hrest⟩ := waitData_one hfed hready
    have hother : ch ≠ 10 := fun hnewline => hline (by simp [hnewline])
    obtain ⟨c'', hloop, hreads'⟩ := ih hreads.fed hrest (fun hmem => hline (by simp [hmem])) (out ++ [ch])
    refine ⟨c'', ?_, hreads.trans hreads'⟩
    rw [readLineLoop_step hwait hread, if_neg hother, hloop, List.append_assoc]
    rfl

/-- A line that stalls before its line feed is handed over as it is. -/
theorem readLineLoop_of_stall (hfed : c.Fed timeout_ms) {line : Text}
    (hready : c.ready timeout_ms = line) (hline : 10 ∉ line) (out : Text) :
    readLineLoop timeout_ms c out = (out ++ line, c.stalled timeout_ms) := by
  induction line generalizing c out with
  | nil =>
    obtain ⟨hwait, -⟩ | ⟨c₁, b, got, c', hwait, hread, hle, hreads⟩ := waitData_read hfed Nat.one_pos
    · rw [readLineLoop_stall hwait, List.append_nil]
    · have hfirst := hreads.ready
      rw [hready] at hfirst
      cases hfirst
  | cons ch line ih =>
    obtain ⟨c₁, c', hwait, hread, hreads, hrest⟩ := waitData_one hfed hready
    have hother : ch ≠ 10 := fun hnewline => hline (by simp [hnewline])
    have hloop := ih hreads.fed hrest (fun hmem => hline (by simp [hmem])) (out ++ [ch])
    rw [readLineLoop_step hwait hread, if_neg hother, hloop, hreads.stalled, List.append_assoc]
    rfl

/-- A line that comes whole before the first stall, as `readHTTPLine` returns it. -/
theorem readHTTPLine_of_newline (hfed : c.Fed timeout_ms) {line rest : Text}
    (hready : c.ready timeout_ms = line ++ 10 :: rest) (hline : 10 ∉ line) :
    ∃ c', readHTTPLine timeout_ms c = (dropCarriageReturn line, c') ∧
      Reads timeout_ms c (line ++ [10]) c' :=
  readLineLoop_of_newline hfed hready hline []

theorem readHTTPLine_of_stall (hfed : c.Fed timeout_ms) (hline : 10 ∉ c.ready timeout_ms) :
    readHTTPLine timeout_ms c = (c.ready timeout_ms, c.stalled timeout_ms) :=
  readLineLoop_of_stall hfed rfl hline []

theorem readChunkData_stall {c₁ : Client} (hwait : waitData timeout_ms c = (false, c₁)) (body : Text)
    {remaining : Nat} (hmore : remaining ≠ 0) :
    readChunkData timeout_ms c body remaining = (false, body, c₁) := by
  rw [readChunkData, if_neg hmore]
  simp only [hwait, Bool.not_false, if_true]

theorem readChunkData_step {c₁ : Client} {b : UInt8} {got : Text} {remaining : Nat}
    (hwait : waitData timeout_ms c = (true, c₁))
    (hread : read c₁ (if remaining < 256 then remaining else 256) = (b :: got, c')) (body : Text)
    (hmore : remaining ≠ 0) :
    readChunkData timeout_ms c body remaining =
      readChunkData timeout_ms c' (appendBytes body (b :: got)) (remaining - (b :: got).length) := by
  rw [readChunkData, if_neg hmore]
  simp only [hwait, Bool.not_true, Bool.false_eq_true, if_false]
  split
  · rename_i hnone
    simp only [hwait, hread, reduceCtorEq] at hnone
  · rename_i ch rest hsome
    simp only [hwait, hread, List.cons.injEq] at hsome
    rw [hread, hsome.1, hsome.2]

/-- The buffer a data loop reads into holds no more than it still wants. -/
theorem want_spec {remaining : Nat} (hmore : remaining ≠ 0) :
    0 < (if remaining < 256 then remaining else 256) ∧
      (if remaining < 256 then remaining else 256) ≤ remaining := by
  split
  · omega
  · omega

/-- What a loop that wants `data` has read is the head of it. -/
theorem data_split {got data rest more : Text} (hsplit : got ++ more = data ++ rest)
    (hshort : rest = [] ∨ got.length ≤ data.length) : ∃ data', data = got ++ data' ∧ more = data' ++ rest := by
  have hle : got.length ≤ data.length := by
    obtain rfl | hle := hshort
    · rw [List.append_nil] at hsplit
      rw [← hsplit, List.length_append]
      exact Nat.le_add_right _ _
    · exact hle
  have hhead : got <+: data :=
    List.prefix_of_prefix_length_le ⟨more, hsplit⟩ (List.prefix_append data rest) hle
  obtain ⟨data', rfl⟩ := hhead
  rw [List.append_assoc] at hsplit
  exact ⟨data', rfl, List.append_cancel_left hsplit⟩

/-- The data of a chunk goes through the stage whole when it is ready, and as far as it is
    ready when the loop stalls in it. -/
theorem readChunkData_staged (hfed : c.Fed timeout_ms) {data rest : Text}
    (hready : c.ready timeout_ms = data ++ rest) (body : Text) {remaining : Nat}
    (hlength : data.length ≤ remaining) (hrest : data.length < remaining → rest = []) :
    ∃ kept, Lib.Staged nonNul data kept ∧
      ((data.length = remaining ∧
          ∃ c', readChunkData timeout_ms c body remaining = (true, body ++ kept, c') ∧
            Reads timeout_ms c data c') ∨
        (data.length < remaining ∧
          readChunkData timeout_ms c body remaining = (false, body ++ kept, c.stalled timeout_ms))) := by
  induction hsize : data.length using Nat.strongRecOn generalizing c data body remaining with
  | _ size ih =>
    subst hsize
    by_cases hmore : remaining = 0
    · obtain rfl : data = [] := List.eq_nil_of_length_eq_zero (by omega)
      refine ⟨[], .nil, .inl ⟨hmore.symm, c, ?_, Reads.refl hfed⟩⟩
      rw [readChunkData, if_pos hmore, List.append_nil]
    · obtain ⟨hwant, hwant_le⟩ := want_spec hmore
      obtain ⟨hwait, hnone⟩ | ⟨c₁, b, got, c', hwait, hread, hle, hreads⟩ :=
        waitData_read hfed hwant
      · obtain ⟨rfl, -⟩ := List.append_eq_nil_iff.mp (hready.symm.trans hnone)
        refine ⟨[], .nil, .inr ⟨Nat.pos_of_ne_zero hmore, ?_⟩⟩
        rw [readChunkData_stall hwait body hmore, List.append_nil]
      · have hshort : rest = [] ∨ (b :: got).length ≤ data.length := by
          obtain hless | heq := Nat.lt_or_eq_of_le hlength
          · exact .inl (hrest hless)
          · exact .inr (by omega)
        obtain ⟨data', rfl, hready'⟩ := data_split (hreads.ready.trans hready) hshort
        have hgot : 0 < (b :: got).length := Nat.succ_pos _
        rw [List.length_append] at hlength hrest ⊢
        obtain ⟨first, hfirst, happend⟩ := appendBytes_staged body (b :: got)
        have hstep := readChunkData_step hwait hread body hmore
        rw [happend] at hstep
        have hlength' : data'.length ≤ remaining - (b :: got).length := by omega
        obtain ⟨kept, hkept, ⟨hall, c'', hloop, hreads'⟩ | ⟨hpart, hloop⟩⟩ :=
          ih data'.length (by rw [List.length_append]; omega) hreads.fed hready' (body ++ first) hlength'
            (fun hless => hrest (by omega)) rfl
        · refine ⟨first ++ kept, hfirst.append hkept, .inl ⟨by omega, c'', ?_, hreads.trans hreads'⟩⟩
          rw [hstep, hloop, List.append_assoc]
        · refine ⟨first ++ kept, hfirst.append hkept, .inr ⟨by omega, ?_⟩⟩
          rw [hstep, hloop, hreads.stalled, List.append_assoc]

/-- Data without a NUL gets into the body as it is. -/
theorem readChunkData_spec (hfed : c.Fed timeout_ms) {data rest : Text}
    (hready : c.ready timeout_ms = data ++ rest) (hnul : 0 ∉ data) (body : Text) {remaining : Nat}
    (hlength : data.length ≤ remaining) (hrest : data.length < remaining → rest = []) :
    (data.length = remaining ∧ ∃ c', readChunkData timeout_ms c body remaining = (true, body ++ data, c') ∧
        Reads timeout_ms c data c') ∨
      (data.length < remaining ∧
        readChunkData timeout_ms c body remaining = (false, body ++ data, c.stalled timeout_ms)) := by
  obtain ⟨kept, hstaged, hresult⟩ := readChunkData_staged hfed hready body hlength hrest
  rwa [hstaged.eq_self (nonNul_of_not_mem hnul)] at hresult

theorem readPlain_stall {c₁ : Client} (hwait : waitData timeout_ms c = (false, c₁)) (body : Text)
    {remaining : Int} (hmore : remaining ≠ 0) : readPlain timeout_ms c body remaining = (body, c₁) := by
  rw [readPlain, if_neg hmore]
  simp only [hwait, Bool.not_false, if_true]

theorem readPlain_step {c₁ : Client} {b : UInt8} {got : Text} {remaining : Int}
    (hwait : waitData timeout_ms c = (true, c₁))
    (hread : read c₁ (if 0 < remaining ∧ remaining < 256 then remaining.toNat else 256) = (b :: got, c'))
    (body : Text) (hmore : remaining ≠ 0) :
    readPlain timeout_ms c body remaining =
      readPlain timeout_ms c' (appendBytes body (b :: got))
        (if 0 < remaining then remaining - (b :: got).length else remaining) := by
  rw [readPlain, if_neg hmore]
  simp only [hwait, Bool.not_true, Bool.false_eq_true, if_false]
  split
  · rename_i hnone
    simp only [hwait, hread, reduceCtorEq] at hnone
  · rename_i ch rest hsome
    simp only [hwait, hread, List.cons.injEq] at hsome
    rw [hread, hsome.1, hsome.2]

theorem readPlain_none {c₁ : Client} {remaining : Int} (hwait : waitData timeout_ms c = (true, c₁))
    (hread : read c₁ (if 0 < remaining ∧ remaining < 256 then remaining.toNat else 256) = ([], c'))
    (body : Text) (hmore : remaining ≠ 0) : readPlain timeout_ms c body remaining = (body, c') := by
  rw [readPlain, if_neg hmore]
  simp only [hwait, Bool.not_true, Bool.false_eq_true, if_false]
  split
  · rw [hread]
  · rename_i ch rest hsome
    simp only [hwait, hread, reduceCtorEq] at hsome

/-- The two data loops ask for the same number of bytes. -/
theorem want_natCast {remaining : Nat} (hmore : remaining ≠ 0) :
    (if 0 < (remaining : Int) ∧ (remaining : Int) < 256 then (remaining : Int).toNat else 256) =
      if remaining < 256 then remaining else 256 := by
  split
  · rw [if_pos (by omega), Int.toNat_natCast]
  · rw [if_neg (by omega)]

/-- A body of known length is read as the data of a chunk is. -/
theorem readPlain_eq_readChunkData (timeout_ms : UInt16) (c : Client) (body : Text) (remaining : Nat) :
    readPlain timeout_ms c body remaining = (readChunkData timeout_ms c body remaining).2 := by
  fun_induction readChunkData timeout_ms c body remaining with
  | case1 c body =>
    rw [readPlain]
    rfl
  | case2 c body remaining hmore waited hstall =>
    have hwait : waitData timeout_ms c = (false, waited.2) := Prod.ext (by simpa using hstall) rfl
    exact readPlain_stall hwait body (Int.natCast_ne_zero.mpr hmore)
  | case3 c body remaining hmore waited hready want next hread =>
    have hwait : waitData timeout_ms c = (true, waited.2) := Prod.ext (by simpa using hready) rfl
    refine readPlain_none hwait ?_ body (Int.natCast_ne_zero.mpr hmore)
    rw [want_natCast hmore]
    exact Prod.ext hread rfl
  | case4 c body remaining hmore waited hready want next b got hread ih =>
    have hwait : waitData timeout_ms c = (true, waited.2) := Prod.ext (by simpa using hready) rfl
    have hread' : read waited.2
        (if 0 < (remaining : Int) ∧ (remaining : Int) < 256 then (remaining : Int).toNat else 256) =
          (b :: got, next.2) := by
      rw [want_natCast hmore]
      exact Prod.ext hread rfl
    have hgot : (b :: got).length ≤ remaining := by
      rw [← hread]
      refine Nat.le_trans (List.length_take_le _ _) (Nat.le_trans (Nat.min_le_left _ _) ?_)
      exact (want_spec hmore).2
    rw [← ih, readPlain_step hwait hread' body (Int.natCast_ne_zero.mpr hmore), if_pos (by omega),
      Int.natCast_sub hgot]

/-- A body of known length that is ready goes through the stage whole, and nothing after
    it is touched. -/
theorem readPlain_staged (hfed : c.Fed timeout_ms) {data rest : Text}
    (hready : c.ready timeout_ms = data ++ rest) (body : Text) :
    ∃ kept c', Lib.Staged nonNul data kept ∧
      readPlain timeout_ms c body data.length = (body ++ kept, c') ∧ Reads timeout_ms c data c' := by
  obtain ⟨kept, hkept, ⟨-, c', hdata, hreads⟩ | ⟨hless, -⟩⟩ :=
    readChunkData_staged hfed hready body (Nat.le_refl _) fun hless => absurd hless (Nat.lt_irrefl _)
  · refine ⟨kept, c', hkept, ?_, hreads⟩
    rw [readPlain_eq_readChunkData, hdata]
  · exact absurd hless (Nat.lt_irrefl _)

/-- A body without a length is what comes before the first stall. -/
theorem readPlain_close (hfed : c.Fed timeout_ms) {data : Text} (hready : c.ready timeout_ms = data)
    (hnul : 0 ∉ data) (body : Text) :
    readPlain timeout_ms c body (-1) = (body ++ data, c.stalled timeout_ms) := by
  induction hsize : data.length using Nat.strongRecOn generalizing c data body with
  | _ size ih =>
    subst hsize
    obtain ⟨hwait, hnone⟩ | ⟨c₁, b, got, c', hwait, hread, hle, hreads⟩ :=
      waitData_read hfed (n := 256) (by decide)
    · obtain rfl : data = [] := hready.symm.trans hnone
      rw [readPlain_stall hwait body (by decide), List.append_nil]
    · have hsplit := hreads.ready.trans hready
      subst hsplit
      have hstep : readPlain timeout_ms c body (-1) = _ :=
        readPlain_step hwait (by rwa [if_neg (by decide)]) body (by decide)
      rw [appendBytes_of_not_mem body fun hmem => hnul (List.mem_append_left _ hmem)] at hstep
      have hloop := ih _ (by rw [List.length_append, List.length_cons]; omega) hreads.fed rfl
        (fun hmem => hnul (List.mem_append_right _ hmem)) (body ++ b :: got) rfl
      rw [hstep, if_neg (by decide), hloop, hreads.stalled, List.append_assoc]

/-- The loops only ever add to the body. -/
theorem prefix_readChunkData (timeout_ms : UInt16) (c : Client) (body : Text) (remaining : Nat) :
    body <+: (readChunkData timeout_ms c body remaining).2.1 := by
  fun_induction readChunkData timeout_ms c body remaining with
  | case1 c body => exact List.prefix_refl _
  | case2 c body remaining hmore waited hstall => exact List.prefix_refl _
  | case3 c body remaining hmore waited hready want next hread => exact List.prefix_refl _
  | case4 c body remaining hmore waited hready want next b got hread ih =>
    exact (prefix_appendBytes body (b :: got)).trans ih

/-- A first byte that is ready and no NUL gets into the body. -/
theorem prefix_readChunkData_cons (hfed : c.Fed timeout_ms) {b : UInt8} {rest : Text}
    (hready : c.ready timeout_ms = b :: rest) (hb : b ≠ 0) (body : Text) {remaining : Nat}
    (hmore : remaining ≠ 0) :
    body ++ [b] <+: (readChunkData timeout_ms c body remaining).2.1 := by
  obtain ⟨hwait, hnone⟩ | ⟨c₁, b', got, c', hwait, hread, hle, hreads⟩ :=
    waitData_read hfed (want_spec hmore).1
  · rw [hnone] at hready
    cases hready
  · obtain ⟨rfl, -⟩ := List.cons.inj (hreads.ready.trans hready)
    rw [readChunkData_step hwait hread body hmore]
    exact (prefix_appendBytes_cons body hb got).trans (prefix_readChunkData _ _ _ _)

theorem prefix_readChunked (timeout_ms : UInt16) (c : Client) (body : Text) :
    body <+: (readChunked timeout_ms c body).1 := by
  fun_induction readChunked timeout_ms c body with
  | case1 c body size_line c₁ hempty => exact List.prefix_refl _
  | case2 c body size_line c₁ hline chunk_size hlast => exact List.prefix_refl _
  | case3 c body size_line c₁ hline chunk_size hchunk data hstall => exact prefix_readChunkData _ _ _ _
  | case4 c body size_line c₁ hline chunk_size hchunk data hdone ih =>
    exact (prefix_readChunkData _ _ _ _).trans ih

end Client

end HostArduino.http
