import HostArduino.Http.HTTPClient

namespace HostArduino.http

/-- A received line without its line feed, and without a carriage return before it. -/
def dropCarriageReturn (out : Text) : Text :=
  if out.getLast? = some 13 then out.dropLast else out

theorem length_dropCarriageReturn_le (out : Text) : (dropCarriageReturn out).length ≤ out.length := by
  unfold dropCarriageReturn
  split
  · rw [List.length_dropLast]
    exact Nat.sub_le _ _
  · exact Nat.le_refl _

def appendBytes (dst buf : Text) : Text :=
  if buf.length = 0 then dst
  else appendBytes (concatCString dst (buf.take 256)) (buf.drop 256)
termination_by buf.length
decreasing_by
  rw [List.length_drop]
  omega

namespace Client

@[simp] theorem waitData_unread (timeout_ms : UInt16) (c : Client) :
    (waitData timeout_ms c).2.unread = c.unread := rfl

theorem read_unread (c : Client) (n : Nat) : (read c n).1 ++ (read c n).2.unread = c.unread :=
  List.take_append_drop _ _

theorem length_read (c : Client) (n : Nat) :
    (read c n).1.length + (read c n).2.unread.length = c.unread.length := by
  rw [← List.length_append, read_unread]

theorem length_read_lt {c : Client} {n : Nat} {b : UInt8} {got : Text} (h : (read c n).1 = b :: got) :
    (read c n).2.unread.length < c.unread.length := by
  have hlength := length_read c n
  rw [h, List.length_cons] at hlength
  omega

/-- The loop of `readHTTPLine`; `out` holds the bytes of the line so far. -/
def readLineLoop (timeout_ms : UInt16) (c : Client) (out : Text) : Text × Client :=
  let waited := waitData timeout_ms c
  if !waited.1 then (out, waited.2)
  else
    let next := read waited.2 1
    match _hread : next.1 with
    | [] => (out, next.2)
    | ch :: _ =>
      if ch = 10 then (dropCarriageReturn out, next.2)
      else readLineLoop timeout_ms next.2 (out ++ [ch])
termination_by c.unread.length
decreasing_by exact length_read_lt ‹_›

def readHTTPLine (timeout_ms : UInt16) (c : Client) : Text × Client :=
  readLineLoop timeout_ms c []

theorem length_readLineLoop_le (timeout_ms : UInt16) (c : Client) (out : Text) :
    (readLineLoop timeout_ms c out).1.length + (readLineLoop timeout_ms c out).2.unread.length ≤
      out.length + c.unread.length := by
  fun_induction readLineLoop timeout_ms c out with
  | case1 c out waited hstall => exact Nat.le_refl _
  | case2 c out waited hready next hread =>
    have hlength := length_read waited.2 1
    simp only [next, waited, waitData_unread] at hlength ⊢
    omega
  | case3 c out waited hready next rest hread =>
    have hlength := length_read_lt hread
    have hline := length_dropCarriageReturn_le out
    simp only [next, waited, waitData_unread] at hlength ⊢
    omega
  | case4 c out waited hready next ch rest hread hother ih =>
    have hlength := length_read_lt hread
    simp only [List.length_append, List.length_singleton] at ih
    simp only [next, waited, waitData_unread] at hlength ih ⊢
    omega

theorem length_readHTTPLine_le (timeout_ms : UInt16) (c : Client) :
    (readHTTPLine timeout_ms c).1.length + (readHTTPLine timeout_ms c).2.unread.length ≤
      c.unread.length := by
  have hlength := length_readLineLoop_le timeout_ms c []
  rwa [List.length_nil, Nat.zero_add] at hlength

/-- The lines after the terminator chunk, up to a blank one. -/
def skipTrailers (timeout_ms : UInt16) (c : Client) : Client :=
  if (readHTTPLine timeout_ms c).1.length > 0 then skipTrailers timeout_ms (readHTTPLine timeout_ms c).2
  else (readHTTPLine timeout_ms c).2
termination_by c.unread.length
decreasing_by
  have hlength := length_readHTTPLine_le timeout_ms c
  omega

/-- The data of one chunk: whether all of it came, the body with what came, and the
    client after it. A client with bytes available never reads none. -/
def readChunkData (timeout_ms : UInt16) (c : Client) (body : Text) (remaining : Nat) :
    Bool × Text × Client :=
  if remaining = 0 then (true, body, c)
  else
    let waited := waitData timeout_ms c
    if !waited.1 then (false, body, waited.2)
    else
      let want := if remaining < 256 then remaining else 256
      let next := read waited.2 want
      match _hread : next.1 with
      | [] => (false, body, next.2)
      | b :: got =>
        readChunkData timeout_ms next.2 (appendBytes body (b :: got)) (remaining - (b :: got).length)
termination_by c.unread.length
decreasing_by exact length_read_lt ‹_›

theorem length_readChunkData_le (timeout_ms : UInt16) (c : Client) (body : Text) (remaining : Nat) :
    (readChunkData timeout_ms c body remaining).2.2.unread.length ≤ c.unread.length := by
  fun_induction readChunkData timeout_ms c body remaining with
  | case1 c body => exact Nat.le_refl _
  | case2 c body remaining hmore waited hstall => exact Nat.le_refl _
  | case3 c body remaining hmore waited hready want next hread =>
    have hlength := length_read waited.2 want
    simp only [next, waited, waitData_unread] at hlength ⊢
    omega
  | case4 c body remaining hmore waited hready want next b got hread ih =>
    have hlength := length_read_lt hread
    simp only [next, waited, waitData_unread] at hlength ih ⊢
    omega

/-- `getString` of a chunked body. -/
def readChunked (timeout_ms : UInt16) (c : Client) (body : Text) : Text × Client :=
  let size_line := (readHTTPLine timeout_ms c).1
  let c₁ := (readHTTPLine timeout_ms c).2
  if size_line.length = 0 then (body, c₁)
  else
    let chunk_size := strtol size_line 16
    if chunk_size ≤ 0 then (body, skipTrailers timeout_ms c₁)
    else
      let data := readChunkData timeout_ms c₁ body chunk_size.toNat
      if !data.1 then data.2
      else
        -- The line end after the data is discarded as a line of its own.
        readChunked timeout_ms (readHTTPLine timeout_ms data.2.2).2 data.2.1
termination_by c.unread.length
decreasing_by
  have hline := length_readHTTPLine_le timeout_ms c
  have hdata := length_readChunkData_le timeout_ms (readHTTPLine timeout_ms c).2 body
    (strtol (readHTTPLine timeout_ms c).1 16).toNat
  have hend := length_readHTTPLine_le timeout_ms
    (readChunkData timeout_ms (readHTTPLine timeout_ms c).2 body
      (strtol (readHTTPLine timeout_ms c).1 16).toNat).2.2
  rename_i hnonempty _ _
  change ¬(readHTTPLine timeout_ms c).1.length = 0 at hnonempty
  omega

/-- `getString` of a body with a known length, or with none and `remaining` at -1. -/
def readPlain (timeout_ms : UInt16) (c : Client) (body : Text) (remaining : Int) : Text × Client :=
  if remaining = 0 then (body, c)
  else
    let waited := waitData timeout_ms c
    if !waited.1 then (body, waited.2)
    else
      let want := if 0 < remaining ∧ remaining < 256 then remaining.toNat else 256
      let next := read waited.2 want
      match _hread : next.1 with
      | [] => (body, next.2)
      | b :: got =>
        readPlain timeout_ms next.2 (appendBytes body (b :: got))
          (if 0 < remaining then remaining - (b :: got).length else remaining)
termination_by c.unread.length
decreasing_by exact length_read_lt ‹_›

end Client

namespace HTTPClient

def readHTTPLine (h : HTTPClient) : Text × HTTPClient :=
  match h.client_ with
  | none => ([], h)
  | some c =>
    ((Client.readHTTPLine h.timeout_ms_ c).1,
      { h with client_ := some (Client.readHTTPLine h.timeout_ms_ c).2 })

def getString (h : HTTPClient) : Text × HTTPClient :=
  match h.client_ with
  | none => ([], h)
  | some c =>
    let result :=
      if h.chunked_ then Client.readChunked h.timeout_ms_ c []
      else Client.readPlain h.timeout_ms_ c [] h.content_length_
    (result.1, { h with client_ := some result.2 })

end HTTPClient

end HostArduino.http
