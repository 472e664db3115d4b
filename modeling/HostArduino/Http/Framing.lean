import HostArduino.Http.Body

namespace HostArduino.http

theorem hexDigit_range {c : UInt8} (h : (digitValue 16 c).isSome) :
    48 ≤ c.toNat ∧ c.toNat ≤ 57 ∨ 65 ≤ c.toNat ∧ c.toNat ≤ 70 ∨ 97 ≤ c.toNat ∧ c.toNat ≤ 102 := by
  simp only [digitValue, UInt8.le_iff_toNat_le, UInt8.reduceToNat] at h
  split at h
  · omega
  · split at h
    · split at h
      · omega
      · cases h
    · split at h
      · split at h
        · omega
        · cases h
      · split at h
        · omega
        · cases h

theorem ne_of_hexDigit {c : UInt8} (h : (digitValue 16 c).isSome) {b : UInt8}
    (hb : b.toNat < 48 ∨ 102 < b.toNat) : c ≠ b := by
  rintro rfl
  have hrange := hexDigit_range h
  omega

theorem isspace_of_hexDigit {c : UInt8} (h : (digitValue 16 c).isSome) : isspace c = false := by
  have hrange := hexDigit_range h
  simp only [isspace, Bool.or_eq_false_iff, beq_eq_false_iff_ne, Bool.and_eq_false_imp,
    decide_eq_true_eq, decide_eq_false_iff_not, UInt8.le_iff_toNat_le, UInt8.reduceToNat]
  exact ⟨ne_of_hexDigit h (by decide), fun _ => by omega⟩

/-- A hexadecimal number, and then an extension or the end of the line. -/
theorem strtol_hex {p q : Text} (hp : ∀ d ∈ p, (digitValue 16 d).isSome) (hne : p ≠ [])
    (hq : ∀ b ∈ q.head?, b = 59 ∨ b = 13) (hbound : readDigits 16 0 p < 2 ^ 63) :
    strtol (p ++ q) 16 = readDigits 16 0 p := by
  obtain ⟨c, p, rfl⟩ := List.exists_cons_of_ne_nil hne
  have hc : (digitValue 16 c).isSome := hp c (by simp)
  have hprefix : dropHexPrefix (c :: (p ++ q)) = c :: (p ++ q) := by
    unfold dropHexPrefix
    split
    · rename_i x digit rest heq
      have hsecond : x ≠ 120 ∧ x ≠ 88 := by
        have hhead : (p ++ q).head? = some x := by
          rw [(List.cons.inj heq).2]
          rfl
        cases p with
        | nil =>
          obtain rfl | rfl := hq x hhead
          · decide
          · decide
        | cons d p =>
          obtain rfl : d = x := Option.some.inj hhead
          have hd : (digitValue 16 d).isSome := hp d (by simp)
          have hrange := hexDigit_range hd
          refine ⟨ne_of_hexDigit hd (by decide), ?_⟩
          rintro rfl
          revert hrange
          decide
      rw [heq, if_neg (by simp [hsecond])]
    · rfl
  have hdigits : readDigits 16 0 (c :: (p ++ q)) = readDigits 16 0 (c :: p) := by
    rw [← List.cons_append, readDigits_append hp]
    refine readDigits_of_head ?_ _
    intro b hb
    obtain rfl | rfl := hq b hb
    · rfl
    · rfl
  rw [List.cons_append, strtol_cons (isspace_of_hexDigit hc) (ne_of_hexDigit hc (by decide))
    (ne_of_hexDigit hc (by decide)), if_pos rfl, hprefix, hdigits, LONG_MAX]
  omega

/-- The size line of a chunk, without its line end: hexadecimal digits in any case, with
    any leading zeros, and an optional extension. -/
structure SizeLine where
  digits : Text
  ext : Text
  digits_ne : digits ≠ []
  digits_hex : ∀ d ∈ digits, (digitValue 16 d).isSome
  ext_start : ext = [] ∨ ext.head? = some 59
  ext_text : 10 ∉ ext ∧ 0 ∉ ext
  size_lt : readDigits 16 0 digits < 2 ^ 63

namespace SizeLine

def size (l : SizeLine) : Nat :=
  readDigits 16 0 l.digits

def text (l : SizeLine) : Text :=
  l.digits ++ l.ext

/-- The line up to its line feed. -/
def line (l : SizeLine) : Text :=
  l.text ++ [13]

theorem newline_not_mem_line (l : SizeLine) : 10 ∉ l.line := by
  intro hmem
  simp only [line, text, List.mem_append, List.mem_singleton] at hmem
  obtain (hdigit | hext) | hcr := hmem
  · exact ne_of_hexDigit (l.digits_hex 10 hdigit) (by decide) rfl
  · exact l.ext_text.1 hext
  · cases hcr

theorem nul_not_mem_line (l : SizeLine) : 0 ∉ l.line := by
  intro hmem
  simp only [line, text, List.mem_append, List.mem_singleton] at hmem
  obtain (hdigit | hext) | hcr := hmem
  · exact ne_of_hexDigit (l.digits_hex 0 hdigit) (by decide) rfl
  · exact l.ext_text.2 hext
  · cases hcr

theorem dropCarriageReturn_line (l : SizeLine) : dropCarriageReturn l.line = l.text := by
  rw [dropCarriageReturn, line, List.getLast?_concat, if_pos rfl, List.dropLast_concat]

theorem head?_ext (l : SizeLine) {b : UInt8} (hb : b ∈ l.ext.head?) : b = 59 := by
  obtain hnone | hsome := l.ext_start
  · rw [hnone] at hb
    cases hb
  · rw [hsome] at hb
    exact (Option.some.inj hb).symm

theorem strtol_text (l : SizeLine) : strtol l.text 16 = l.size :=
  strtol_hex l.digits_hex l.digits_ne (fun _ hb => .inl (l.head?_ext hb)) l.size_lt

theorem readDigits_take_le (l : SizeLine) (n : Nat) : readDigits 16 0 (l.digits.take n) ≤ l.size := by
  unfold size
  rw [← List.take_append_drop n l.digits,
    readDigits_append fun d hd => l.digits_hex d (List.mem_of_mem_take hd), List.take_append_drop]
  exact readDigits_le 16 (by decide) _ _

/-- A size line cut off is the number of the digits before the cut. -/
theorem strtol_take_line (l : SizeLine) (n : Nat) :
    strtol (l.line.take n) 16 = readDigits 16 0 (l.digits.take n) := by
  by_cases hzero : n = 0
  · rw [hzero, List.take_zero, List.take_zero]
    rfl
  have hsplit : l.line.take n = l.digits.take n ++ (l.ext ++ [13]).take (n - l.digits.length) := by
    rw [line, text, List.append_assoc, List.take_append]
  rw [hsplit]
  refine strtol_hex (fun d hd => l.digits_hex d (List.mem_of_mem_take hd)) ?_ ?_ ?_
  · intro hnil
    obtain hn | hdigits := List.take_eq_nil_iff.mp hnil
    · exact hzero hn
    · exact l.digits_ne hdigits
  · intro b hb
    have hhead : b ∈ (l.ext ++ [13]).head? := by
      cases hmore : n - l.digits.length with
      | zero =>
        rw [hmore, List.take_zero] at hb
        cases hb
      | succ m =>
        rwa [hmore, List.head?_take, if_neg (Nat.succ_ne_zero m)] at hb
    cases hext : l.ext with
    | nil =>
      rw [hext] at hhead
      exact .inr (Option.some.inj hhead).symm
    | cons e ext =>
      rw [hext] at hhead
      refine .inl (l.head?_ext ?_)
      rw [hext]
      exact hhead
  · exact Nat.lt_of_le_of_lt (l.readDigits_take_le n) l.size_lt

end SizeLine

/-- One way to cut a body into chunks and to write the chunks down. -/
structure Framing where
  chunks : List SizeLine
  chunks_pos : ∀ l ∈ chunks, 0 < l.size
  last : SizeLine
  last_zero : last.size = 0
  trailers : List Text
  trailers_text : ∀ trailer ∈ trailers, trailer ≠ [] ∧ 10 ∉ trailer

/-- The chunks of a body, each its size line, its data and a line end, before `tail`. -/
def encodeChunks (tail : Text) : List SizeLine → Text → Text
  | [], _ => tail
  | l :: ls, body =>
    l.line ++ 10 :: (body.take l.size ++ 13 :: 10 :: encodeChunks tail ls (body.drop l.size))

/-- The data of each chunk of a body. -/
def chunkData : List SizeLine → Text → List Text
  | [], _ => []
  | l :: ls, body => body.take l.size :: chunkData ls (body.drop l.size)

def chunksSize (ls : List SizeLine) : Nat :=
  (ls.map SizeLine.size).sum

namespace Framing

/-- The length of the bodies that the framing is for. -/
def size (f : Framing) : Nat :=
  chunksSize f.chunks

/-- The terminator chunk and what comes after it. -/
def tail (f : Framing) : Text :=
  f.last.line ++ 10 :: (f.trailers.flatMap (· ++ [13, 10]) ++ [13, 10])

/-- The chunked encoding of a body. -/
def encode (f : Framing) (body : Text) : Text :=
  encodeChunks f.tail f.chunks body

end Framing

theorem flatten_chunkData (ls : List SizeLine) {body : Text} (hbody : body.length = chunksSize ls) :
    (chunkData ls body).flatten = body := by
  induction ls generalizing body with
  | nil => exact (List.eq_nil_of_length_eq_zero hbody).symm
  | cons l ls ih =>
    rw [chunksSize, List.map_cons, List.sum_cons] at hbody
    have hrest : (body.drop l.size).length = chunksSize ls := by
      rw [List.length_drop, hbody, chunksSize]
      omega
    rw [chunkData, List.flatten_cons, ih hrest, List.take_append_drop]

theorem length_encodeChunks (tail : Text) (ls : List SizeLine) {body : Text}
    (hbody : body.length = chunksSize ls) :
    (encodeChunks tail ls body).length =
      (ls.map fun l => l.line.length + 1 + l.size + 2).sum + tail.length := by
  induction ls generalizing body with
  | nil => simp [encodeChunks]
  | cons l ls ih =>
    rw [chunksSize, List.map_cons, List.sum_cons] at hbody
    have hbody' : (body.drop l.size).length = chunksSize ls := by
      rw [List.length_drop, hbody, chunksSize]
      omega
    have hrest := ih hbody'
    simp only [encodeChunks, List.length_append, List.length_cons, List.length_take, List.map_cons,
      List.sum_cons, hrest, hbody]
    omega

/-- The length of the encodings under the framing, which is that of the chunks' parts. -/
def Framing.length (f : Framing) : Nat :=
  (f.chunks.map fun l => l.line.length + 1 + l.size + 2).sum + f.tail.length

theorem Framing.length_encode (f : Framing) {body : Text} (hbody : body.length = f.size) :
    (f.encode body).length = f.length :=
  length_encodeChunks f.tail f.chunks hbody

/-- One chunk of five bytes, `5\r\n.....\r\n0\r\n\r\n`. -/
def Framing.five : Framing where
  chunks := [{
    digits := [53], ext := [], digits_ne := by decide, digits_hex := by decide +kernel, ext_start := .inl rfl,
    ext_text := by decide, size_lt := by decide }]
  chunks_pos := by decide
  last := {
    digits := [48], ext := [], digits_ne := by decide, digits_hex := by decide +kernel, ext_start := .inl rfl,
    ext_text := by decide, size_lt := by decide }
  last_zero := by decide
  trailers := []
  trailers_text := by decide

example : Framing.five.encode (ascii "hello") = ascii "5\r\nhello\r\n0\r\n\r\n" := by
  decide +kernel

end HostArduino.http
