import HostArduino.Lib.Spans
import HostArduino.Stream.Find

namespace HostArduino.stream

open Lib

/-- The loop of `readStringUntil` over the bytes that `timedRead` returns one after the
    other before it first returns -1; `out` holds those of the string so far. The second
    component is what is left of the content. -/
def readStringUntilLoop (terminator : UInt8) : List UInt8 → List UInt8 → List UInt8 × List UInt8
  | out, [] => (out, [])
  | out, c :: rest =>
    if sameChar c terminator then (out, rest) else readStringUntilLoop terminator (out ++ [c]) rest

def readStringUntil (terminator : UInt8) (content : List UInt8) : List UInt8 × List UInt8 :=
  readStringUntilLoop terminator [] content

/-- What `readBytesUntil` returns, what is in the buffer then, and what is left of the content. -/
structure Stored where
  count : Nat
  buffer : List UInt8
  left : List UInt8
  deriving DecidableEq, Repr

def readBytesUntilLoop (terminator : UInt8) (length : Nat) : Nat → List UInt8 → List UInt8 → Stored
  | count, buffer, [] => ⟨count, buffer, []⟩
  | count, buffer, c :: rest =>
    if count < length then
      if sameChar c terminator then ⟨count, buffer, rest⟩
      else readBytesUntilLoop terminator length (count + 1) (buffer.set count c) rest
    else ⟨count, buffer, c :: rest⟩

/-- `buffer` is `none` for a null pointer. -/
def readBytesUntil (terminator : UInt8) (buffer : Option (List UInt8)) (length : Nat)
    (content : List UInt8) : Stored :=
  match buffer with
  | none => ⟨0, [], content⟩
  | some buffer =>
    if length = 0 then ⟨0, buffer, content⟩ else readBytesUntilLoop terminator length 0 buffer content

/-- The bytes before the first terminator and what is left behind it, or all the bytes. -/
structure UpTo (terminator : UInt8) (content bytes left : List UInt8) : Prop where
  notMem : terminator ∉ bytes
  split : content = bytes ++ terminator :: left ∨ content = bytes ∧ left = []

/-- `readStringUntil` reads up to the terminator. -/
def StringUntilCorrect (terminator : UInt8) (content : List UInt8) : Prop :=
  UpTo terminator content (readStringUntil terminator content).1 (readStringUntil terminator content).2

/-- `readBytesUntil` stores the first `length` of the bytes up to the terminator, which it
    consumes only when it stops there, and leaves the rest of the buffer alone. -/
def BytesUntilCorrect (terminator : UInt8) (buffer : List UInt8) (length : Nat) (content : List UInt8) : Prop :=
  ∀ bytes left, UpTo terminator content bytes left →
    readBytesUntil terminator (some buffer) length content =
      ⟨min length bytes.length, bytes.take length ++ buffer.drop (min length bytes.length),
        if length ≤ bytes.length then content.drop length else left⟩

/-- The two agree on the bytes and on what is left. -/
def UntilAgree (terminator : UInt8) (buffer : List UInt8) (length : Nat) (content : List UInt8) : Prop :=
  (readStringUntil terminator content).1.length < length →
    readBytesUntil terminator (some buffer) length content =
      ⟨(readStringUntil terminator content).1.length,
        (readStringUntil terminator content).1 ++ buffer.drop (readStringUntil terminator content).1.length,
        (readStringUntil terminator content).2⟩

/-- What neither loop stops at. -/
def passes (terminator c : UInt8) : Bool :=
  !sameChar c terminator

theorem readStringUntilLoop_eq (terminator : UInt8) (out content : List UInt8) :
    readStringUntilLoop terminator out content =
      (out ++ content.takeWhile (passes terminator), (content.dropWhile (passes terminator)).drop 1) := by
  induction content generalizing out with
  | nil => simp [readStringUntilLoop]
  | cons c rest ih =>
    rw [readStringUntilLoop]
    split
    · rename_i hsame
      have hstop : ¬passes terminator c = true := by simp [passes, hsame]
      rw [List.takeWhile_cons_of_neg hstop, List.dropWhile_cons_of_neg hstop, List.append_nil]
      rfl
    · rename_i hother
      have hpass : passes terminator c = true := by simpa [passes] using hother
      rw [ih, List.takeWhile_cons_of_pos hpass, List.dropWhile_cons_of_pos hpass, List.append_assoc,
        List.singleton_append]

theorem readStringUntil_eq (terminator : UInt8) (content : List UInt8) :
    readStringUntil terminator content =
      (content.takeWhile (passes terminator), (content.dropWhile (passes terminator)).drop 1) :=
  readStringUntilLoop_eq terminator [] content

theorem set_split {buffer : List UInt8} {count : Nat} (hcount : count < buffer.length) (c : UInt8) (n : Nat) :
    (buffer.set count c).take (count + 1) = buffer.take count ++ [c] ∧
      (buffer.set count c).drop (count + 1 + n) = buffer.drop (count + 1 + n) := by
  constructor
  · rw [List.set_eq_take_append_cons_drop, if_pos hcount, ← List.singleton_append, ← List.append_assoc]
    refine List.take_left' ?_
    rw [List.length_append, List.length_take, List.length_singleton]
    omega
  · exact List.drop_set_of_lt (by omega)

/-- The loop from any point: `count` bytes are in the buffer, and it stores what comes
    behind them until it stops at a byte or the buffer is full. -/
theorem readBytesUntilLoop_eq (terminator : UInt8) {length count : Nat} (hcount : count ≤ length)
    {buffer : List UInt8} (hbuffer : length ≤ buffer.length) {content got : List UInt8}
    (hgot : got = (content.take (length - count)).takeWhile (passes terminator)) :
    readBytesUntilLoop terminator length count buffer content =
      ⟨count + got.length, buffer.take count ++ got ++ buffer.drop (count + got.length),
        content.drop (if count + got.length < length then got.length + 1 else got.length)⟩ := by
  induction content generalizing count buffer got with
  | nil =>
    obtain rfl : got = [] := by simpa using hgot
    simp [readBytesUntilLoop]
  | cons c rest ih =>
    rw [readBytesUntilLoop]
    by_cases hroom : count < length
    · rw [if_pos hroom]
      have htake : (c :: rest).take (length - count) = c :: rest.take (length - (count + 1)) := by
        have hsucc : length - count = length - (count + 1) + 1 := by omega
        rw [hsucc, List.take_succ_cons]
      rw [htake] at hgot
      split
      · rename_i hsame
        rw [List.takeWhile_cons_of_neg (by simp [passes, hsame])] at hgot
        subst hgot
        simp [hroom]
      · rename_i hother
        rw [List.takeWhile_cons_of_pos (by simpa [passes] using hother)] at hgot
        have hrest := ih (Nat.succ_le_of_lt hroom)
          (show length ≤ (buffer.set count c).length by rwa [List.length_set]) rfl
        generalize (rest.take (length - (count + 1))).takeWhile (passes terminator) = more at hgot hrest
        subst hgot
        obtain ⟨hfront, hback⟩ := set_split (Nat.lt_of_lt_of_le hroom hbuffer) c more.length
        have hsum : count + (more.length + 1) = count + 1 + more.length := by omega
        rw [hrest, hfront, hback, List.length_cons, hsum, List.append_assoc (buffer.take count),
          List.singleton_append]
        split <;> rfl
    · obtain rfl : count = length := by omega
      rw [Nat.sub_self, List.take_zero, List.takeWhile_nil] at hgot
      subst hgot
      simp

/-- What `readBytesUntil` does with the bytes it gets. -/
def storedAll (buffer : List UInt8) (length : Nat) (content got : List UInt8) : Stored :=
  ⟨got.length, got ++ buffer.drop got.length,
    content.drop (if got.length < length then got.length + 1 else got.length)⟩

theorem readBytesUntil_eq (terminator : UInt8) {buffer : List UInt8} {length : Nat}
    (hbuffer : length ≤ buffer.length) (content : List UInt8) :
    readBytesUntil terminator (some buffer) length content =
      storedAll buffer length content ((content.take length).takeWhile (passes terminator)) := by
  rw [readBytesUntil, storedAll]
  split
  · rename_i hzero
    subst hzero
    simp
  · rw [readBytesUntilLoop_eq terminator (Nat.zero_le length) hbuffer rfl, Nat.sub_zero]
    simp only [Nat.zero_add, List.take_zero, List.nil_append]

theorem upTo_iff {terminator : UInt8} {content bytes left : List UInt8} :
    UpTo terminator content bytes left ↔
      bytes = content.takeWhile (· ≠ terminator) ∧ left = content.drop (bytes.length + 1) := by
  constructor
  · rintro ⟨hnotMem, hsplit⟩
    have hall : ∀ b ∈ bytes, decide (b ≠ terminator) = true := fun b hb => by
      simpa using fun heq : b = terminator => hnotMem (heq ▸ hb)
    obtain rfl | ⟨rfl, rfl⟩ := hsplit
    · constructor
      · exact (takeWhile_stops hall (by simp)).1.symm
      · simp
    · exact ⟨(List.takeWhile_eq_self_iff.mpr hall).symm, by simp⟩
  · rintro ⟨rfl, rfl⟩
    constructor
    · intro hmem
      simpa using List.mem_takeWhile_imp hmem
    · rw [← drop_one_dropWhile]
      cases hrest : content.dropWhile (· ≠ terminator) with
      | nil =>
        refine .inr ⟨?_, rfl⟩
        conv_lhs => rw [← List.takeWhile_append_dropWhile (p := (· ≠ terminator)) (l := content)]
        rw [hrest, List.append_nil]
      | cons c rest =>
        have hc : c = terminator := by simpa using stops_of_dropWhile_eq_cons hrest
        subst hc
        refine .inl ?_
        conv_lhs => rw [← List.takeWhile_append_dropWhile (p := (· ≠ c)) (l := content)]
        rw [hrest]
        rfl

/-- The loops stop where they should exactly when the terminator is below 128 or does not occur. -/
theorem takeWhile_passes_iff {terminator : UInt8} {content : List UInt8} :
    content.takeWhile (passes terminator) = content.takeWhile (· ≠ terminator) ↔
      terminator < 128 ∨ terminator ∉ content := by
  have hpasses (c : UInt8) : passes terminator c = true ↔ ¬(c = terminator ∧ terminator < 128) := by
    rw [passes, Bool.not_eq_true', ← Bool.not_eq_true, sameChar_iff]
  constructor
  · intro heq
    by_contra hmissed
    rw [not_or, not_not] at hmissed
    obtain ⟨hhigh, hmem⟩ := hmissed
    have hall : ∀ c ∈ content, passes terminator c = true :=
      fun c _ => (hpasses c).mpr fun hstop => hhigh hstop.2
    rw [List.takeWhile_eq_self_iff.mpr hall] at heq
    rw [heq] at hmem
    simpa using List.mem_takeWhile_imp hmem
  · rintro (hlow | hnotMem)
    · refine congrArg (content.takeWhile ·) (funext fun c => ?_)
      rw [Bool.eq_iff_iff, hpasses]
      simp [hlow]
    · have hall : ∀ c ∈ content, c ≠ terminator := fun c hc heq => hnotMem (heq ▸ hc)
      rw [List.takeWhile_eq_self_iff.mpr fun c hc => (hpasses c).mpr fun hstop => hall c hc hstop.1,
        List.takeWhile_eq_self_iff.mpr fun c hc => by simpa using hall c hc]

theorem stringUntilCorrect_iff {terminator : UInt8} {content : List UInt8} :
    StringUntilCorrect terminator content ↔ terminator < 128 ∨ terminator ∉ content := by
  rw [StringUntilCorrect, upTo_iff, readStringUntil_eq, drop_one_dropWhile, and_iff_left rfl, takeWhile_passes_iff]

theorem storedAll_inj {buffer : List UInt8} {length : Nat} {content got got' : List UInt8} :
    storedAll buffer length content got = storedAll buffer length content got' ↔ got = got' := by
  constructor
  · intro heq
    obtain ⟨hcount, hbuffer, -⟩ := Stored.mk.inj heq
    exact (List.append_inj hbuffer hcount).1
  · exact congrArg _

theorem storedAll_take (buffer : List UInt8) (length : Nat) (content bytes : List UInt8) :
    storedAll buffer length content (bytes.take length) =
      ⟨min length bytes.length, bytes.take length ++ buffer.drop (min length bytes.length),
        if length ≤ bytes.length then content.drop length else content.drop (bytes.length + 1)⟩ := by
  rw [storedAll, List.length_take]
  by_cases hfull : length ≤ bytes.length
  · rw [Nat.min_eq_left hfull, if_neg (Nat.lt_irrefl length), if_pos hfull]
  · have hshort : bytes.length < length := Nat.lt_of_not_le hfull
    rw [Nat.min_eq_right (Nat.le_of_lt hshort), if_pos hshort, if_neg hfull]

theorem bytesUntilCorrect_iff {terminator : UInt8} {buffer : List UInt8} {length : Nat}
    (hbuffer : length ≤ buffer.length) {content : List UInt8} :
    BytesUntilCorrect terminator buffer length content ↔
      terminator < 128 ∨ terminator ∉ content.take length := by
  have hspec : BytesUntilCorrect terminator buffer length content ↔
      readBytesUntil terminator (some buffer) length content =
        storedAll buffer length content ((content.take length).takeWhile (· ≠ terminator)) := by
    rw [← List.take_takeWhile, storedAll_take]
    constructor
    · exact fun hcorrect => hcorrect _ _ (upTo_iff.mpr ⟨rfl, rfl⟩)
    · intro heq bytes left hupTo
      obtain ⟨rfl, rfl⟩ := upTo_iff.mp hupTo
      exact heq
  rw [hspec, readBytesUntil_eq terminator hbuffer, storedAll_inj, takeWhile_passes_iff]

/-- The two agree whatever the terminator is: they miss the same ones. -/
theorem untilAgree {terminator : UInt8} {buffer : List UInt8} {length : Nat}
    (hbuffer : length ≤ buffer.length) (content : List UInt8) :
    UntilAgree terminator buffer length content := by
  intro hlength
  rw [readStringUntil_eq] at hlength ⊢
  rw [readBytesUntil_eq terminator hbuffer, ← List.take_takeWhile, List.take_of_length_le (Nat.le_of_lt hlength),
    storedAll, if_pos hlength, drop_one_dropWhile]

/-- `readStringUntil` and `readBytesUntil` read up to the terminator exactly when it is
    below 128 or does not occur where they look, `char` being signed; and they agree. -/
theorem readUntil_correct_iff (terminator : UInt8) (content : List UInt8) :
    (StringUntilCorrect terminator content ↔ terminator < 128 ∨ terminator ∉ content) ∧
      ∀ (buffer : List UInt8) (length : Nat), length ≤ buffer.length →
        (BytesUntilCorrect terminator buffer length content ↔
          terminator < 128 ∨ terminator ∉ content.take length) ∧
        UntilAgree terminator buffer length content :=
  ⟨stringUntilCorrect_iff, fun _ _ hbuffer => ⟨bytesUntilCorrect_iff hbuffer, untilAgree hbuffer content⟩⟩

theorem readUntil_correct_newline : BytesUntilCorrect 10 [0, 0, 0] 3 [79, 75, 10, 33] :=
  (((readUntil_correct_iff 10 [79, 75, 10, 33]).2 [0, 0, 0] 3 (by decide)).1).mpr (.inl (by decide))

/-- The terminator 0xFF stands behind the first byte, and both read past it. -/
theorem readUntil_misses :
    (UpTo 0xFF [1, 0xFF, 2] [1] [2] ∧ readStringUntil 0xFF [1, 0xFF, 2] = ([1, 0xFF, 2], [])) ∧
      readBytesUntil 0xFF (some [0, 0, 0]) 3 [1, 0xFF, 2] = ⟨3, [1, 0xFF, 2], []⟩ :=
  ⟨⟨⟨by decide, .inl rfl⟩, by decide⟩, by decide⟩

end HostArduino.stream
