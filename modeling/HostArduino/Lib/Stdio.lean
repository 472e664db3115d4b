import Mathlib.Data.List.Basic
import Mathlib.Tactic.Common

namespace Lib.Stdio

inductive Mode where
  | r
  | w
  | a
  | rPlus
  | wPlus
  | aPlus
  deriving DecidableEq, Repr

namespace Mode

def readable : Mode → Bool
  | .w | .a => false
  | _ => true

def writable : Mode → Bool
  | .r => false
  | _ => true

def append : Mode → Bool
  | .a | .aPlus => true
  | _ => false

def truncates : Mode → Bool
  | .w | .wPlus => true
  | _ => false

/-- The modes in which a stream can both be read and be written. -/
def update : Mode → Bool
  | .rPlus | .wPlus | .aPlus => true
  | _ => false

/-- How `fopen` is given the mode. -/
def text : Mode → List UInt8
  | .r => [114]
  | .w => [119]
  | .a => [97]
  | .rPlus => [114, 43]
  | .wPlus => [119, 43]
  | .aPlus => [97, 43]

end Mode

inductive Direction where
  | input
  | output
  deriving DecidableEq, Repr

inductive Whence where
  | set
  | cur
  | end_
  deriving DecidableEq, Repr

/-- A stream on a file: what the file holds, what is buffered counted in, the position of
    the stream, and which way the bytes last went since it was flushed or positioned. -/
structure Stream where
  mode : Mode
  content : List UInt8
  position : Nat
  last : Option Direction
  deriving DecidableEq, Repr

/-- Bytes put at a place of a file, which is filled up with zeros if it ends before. -/
def overwrite (content : List UInt8) (place : Nat) (data : List UInt8) : List UInt8 :=
  content.take place ++ List.replicate (place - content.length) 0 ++ data ++
    content.drop (place + data.length)

theorem length_overwrite (content : List UInt8) (place : Nat) (data : List UInt8) :
    (overwrite content place data).length = max content.length (place + data.length) := by
  simp only [overwrite, List.length_append, List.length_take, List.length_replicate,
    List.length_drop]
  omega

namespace Stream

/-- The stream of a file with this content. Where a stream that appends starts is left to
    the implementation. -/
def fopen (mode : Mode) (appendAtEnd : Bool) (existing : List UInt8) : Stream :=
  let content := if mode.truncates then [] else existing
  { mode
    content
    position := if mode.append && appendAtEnd then content.length else 0
    last := none }

variable (s : Stream)

/-- A stream must be flushed or positioned before it is used the other way. -/
def allows (d : Direction) : Bool :=
  !s.mode.update || s.last == none || s.last == some d

/-- How many bytes of a write get into the file when it has room for `room` more. -/
def accepted (data : List UInt8) (room : Nat) : Nat :=
  if s.mode.writable then min data.length room else 0

def fwrite (data : List UInt8) (room : Nat) : Nat × Stream :=
  let n := s.accepted data room
  if n = 0 then (0, { s with last := some .output })
  else
    let place := if s.mode.append then s.content.length else s.position
    (n, { s with
      content := overwrite s.content place (data.take n)
      position := place + n
      last := some .output })

def fread (size : Nat) : List UInt8 × Stream :=
  let data := if s.mode.readable then (s.content.drop s.position).take size else []
  (data, { s with position := s.position + data.length, last := some .input })

/-- The next byte, or `none` for the end of the file or an error. -/
def fgetc : Option UInt8 × Stream :=
  ((s.fread 1).1.head?, (s.fread 1).2)

/-- Puts back the byte that has just been read. -/
def ungetc : Stream :=
  { s with position := s.position - 1 }

def fflush : Stream :=
  { s with last := none }

/-- Where a seek counts from. -/
def base : Whence → Nat
  | .set => 0
  | .cur => s.position
  | .end_ => s.content.length

/-- Positions outside what a `long` can hold are refused. -/
def fseek (longMax : Int) (offset : Int) (whence : Whence) : Bool × Stream :=
  let target := s.base whence + offset
  if 0 ≤ target ∧ target ≤ longMax then
    (true, { s with position := target.toNat, last := none })
  else (false, { s with last := none })

def ftell (longMax : Int) : Int :=
  if s.position ≤ longMax then s.position else -1

variable {s}

theorem fwrite_fst (data : List UInt8) (room : Nat) :
    (s.fwrite data room).1 = s.accepted data room := by
  simp only [fwrite]
  split
  · symm; assumption
  · rfl

theorem fwrite_mode (s : Stream) (data : List UInt8) (room : Nat) : (s.fwrite data room).2.mode = s.mode := by
  simp only [fwrite]
  split <;> rfl

theorem accepted_le (data : List UInt8) (room : Nat) : s.accepted data room ≤ data.length := by
  unfold accepted
  split
  · exact Nat.min_le_left _ _
  · exact Nat.zero_le _

/-- A write that gets no byte into the file leaves it and the position alone. -/
theorem fwrite_nothing {data : List UInt8} {room : Nat} (h : s.accepted data room = 0) :
    (s.fwrite data room).2.content = s.content ∧ (s.fwrite data room).2.position = s.position := by
  simp [fwrite, h]

/-- A write that gets bytes into the file ends after them. -/
theorem fwrite_something {data : List UInt8} {room : Nat} (h : s.accepted data room ≠ 0) :
    (s.fwrite data room).2.position =
        (if s.mode.append then s.content.length else s.position) + s.accepted data room ∧
      (s.fwrite data room).2.content.length =
        max s.content.length (s.fwrite data room).2.position := by
  have hlength : (data.take (s.accepted data room)).length = s.accepted data room :=
    List.length_take_of_le (accepted_le data room)
  simp only [fwrite, if_neg h, true_and]
  rw [length_overwrite, hlength]

@[simp] theorem fread_position (size : Nat) :
    (s.fread size).2.position = s.position + (s.fread size).1.length := rfl

theorem fgetc_position :
    s.fgetc.2.position = s.position + s.fgetc.1.toList.length := by
  have hone : ∀ data : List UInt8, data.length ≤ 1 → data.length = data.head?.toList.length := by
    intro data hdata
    match data with
    | [] => rfl
    | [b] => rfl
  refine congrArg (s.position + ·) (hone _ ?_)
  split
  · exact List.length_take_le _ _
  · exact Nat.zero_le _

/-- A seek either fails where it is or ends at a position that `ftell` can tell. -/
theorem fseek_cases (longMax offset : Int) (whence : Whence) :
    ((s.fseek longMax offset whence).1 = false ∧
      (s.fseek longMax offset whence).2.position = s.position) ∨
    ((s.fseek longMax offset whence).1 = true ∧
      (s.fseek longMax offset whence).2.ftell longMax =
        (s.fseek longMax offset whence).2.position) := by
  simp only [fseek]
  split
  case isTrue h =>
    refine .inr ⟨rfl, ?_⟩
    have hposition := Int.toNat_of_nonneg h.1
    simp only [ftell]
    rw [if_pos (hposition ▸ h.2)]
  case isFalse => exact .inl ⟨rfl, rfl⟩

/-- A position that a `long` holds can be sought from the beginning. -/
theorem fseek_set {longMax : Int} {place : Nat} (hfits : (place : Int) ≤ longMax) :
    s.fseek longMax place .set = (true, { s with position := place, last := none }) := by
  have htarget : 0 ≤ ((s.base .set : Nat) : Int) + place ∧ ((s.base .set : Nat) : Int) + place ≤ longMax := by
    simp only [base, Int.natCast_zero, Int.zero_add]
    exact ⟨Int.natCast_nonneg place, hfits⟩
  simp only [fseek, if_pos htarget]
  simp [base]

/-- What becomes of a stream through a call that writes nothing: if it does not stay where it
    is, it is where it still can read up to or where it can be sent to. -/
structure Moves (longMax : Int) (s s' : Stream) : Prop where
  mode : s'.mode = s.mode
  content : s'.content = s.content
  position : s'.position = s.position ∨ s'.position ≤ s.content.length ∨ (s'.position : Int) ≤ longMax

theorem Moves.refl (longMax : Int) (s : Stream) : Moves longMax s s :=
  ⟨rfl, rfl, .inl rfl⟩

theorem fread_moves (longMax : Int) (size : Nat) : Moves longMax s (s.fread size).2 := by
  refine ⟨rfl, rfl, ?_⟩
  by_cases hnothing : (s.fread size).1 = []
  · refine .inl ?_
    rw [fread_position, hnothing, List.length_nil, Nat.add_zero]
  · refine .inr (.inl ?_)
    have hle : (s.fread size).1.length ≤ s.content.length - s.position := by
      rw [← List.length_drop]
      unfold fread
      split
      · exact List.length_take_le' _ _
      · exact Nat.zero_le _
    have hpos := List.length_pos_iff.mpr hnothing
    rw [fread_position]
    omega

theorem fseek_moves (longMax offset : Int) (whence : Whence) :
    Moves longMax s (s.fseek longMax offset whence).2 := by
  simp only [fseek]
  split
  · rename_i htarget
    refine ⟨rfl, rfl, .inr (.inr ?_)⟩
    rw [Int.toNat_of_nonneg htarget.1]
    exact htarget.2
  · exact ⟨rfl, rfl, .inl rfl⟩

end Stream

end Lib.Stdio
