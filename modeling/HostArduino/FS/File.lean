import HostArduino.FS.FS
import HostArduino.Lib.EventMachine
import HostArduino.Lib.Stdio
import Mathlib.Algebra.Order.Ring.Int

namespace HostArduino.fs

open Lib

/-- A `File` and the stream that its `handle_` stands for. -/
structure OpenFile where
  file : File
  stream : Stdio.Stream
  deriving DecidableEq, Repr

namespace File

/-- The record that opening leaves, the file being `size` bytes long then. -/
def opened (hostPath displayPath : Path) (size : Nat) : File :=
  { File.default with
    handle_ := true
    host_path_ := hostPath
    display_path_ := displayPath
    name_ := baseName displayPath
    size_ := size }

def available (file : File) : Int :=
  if !file.handle_ || file.directory_ || file.size_ ≤ file.position_ then 0
  else Int.bmod (file.size_ - file.position_) (2 ^ 32)

def position (file : File) : Nat :=
  file.position_

def size (file : File) : Nat :=
  file.size_

end File

/-- An opened file of this content; where a mode that appends starts is `appendAtEnd`. -/
def OpenFile.fopen (hostPath displayPath : Path) (mode : Stdio.Mode) (appendAtEnd : Bool)
    (existing : List UInt8) : OpenFile :=
  let stream := Stdio.Stream.fopen mode appendAtEnd existing
  { file := File.opened hostPath displayPath stream.content.length
    stream }

/-- It is what `File` makes of a stream and of a size that `stat` reports right after. -/
theorem make_opened {σ : Type} {h : Host σ} {s s' : σ} {hostPath displayPath : Path}
    {mode : Stdio.Mode} {appendAtEnd : Bool} {existing : List UInt8}
    (hopen : h.fopen s hostPath mode.text = (true, s'))
    (hstat : h.stat s' hostPath =
      some ⟨false, (Stdio.Stream.fopen mode appendAtEnd existing).content.length⟩) :
    (File.make h hostPath displayPath (some mode.text) false s).value =
      (OpenFile.fopen hostPath displayPath mode appendAtEnd existing).file := by
  simp [File.make, Host.callFopen, fileSize, Host.callStat, hopen, hstat, OpenFile.fopen,
    File.opened, File.default]

/-- A `long` of that many bits: its greatest value and what a position is converted to. -/
def longMax (longBits : Nat) : Int :=
  2 ^ (longBits - 1) - 1

def toLong (longBits : Nat) (pos : UInt32) : Int :=
  Int.bmod pos.toNat (2 ^ longBits)

namespace OpenFile

variable (o : OpenFile)

/-- `none` stands for a null `buffer`; the file has room for `room` more bytes. -/
def write (buffer : Option (List UInt8)) (room : Nat) : Nat × OpenFile :=
  match buffer with
  | none => (0, o)
  | some buffer =>
    if !o.file.handle_ || o.file.directory_ then (0, o)
    else
      let (written, stream) := o.stream.fwrite buffer room
      let position_ := o.file.position_ + written
      let size_ := if position_ > o.file.size_ then position_ else o.file.size_
      (written, { stream, file := { o.file with position_, size_ } })

def writeByte (value : UInt8) (room : Nat) : Nat × OpenFile :=
  o.write (some [value]) room

/-- A byte, or `none` for -1. -/
def read : Option UInt8 × OpenFile :=
  if !o.file.handle_ || o.file.directory_ then (none, o)
  else
    match o.stream.fgetc with
    | (some c, stream) =>
      (some c, { stream, file := { o.file with position_ := o.file.position_ + 1 } })
    | (none, stream) => (none, { o with stream })

/-- The bytes put into the buffer, whose number it returns. -/
def readBuffer (buffer : Bool) (size : Nat) : List UInt8 × OpenFile :=
  if !o.file.handle_ || !buffer || o.file.directory_ then ([], o)
  else
    let (data, stream) := o.stream.fread size
    let position_ := o.file.position_ + data.length
    (data, { stream, file := { o.file with position_ } })

def peek : Option UInt8 × OpenFile :=
  if !o.file.handle_ || o.file.directory_ then (none, o)
  else
    match o.stream.fgetc with
    | (some c, stream) => (some c, { o with stream := stream.ungetc })
    | (none, stream) => (none, { o with stream })

def flush : OpenFile :=
  if o.file.handle_ then { o with stream := o.stream.fflush } else o

def seek (longBits : Nat) (pos : UInt32) (mode : Stdio.Whence) : Bool × OpenFile :=
  if !o.file.handle_ || o.file.directory_ then (false, o)
  else
    match o.stream.fseek (longMax longBits) (toLong longBits pos) mode with
    | (false, stream) => (false, { o with stream })
    | (true, stream) =>
      let current := stream.ftell (longMax longBits)
      (true, { stream, file := { o.file with position_ := if current < 0 then 0 else current.toNat } })

end OpenFile

inductive FileCall where
  | write (buffer : Option (List UInt8)) (room : Nat)
  | writeByte (value : UInt8) (room : Nat)
  | read
  | readBuffer (buffer : Bool) (size : Nat)
  | peek
  | flush
  | seek (pos : UInt32) (mode : Stdio.Whence)
  deriving DecidableEq, Repr

/-- Which way the call uses the stream, if it reads or writes it. -/
def FileCall.direction : FileCall → Option Stdio.Direction
  | .write _ _ | .writeByte _ _ => some .output
  | .read | .readBuffer _ _ | .peek => some .input
  | .flush | .seek _ _ => none

/-- The bytes that the call would write, and the room there is for them. -/
def FileCall.data : FileCall → Option (List UInt8 × Nat)
  | .write buffer room => buffer.map (·, room)
  | .writeByte value room => some ([value], room)
  | _ => none

def OpenFile.call (longBits : Nat) (o : OpenFile) : FileCall → OpenFile
  | .write buffer room => (o.write buffer room).2
  | .writeByte value room => (o.writeByte value room).2
  | .read => o.read.2
  | .readBuffer buffer size => (o.readBuffer buffer size).2
  | .peek => o.peek.2
  | .flush => o.flush
  | .seek pos mode => (o.seek longBits pos mode).2

/-- The calls on an open file, none of which may turn the stream round by itself. -/
def fileMachine (longBits : Nat) : EventMachine OpenFile FileCall :=
  .guarded (fun o c => c.direction.all o.stream.allows) (OpenFile.call longBits)

/-- What the file tells about itself is what is the case. -/
structure OpenFile.Faithful (o : OpenFile) : Prop where
  size : o.file.size = o.stream.content.length
  position : o.file.position = o.stream.position
  available : o.stream.content.length - o.stream.position < 2 ^ 31 →
    o.file.available = (o.stream.content.length - o.stream.position : Nat)

/-- A write that gets no byte into the file does not find the position beyond its end, and
    one that appends bytes finds the position there. -/
def OpenFile.InStep (o : OpenFile) (c : FileCall) : Prop :=
  ∀ data room, c.data = some (data, room) → o.stream.allows .output = true →
    (o.stream.accepted data room = 0 → o.stream.position ≤ o.stream.content.length) ∧
    (o.stream.accepted data room ≠ 0 → o.stream.mode.append = true →
      o.stream.position = o.stream.content.length)

/-- There is a stream behind the file. -/
structure OpenFile.IsOpen (o : OpenFile) : Prop where
  handle : o.file.handle_ = true
  directory : o.file.directory_ = false

theorem fopen_isOpen (hostPath displayPath : Path) (mode : Stdio.Mode) (appendAtEnd : Bool)
    (existing : List UInt8) :
    (OpenFile.fopen hostPath displayPath mode appendAtEnd existing).IsOpen :=
  ⟨rfl, rfl⟩

variable {o : OpenFile}

/-- All that a call changes of the record is its two counters, and the stream stays one of
    its mode. -/
theorem call_frame (o : OpenFile) (longBits : Nat) (c : FileCall) :
    (∃ size_ position_, (o.call longBits c).file = { o.file with size_, position_ }) ∧
      (o.call longBits c).stream.mode = o.stream.mode := by
  cases c with
  | write buffer room =>
    cases buffer with
    | none => exact ⟨⟨_, _, rfl⟩, rfl⟩
    | some data =>
      simp only [OpenFile.call, OpenFile.write]
      split
      · exact ⟨⟨_, _, rfl⟩, rfl⟩
      · exact ⟨⟨_, _, rfl⟩, o.stream.fwrite_mode data room⟩
  | writeByte value room =>
    simp only [OpenFile.call, OpenFile.writeByte, OpenFile.write]
    split
    · exact ⟨⟨_, _, rfl⟩, rfl⟩
    · exact ⟨⟨_, _, rfl⟩, o.stream.fwrite_mode [value] room⟩
  | read =>
    simp only [OpenFile.call, OpenFile.read, Stdio.Stream.fgetc]
    split
    · exact ⟨⟨_, _, rfl⟩, rfl⟩
    · split
      all_goals
        rename_i hgetc
        obtain ⟨-, rfl⟩ := Prod.mk.inj hgetc
        exact ⟨⟨_, _, rfl⟩, rfl⟩
  | readBuffer buffer size =>
    simp only [OpenFile.call, OpenFile.readBuffer]
    split <;> exact ⟨⟨_, _, rfl⟩, rfl⟩
  | peek =>
    simp only [OpenFile.call, OpenFile.peek, Stdio.Stream.fgetc]
    split
    · exact ⟨⟨_, _, rfl⟩, rfl⟩
    · split
      all_goals
        rename_i hgetc
        obtain ⟨-, rfl⟩ := Prod.mk.inj hgetc
        exact ⟨⟨_, _, rfl⟩, rfl⟩
  | flush =>
    simp only [OpenFile.call, OpenFile.flush]
    split <;> exact ⟨⟨_, _, rfl⟩, rfl⟩
  | seek pos mode =>
    have hmode := (Stdio.Stream.fseek_moves (s := o.stream) (longMax longBits) (toLong longBits pos) mode).mode
    simp only [OpenFile.call, OpenFile.seek]
    split
    · exact ⟨⟨_, _, rfl⟩, rfl⟩
    · split
      all_goals
        rename_i hseek
        rw [hseek] at hmode
        exact ⟨⟨_, _, rfl⟩, hmode⟩

/-- No call opens or closes the file. -/
theorem call_isOpen (hopen : o.IsOpen) (longBits : Nat) (c : FileCall) :
    (o.call longBits c).IsOpen := by
  obtain ⟨⟨size_, position_, hfile⟩, -⟩ := call_frame o longBits c
  constructor
  · rw [hfile]
    exact hopen.handle
  · rw [hfile]
    exact hopen.directory

/-- With the two counters right, `available` is right too. -/
theorem faithful_iff (hopen : o.IsOpen) :
    o.Faithful ↔ o.file.size_ = o.stream.content.length ∧ o.file.position_ = o.stream.position := by
  constructor
  · intro h
    exact ⟨h.size, h.position⟩
  · rintro ⟨hsize, hposition⟩
    refine ⟨hsize, hposition, fun hsmall => ?_⟩
    simp only [File.available, hopen.handle, hopen.directory, hsize, hposition, Bool.not_true,
      Bool.false_or, decide_eq_true_eq]
    split
    case isTrue hend => rw [Nat.sub_eq_zero_of_le hend, Int.natCast_zero]
    case isFalse hleft =>
      rw [Int.bmod_eq_of_le (by omega) (by omega)]
      omega

theorem write_eq (hopen : o.IsOpen) (data : List UInt8) (room : Nat) :
    (o.write (some data) room).2 =
      { stream := (o.stream.fwrite data room).2
        file := { o.file with
          position_ := o.file.position_ + o.stream.accepted data room
          size_ := max o.file.size_ (o.file.position_ + o.stream.accepted data room) } } := by
  have hmax : ∀ a b : Nat, (if a > b then a else b) = max b a := by
    intro a b
    split <;> omega
  simp [OpenFile.write, hopen.handle, hopen.directory, Stdio.Stream.fwrite_fst, hmax]

theorem write_faithful_iff (hopen : o.IsOpen) (h : o.Faithful) (data : List UInt8) (room : Nat) :
    (o.write (some data) room).2.Faithful ↔
      (o.stream.accepted data room = 0 → o.stream.position ≤ o.stream.content.length) ∧
      (o.stream.accepted data room ≠ 0 → o.stream.mode.append = true →
        o.stream.position = o.stream.content.length) := by
  obtain ⟨hsize, hposition⟩ := (faithful_iff hopen).mp h
  have hopen' : (o.write (some data) room).2.IsOpen :=
    call_isOpen hopen 0 (.write (some data) room)
  rw [faithful_iff hopen', write_eq hopen]
  simp only [hsize, hposition]
  by_cases hnothing : o.stream.accepted data room = 0
  · obtain ⟨hcontent, hplace⟩ := Stdio.Stream.fwrite_nothing hnothing
    rw [hcontent, hplace, hnothing]
    constructor
    · rintro ⟨hlength, -⟩
      exact ⟨fun _ => by omega, fun hne => absurd rfl hne⟩
    · rintro ⟨hle, -⟩
      have hle := hle rfl
      exact ⟨by omega, by omega⟩
  · obtain ⟨hplace, hlength⟩ := Stdio.Stream.fwrite_something hnothing
    rw [hlength, hplace]
    by_cases happend : o.stream.mode.append = true
    · rw [if_pos happend]
      constructor
      · rintro ⟨-, hend⟩
        exact ⟨fun hzero => absurd hzero hnothing, fun _ _ => by omega⟩
      · rintro ⟨-, hend⟩
        rw [hend hnothing happend]
        exact ⟨rfl, rfl⟩
    · rw [if_neg happend]
      exact ⟨fun _ => ⟨fun hzero => absurd hzero hnothing, fun _ hyes => absurd hyes happend⟩,
        fun _ => ⟨rfl, rfl⟩⟩

/-- The file with its stream at another place. -/
def OpenFile.moved (o : OpenFile) (stream : Stdio.Stream) : OpenFile :=
  { stream, file := { o.file with position_ := stream.position } }

theorem moved_isOpen (hopen : o.IsOpen) (stream : Stdio.Stream) : (o.moved stream).IsOpen :=
  ⟨hopen.handle, hopen.directory⟩

theorem moved_faithful (hopen : o.IsOpen) (h : o.Faithful) {stream : Stdio.Stream}
    (hcontent : stream.content = o.stream.content) : (o.moved stream).Faithful := by
  refine (faithful_iff (moved_isOpen hopen stream)).mpr ⟨?_, rfl⟩
  change o.file.size_ = stream.content.length
  rw [hcontent]
  exact h.size

theorem moved_eq (hposition : o.file.position_ = o.stream.position) {stream : Stdio.Stream}
    (hplace : stream.position = o.stream.position) : o.moved stream = { o with stream } := by
  simp only [OpenFile.moved, hplace, ← hposition]

theorem read_eq (hopen : o.IsOpen) (hposition : o.file.position_ = o.stream.position) :
    o.read.2 = o.moved o.stream.fgetc.2 := by
  have hmoved := o.stream.fgetc_position
  rcases hgetc : o.stream.fgetc with ⟨c, stream⟩
  rw [hgetc] at hmoved
  cases c with
  | some c =>
    have hnext : stream.position = o.stream.position + 1 := hmoved
    simp [OpenFile.read, hopen.handle, hopen.directory, hgetc, OpenFile.moved, hposition, hnext]
  | none =>
    rw [moved_eq hposition hmoved]
    simp [OpenFile.read, hopen.handle, hopen.directory, hgetc]

theorem readBuffer_eq (hopen : o.IsOpen) (hposition : o.file.position_ = o.stream.position) (size : Nat) :
    (o.readBuffer true size).2 = o.moved (o.stream.fread size).2 := by
  simp [OpenFile.readBuffer, hopen.handle, hopen.directory, OpenFile.moved, hposition]

/-- The byte that a peek puts back leaves the stream where it was. -/
theorem peek_eq (hopen : o.IsOpen) (hposition : o.file.position_ = o.stream.position) (longMax : Int) :
    ∃ stream, o.stream.Moves longMax stream ∧ o.peek.2 = o.moved stream := by
  have hmoves : o.stream.Moves longMax o.stream.fgetc.2 := Stdio.Stream.fread_moves longMax 1
  have hmoved := o.stream.fgetc_position
  rcases hgetc : o.stream.fgetc with ⟨c, stream⟩
  rw [hgetc] at hmoves hmoved
  cases c with
  | some c =>
    have hback : stream.ungetc.position = o.stream.position := Nat.sub_eq_of_eq_add hmoved
    refine ⟨stream.ungetc, ⟨hmoves.mode, hmoves.content, .inl hback⟩, ?_⟩
    rw [moved_eq hposition hback]
    simp [OpenFile.peek, hopen.handle, hopen.directory, hgetc]
  | none =>
    refine ⟨stream, hmoves, ?_⟩
    rw [moved_eq hposition hmoved]
    simp [OpenFile.peek, hopen.handle, hopen.directory, hgetc]

theorem seek_eq (hopen : o.IsOpen) (hposition : o.file.position_ = o.stream.position) (longBits : Nat)
    (pos : UInt32) (mode : Stdio.Whence) :
    (o.seek longBits pos mode).2 =
      o.moved (o.stream.fseek (longMax longBits) (toLong longBits pos) mode).2 := by
  have hcases := o.stream.fseek_cases (longMax longBits) (toLong longBits pos) mode
  rcases hseek : o.stream.fseek (longMax longBits) (toLong longBits pos) mode with ⟨sought, stream⟩
  rw [hseek] at hcases
  obtain ⟨rfl, hplace⟩ | ⟨rfl, htell⟩ := hcases
  · rw [moved_eq hposition hplace]
    simp [OpenFile.seek, hopen.handle, hopen.directory, hseek]
  · simp only at htell
    have hcurrent : ¬(stream.position : Int) < 0 := by omega
    have htold : (if stream.ftell (longMax longBits) < 0 then 0
        else (stream.ftell (longMax longBits)).toNat) = stream.position := by
      rw [htell, if_neg hcurrent, Int.toNat_natCast]
    simp [OpenFile.seek, hopen.handle, hopen.directory, hseek, htold, OpenFile.moved]

/-- A call that writes nothing moves the stream and `position_` with it. -/
theorem call_moves (hopen : o.IsOpen) (hposition : o.file.position_ = o.stream.position) (longBits : Nat)
    {c : FileCall} (hdata : c.data = none) :
    ∃ stream, o.stream.Moves (longMax longBits) stream ∧ o.call longBits c = o.moved stream := by
  have hstays : o = o.moved o.stream := (moved_eq hposition rfl).symm
  cases c with
  | write buffer room =>
    obtain rfl : buffer = none := Option.map_eq_none_iff.mp hdata
    exact ⟨o.stream, .refl _ _, hstays⟩
  | writeByte value room => cases hdata
  | read => exact ⟨_, Stdio.Stream.fread_moves _ 1, read_eq hopen hposition⟩
  | readBuffer buffer size =>
    cases buffer with
    | true => exact ⟨_, Stdio.Stream.fread_moves _ size, readBuffer_eq hopen hposition size⟩
    | false =>
      refine ⟨o.stream, .refl _ _, Eq.trans ?_ hstays⟩
      simp [OpenFile.call, OpenFile.readBuffer]
  | peek => exact peek_eq hopen hposition _
  | flush =>
    refine ⟨o.stream.fflush, ⟨rfl, rfl, .inl rfl⟩, ?_⟩
    have hplace : o.stream.fflush.position = o.stream.position := rfl
    rw [moved_eq hposition hplace]
    simp [OpenFile.call, OpenFile.flush, hopen.handle]
  | seek pos mode => exact ⟨_, Stdio.Stream.fseek_moves _ _ mode, seek_eq hopen hposition longBits pos mode⟩

theorem call_of_data (o : OpenFile) (longBits : Nat) {c : FileCall} {data : List UInt8} {room : Nat}
    (hdata : c.data = some (data, room)) :
    o.call longBits c = (o.write (some data) room).2 ∧ c.direction = some .output := by
  cases c with
  | write buffer room' =>
    obtain ⟨data', rfl, heq⟩ := Option.map_eq_some_iff.mp hdata
    cases heq
    exact ⟨rfl, rfl⟩
  | writeByte value room' =>
    cases hdata
    exact ⟨rfl, rfl⟩
  | read => cases hdata
  | readBuffer buffer size => cases hdata
  | peek => cases hdata
  | flush => cases hdata
  | seek pos mode => cases hdata

/-- In an open file that tells the truth, the calls after which it still does are those
    in step. -/
theorem call_faithful_iff (hopen : o.IsOpen) (h : o.Faithful) (longBits : Nat) {c : FileCall}
    (hallows : c.direction.all o.stream.allows = true) :
    (o.call longBits c).Faithful ↔ o.InStep c := by
  cases hdata : c.data with
  | none =>
    obtain ⟨stream, hmoves, hcall⟩ := call_moves hopen h.position longBits hdata
    rw [hcall]
    refine ⟨fun _ data room hsome => ?_, fun _ => moved_faithful hopen h hmoves.content⟩
    rw [hdata] at hsome
    cases hsome
  | some write =>
    obtain ⟨data, room⟩ := write
    obtain ⟨hcall, hdirection⟩ := call_of_data o longBits hdata
    rw [hcall, write_faithful_iff hopen h]
    have houtput : o.stream.allows .output = true := by simpa [hdirection] using hallows
    constructor
    · rintro hstep data' room' hsome -
      obtain ⟨rfl, rfl⟩ := Prod.mk.inj (Option.some.inj (hdata.symm.trans hsome))
      exact hstep
    · intro hstep
      exact hstep data room hdata houtput

/-- A call that is not possible is a read or a write that would turn the stream round. -/
theorem inStep_of_disabled {longBits : Nat} {c : FileCall}
    (h : (fileMachine longBits).step o c = none) : o.InStep c := by
  intro data room hdata houtput
  have hdirection := (call_of_data o longBits hdata).2
  have hallows : c.direction.all o.stream.allows = true := by
    rw [hdirection]
    exact houtput
  have hnot := EventMachine.guarded_step_eq_none.mp h
  exact absurd hallows hnot

/-- Opening leaves `position_` at 0, which is where the stream has to be. -/
theorem fopen_faithful_iff (hostPath displayPath : Path) (mode : Stdio.Mode) (appendAtEnd : Bool)
    (existing : List UInt8) :
    (OpenFile.fopen hostPath displayPath mode appendAtEnd existing).Faithful ↔
      (Stdio.Stream.fopen mode appendAtEnd existing).position = 0 := by
  rw [faithful_iff (fopen_isOpen hostPath displayPath mode appendAtEnd existing)]
  constructor
  · rintro ⟨-, hposition⟩
    exact hposition.symm
  · intro hposition
    exact ⟨rfl, hposition.symm⟩

/-- Whatever the mode, the content and the calls, a file tells its size, its position and
    what is available as they are in every state of a run exactly if the stream starts at
    its beginning and every write is in step. -/
theorem file_bookkeeping_iff (longBits : Nat) (hostPath displayPath : Path) (mode : Stdio.Mode)
    (appendAtEnd : Bool) (existing : List UInt8) (calls : List FileCall) :
    (∀ o ∈ (fileMachine longBits).visited
        (.fopen hostPath displayPath mode appendAtEnd existing) calls, o.Faithful) ↔
      (Stdio.Stream.fopen mode appendAtEnd existing).position = 0 ∧
      (fileMachine longBits).Meets OpenFile.InStep
        (.fopen hostPath displayPath mode appendAtEnd existing) calls := by
  have hmeets (hstart : (OpenFile.fopen hostPath displayPath mode appendAtEnd existing).Faithful) :
      (∀ o ∈ (fileMachine longBits).visited
          (.fopen hostPath displayPath mode appendAtEnd existing) calls, o.Faithful) ↔
        (fileMachine longBits).Meets OpenFile.InStep
          (.fopen hostPath displayPath mode appendAtEnd existing) calls := by
    refine EventMachine.visited_iff_meets_of_invariant ?_ ?_ (fun o c _ => inStep_of_disabled)
      (fopen_isOpen hostPath displayPath mode appendAtEnd existing) hstart
    · intro o c o' hopen hstep
      obtain ⟨-, rfl⟩ := EventMachine.guarded_step_eq_some.mp hstep
      exact call_isOpen hopen longBits c
    · intro o c o' hopen hfaithful hstep
      obtain ⟨hallows, rfl⟩ := EventMachine.guarded_step_eq_some.mp hstep
      exact call_faithful_iff hopen hfaithful longBits hallows
  rw [← fopen_faithful_iff hostPath displayPath]
  constructor
  · intro hall
    have hstart := hall _ (EventMachine.mem_visited_self _ _)
    exact ⟨hstart, (hmeets hstart).mp hall⟩
  · rintro ⟨hstart, hcalls⟩
    exact (hmeets hstart).mpr hcalls

/-- A byte appended to a file of three: the file then has four, and `size` says three. -/
theorem append_not_counted :
    ¬∀ o ∈ (fileMachine 64).visited (.fopen [] [] .aPlus false [1, 2, 3]) [.writeByte 4 1],
      o.Faithful := by
  intro hall
  have hmem : ((OpenFile.fopen [] [] .aPlus false [1, 2, 3]).writeByte 4 1).2 ∈
      (fileMachine 64).visited (.fopen [] [] .aPlus false [1, 2, 3]) [.writeByte 4 1] :=
    EventMachine.mem_visited_iff.mpr ⟨_, List.prefix_refl _, rfl⟩
  have hsize : 3 = 4 := (hall _ hmem).size
  cases hsize

end HostArduino.fs
