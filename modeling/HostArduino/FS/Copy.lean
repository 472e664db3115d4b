import HostArduino.FS.File
import HostArduino.FS.FileSystem
import HostArduino.Lib.Mealy

namespace HostArduino.fs

open Lib

variable {σ : Type}

/-- A `File` with the stream behind its `handle_` and the names that its `dir_` still has to
    give, none of which is empty. -/
structure FileObject extends OpenFile where
  entries : List { name : Name // name ≠ [] }
  deriving DecidableEq

/-- The loop of `openNextFile` over the names that `readdir` gives; an empty one is none. -/
def readEntry : List { name : Name // name ≠ [] } → Name × List { name : Name // name ≠ [] }
  | [] => ([], [])
  | ent :: entries => if isDots ent then readEntry entries else (ent, entries)

namespace FileObject

/-- The constructor with a path. -/
def create (h : Host σ) (hostPath displayPath : Path) (mode : Stdio.Mode) (directory appendAtEnd : Bool)
    (existing : List UInt8) (entries : List { name : Name // name ≠ [] }) : Traced σ Call FileObject := do
  let file ← File.make h hostPath displayPath (some mode.text) directory
  pure { file, stream := .fopen mode appendAtEnd existing, entries }

def openNextFile (h : Host σ) (o : FileObject) (mode : Option (List UInt8)) :
    Traced σ Call (File × FileObject) :=
  if !o.file.directory_ then pure (File.default, o)
  else if !o.file.dir_ then pure (File.default, o)
  else
    let (entry, entries) := readEntry o.entries
    let o := { o with entries }
    if entry = [] then pure (File.default, o)
    else do
      let childHostPath := joinPath o.file.host_path_ entry
      let childDisplayPath := joinPath o.file.display_path_ entry
      let directory ← isDirectoryPath h childHostPath
      let child ← File.make h childHostPath childDisplayPath mode directory
      pure (child, o)

def close (o : FileObject) : FileObject :=
  { o with file := { o.file with handle_ := false, dir_ := false } }

/-- `static_cast<long>(position_)`. -/
def positionToLong (longBits position : Nat) : Int :=
  Int.bmod position (2 ^ longBits)

/-- What both copies end with, `handle` being the other one's. What is found at the path when
    it is opened again is `found`, which is `none` if it cannot be. -/
def reopen (longBits : Nat) (o : FileObject) (handle : Bool) (found : Option (List UInt8)) : FileObject :=
  if !o.file.directory_ && handle then
    match found with
    | none => o
    | some content =>
      let stream := Stdio.Stream.fopen .r false content
      { o with
        file := { o.file with handle_ := true }
        stream := (stream.fseek (longMax longBits) (positionToLong longBits o.file.position_) .set).2 }
  else o

/-- `File(const File &)`. -/
def copyConstruct (longBits : Nat) (other : FileObject) (found : Option (List UInt8)) : FileObject :=
  let file := { other.file with handle_ := false, dir_ := false }
  reopen longBits { other with file } other.file.handle_ found

/-- `operator=(const File &)` where it is not `other` that is assigned to. -/
def copyAssign (longBits : Nat) (target other : FileObject) (found : Option (List UInt8)) : FileObject :=
  let o := target.close
  let file :=
    { o.file with
      host_path_ := other.file.host_path_
      display_path_ := other.file.display_path_
      name_ := other.file.name_
      directory_ := other.file.directory_
      size_ := other.file.size_
      position_ := other.file.position_ }
  reopen longBits { o with file } other.file.handle_ found

end FileObject

/-- A file made from another one by one of the two copies. -/
inductive IsCopy (longBits : Nat) (o : FileObject) (found : Option (List UInt8)) : FileObject → Prop
  | construct : IsCopy longBits o found (.copyConstruct longBits o found)
  | assign (target : FileObject) : IsCopy longBits o found (.copyAssign longBits target o found)

inductive FileOperation where
  | call (c : FileCall)
  | openNextFile (mode : Option (List UInt8))
  deriving DecidableEq, Repr

def FileOperation.direction : FileOperation → Option Stdio.Direction
  | .call c => c.direction
  | .openNextFile _ => none

/-- What an operation returns. -/
inductive FileAnswer where
  | count (n : Nat)
  | byte (c : Option UInt8)
  | data (bytes : List UInt8)
  | nothing
  | moved (sought : Bool)
  | child (file : File)
  deriving DecidableEq, Repr

def OpenFile.answer (longBits : Nat) (o : OpenFile) : FileCall → FileAnswer
  | .write buffer room => .count (o.write buffer room).1
  | .writeByte value room => .count (o.writeByte value room).1
  | .read => .byte o.read.1
  | .readBuffer buffer size => .data (o.readBuffer buffer size).1
  | .peek => .byte o.peek.1
  | .flush => .nothing
  | .seek pos mode => .moved (o.seek longBits pos mode).1

section Operations

variable (h : Host σ) (longBits : Nat)

def operate : Mealy (FileObject × σ) FileOperation FileAnswer
  | (o, s), .call c => (o.answer longBits c, ({ o with toOpenFile := o.call longBits c }, s))
  | (o, s), .openNextFile mode =>
    let result := o.openNextFile h mode s
    (.child result.value.1, (result.value.2, result.state))

/-- The operations on a file, none of which may turn the stream round by itself. -/
def objectMachine : EventMachine (FileObject × σ) FileOperation :=
  .guarded (fun st op => op.direction.all st.1.stream.allows) fun st op => (operate h longBits st op).2

/-- What the file holds that the object has open. -/
def FileObject.content (o : FileObject) : Option (List UInt8) :=
  if o.file.handle_ then some o.stream.content else none

/-- Whatever is done to the one from here on, the other returns the same for it and leaves
    the same in the file. -/
def StandsIn (st copy : FileObject × σ) : Prop :=
  ∀ ops, ((objectMachine h longBits).run st ops).isSome = true →
    ((operate h longBits).feed copy ops).1 = ((operate h longBits).feed st ops).1 ∧
      ((operate h longBits).feed copy ops).2.1.content = ((operate h longBits).feed st ops).2.1.content

end Operations

/-- There is no name left that `openNextFile` would open. -/
def FileObject.UsedUp (o : FileObject) : Prop :=
  o.file.directory_ = true → o.file.dir_ = true → ∀ entry ∈ o.entries, isDots entry.val = true

/-- A file that is open can only be read, is found as it is, and is at a position that a
    `long` holds; a directory has no names left. -/
structure Copyable (longBits : Nat) (o : FileObject) (found : Option (List UInt8)) : Prop where
  file : o.file.handle_ = true →
    o.stream.mode = .r ∧ found = some o.stream.content ∧ (o.file.position_ : Int) ≤ longMax longBits
  directory : o.UsedUp

/-- What the calls can tell of a file: not the directory stream, nor a stream without a
    handle, nor which way the stream went last. -/
def OpenFile.visible (o : OpenFile) : OpenFile :=
  { file := { o.file with dir_ := false }
    stream := if o.file.handle_ then { o.stream with last := none } else .fopen .r false [] }

variable {longBits : Nat}

/-- What a call returns on a file that is not open. -/
def FileCall.refused : FileCall → FileAnswer
  | .write _ _ | .writeByte _ _ => .count 0
  | .read | .peek => .byte none
  | .readBuffer _ _ => .data []
  | .flush => .nothing
  | .seek _ _ => .moved false

theorem call_closed {o : OpenFile} (hclosed : o.file.handle_ = false) (c : FileCall) :
    o.answer longBits c = c.refused ∧ o.call longBits c = o := by
  cases c with
  | write buffer room =>
    cases buffer <;> simp [OpenFile.answer, OpenFile.call, OpenFile.write, FileCall.refused, hclosed]
  | writeByte value room =>
    simp [OpenFile.answer, OpenFile.call, OpenFile.writeByte, OpenFile.write, FileCall.refused, hclosed]
  | read => simp [OpenFile.answer, OpenFile.call, OpenFile.read, FileCall.refused, hclosed]
  | readBuffer buffer size => simp [OpenFile.answer, OpenFile.call, OpenFile.readBuffer, FileCall.refused, hclosed]
  | peek => simp [OpenFile.answer, OpenFile.call, OpenFile.peek, FileCall.refused, hclosed]
  | flush => simp [OpenFile.answer, OpenFile.call, OpenFile.flush, FileCall.refused, hclosed]
  | seek pos mode => simp [OpenFile.answer, OpenFile.call, OpenFile.seek, FileCall.refused, hclosed]

/-- Which way the stream went last changes nothing but that. -/
theorem call_last (o : OpenFile) (c : FileCall) (dir_ : Bool) (last : Option Stdio.Direction) :
    OpenFile.answer longBits { file := { o.file with dir_ }, stream := { o.stream with last } } c =
        o.answer longBits c ∧
      (OpenFile.call longBits { file := { o.file with dir_ }, stream := { o.stream with last } } c).visible =
        (o.call longBits c).visible := by
  obtain ⟨⟨handle_, host_path_, display_path_, name_, directory_, size_, position_, dir_⟩, stream⟩ := o
  cases handle_ with
  | false =>
    rw [(call_closed rfl c).1, (call_closed rfl c).1, (call_closed rfl c).2, (call_closed rfl c).2]
    exact ⟨rfl, rfl⟩
  | true =>
    cases directory_ with
    | true =>
      cases c with
      | write buffer room => cases buffer <;> exact ⟨rfl, rfl⟩
      | readBuffer buffer size => cases buffer <;> exact ⟨rfl, rfl⟩
      | _ => exact ⟨rfl, rfl⟩
    | false =>
      cases c with
      | write buffer room => cases buffer <;> exact ⟨rfl, rfl⟩
      | writeByte value room => exact ⟨rfl, rfl⟩
      | readBuffer buffer size => cases buffer <;> exact ⟨rfl, rfl⟩
      | flush => exact ⟨rfl, rfl⟩
      | read =>
        rcases hgetc : stream.fgetc with ⟨c, stream'⟩
        have hgetc' : Stdio.Stream.fgetc { stream with last } = (c, stream') := hgetc
        cases c <;> simp [OpenFile.answer, OpenFile.call, OpenFile.read, OpenFile.visible, hgetc, hgetc']
      | peek =>
        rcases hgetc : stream.fgetc with ⟨c, stream'⟩
        have hgetc' : Stdio.Stream.fgetc { stream with last } = (c, stream') := hgetc
        cases c <;> simp [OpenFile.answer, OpenFile.call, OpenFile.peek, OpenFile.visible, hgetc, hgetc']
      | seek pos mode =>
        rcases hseek : stream.fseek (longMax longBits) (toLong longBits pos) mode with ⟨sought, stream'⟩
        have hseek' : Stdio.Stream.fseek { stream with last } (longMax longBits) (toLong longBits pos) mode =
            (sought, stream') := hseek
        cases sought <;> simp [OpenFile.answer, OpenFile.call, OpenFile.seek, OpenFile.visible, hseek, hseek']

theorem visible_of_open {o : OpenFile} (hopen : o.file.handle_ = true) :
    o.visible = { file := { o.file with dir_ := false }, stream := { o.stream with last := none } } := by
  rw [OpenFile.visible, if_pos hopen]

theorem visible_of_closed {o : OpenFile} (hclosed : o.file.handle_ = false) :
    o.visible = { file := { o.file with dir_ := false }, stream := .fopen .r false [] } := by
  rw [OpenFile.visible, hclosed, if_neg Bool.false_ne_true]

theorem call_visible (o : OpenFile) (c : FileCall) :
    o.visible.answer longBits c = o.answer longBits c ∧
      (o.visible.call longBits c).visible = (o.call longBits c).visible := by
  cases hhandle : o.file.handle_ with
  | false =>
    have hclosed : o.visible.file.handle_ = false := hhandle
    rw [(call_closed hclosed c).1, (call_closed hhandle c).1, (call_closed hclosed c).2, (call_closed hhandle c).2]
    refine ⟨rfl, ?_⟩
    rw [visible_of_closed hclosed, visible_of_closed hhandle]
  | true =>
    rw [visible_of_open hhandle]
    exact call_last o c false none

/-- Files that look the same take every call alike. -/
theorem call_of_visible {o o' : OpenFile} (hvisible : o.visible = o'.visible) (c : FileCall) :
    o.answer longBits c = o'.answer longBits c ∧ (o.call longBits c).visible = (o'.call longBits c).visible := by
  rw [← (call_visible o c).1, ← (call_visible o c).2, hvisible]
  exact call_visible o' c

theorem content_of_visible {o o' : FileObject} (hvisible : o.visible = o'.visible) : o.content = o'.content := by
  have hcontent (o : FileObject) :
      o.content = if o.visible.file.handle_ then some o.visible.stream.content else none := by
    change (if o.file.handle_ then _ else _) = if o.file.handle_ then _ else _
    split
    · rename_i hopen
      rw [visible_of_open hopen]
    · rfl
  rw [hcontent, hcontent, hvisible]

theorem readEntry_eq_nil_iff (entries : List { name : Name // name ≠ [] }) :
    (readEntry entries).1 = [] ↔ ∀ entry ∈ entries, isDots entry.val = true := by
  induction entries with
  | nil => simp [readEntry]
  | cons ent entries ih =>
    rw [readEntry, List.forall_mem_cons]
    cases hdots : isDots ent.val with
    | true => simpa using ih
    | false => simpa using ent.property

theorem readEntry_rest {entries : List { name : Name // name ≠ [] }} (hnone : (readEntry entries).1 = []) :
    (readEntry entries).2 = [] := by
  induction entries with
  | nil => rfl
  | cons ent entries ih =>
    rw [readEntry] at hnone ⊢
    split at hnone
    · rename_i hdots
      rw [if_pos hdots]
      exact ih hnone
    · exact absurd hnone ent.property

/-- A copy looks like the other one, which has no names left to give. -/
structure Alike (o copy : FileObject) : Prop where
  visible : copy.visible = o.visible
  dir_ : copy.file.dir_ = false
  used_up : o.UsedUp

variable {h : Host σ}

theorem usedUp_of_dir {o : FileObject} (hdir : o.file.dir_ = false) : o.UsedUp := by
  intro _ htrue
  rw [hdir] at htrue
  cases htrue

/-- Without a name left, `openNextFile` returns a closed file. -/
theorem openNextFile_used_up {o : FileObject} (hused : o.UsedUp) (mode : Option (List UInt8)) :
    ∃ entries, (∀ entry ∈ entries, entry ∈ o.entries) ∧
      o.openNextFile h mode = pure (File.default, { o with entries }) := by
  unfold FileObject.openNextFile
  cases hdirectory : o.file.directory_ with
  | false => exact ⟨o.entries, fun _ hmem => hmem, rfl⟩
  | true =>
    cases hdir : o.file.dir_ with
    | false => exact ⟨o.entries, fun _ hmem => hmem, rfl⟩
    | true =>
      have hnone := (readEntry_eq_nil_iff o.entries).mpr (hused hdirectory hdir)
      refine ⟨[], by simp, ?_⟩
      simp only [Bool.not_true, Bool.false_eq_true, if_false]
      rw [if_pos hnone, readEntry_rest hnone]

theorem Alike.call {o copy : FileObject} (h : Alike o copy) (c : FileCall) :
    Alike { o with toOpenFile := o.call longBits c } { copy with toOpenFile := copy.call longBits c } := by
  obtain ⟨⟨_, _, hfile⟩, -⟩ := call_frame o.toOpenFile longBits c
  obtain ⟨⟨_, _, hcopy⟩, -⟩ := call_frame copy.toOpenFile longBits c
  refine ⟨(call_of_visible h.visible c).2, ?_, ?_⟩
  · change (copy.call longBits c).file.dir_ = false
    rw [hcopy]
    exact h.dir_
  · change (o.call longBits c).file.directory_ = true → (o.call longBits c).file.dir_ = true → _
    rw [hfile]
    exact h.used_up

/-- Neither the calls nor `openNextFile` can tell a copy from what it looks like. -/
theorem alike_simulation (h : Host σ) (longBits : Nat) :
    (operate h longBits).Simulation fun st copy => Alike st.1 copy.1 ∧ st.2 = copy.2 := by
  have hopenNext {o copy : FileObject} (halike : Alike o copy) (mode : Option (List UInt8)) :
      ∃ entries entries', (∀ entry ∈ entries, entry ∈ o.entries) ∧
        o.openNextFile h mode = pure (File.default, { o with entries }) ∧
        copy.openNextFile h mode = pure (File.default, { copy with entries := entries' }) := by
    obtain ⟨entries, hsubset, hnext⟩ := openNextFile_used_up (h := h) halike.used_up mode
    obtain ⟨entries', -, hnext'⟩ := openNextFile_used_up (h := h) (usedUp_of_dir halike.dir_) mode
    exact ⟨entries, entries', hsubset, hnext, hnext'⟩
  constructor
  · rintro ⟨o, s⟩ ⟨copy, s'⟩ ⟨halike, rfl⟩ op
    cases op with
    | call c => exact (call_of_visible halike.visible c).1.symm
    | openNextFile mode =>
      obtain ⟨entries, entries', -, hnext, hnext'⟩ := hopenNext halike mode
      simp only [operate, hnext, hnext', Traced.pure_apply]
  · rintro ⟨o, s⟩ ⟨copy, s'⟩ ⟨halike, rfl⟩ op
    cases op with
    | call c => exact ⟨halike.call c, rfl⟩
    | openNextFile mode =>
      obtain ⟨entries, entries', hsubset, hnext, hnext'⟩ := hopenNext halike mode
      simp only [operate, hnext, hnext', Traced.pure_apply]
      refine ⟨⟨halike.visible, halike.dir_, fun hdirectory hdir entry hentry => ?_⟩, trivial⟩
      exact halike.used_up hdirectory hdir entry (hsubset entry hentry)

theorem Alike.standsIn {o copy : FileObject} (halike : Alike o copy) (h : Host σ) (s : σ) :
    StandsIn h longBits (o, s) (copy, s) := by
  intro ops _
  obtain ⟨hanswers, hend, -⟩ := (alike_simulation h longBits).feed (s := (o, s)) (t := (copy, s)) ⟨halike, rfl⟩ ops
  exact ⟨hanswers.symm, content_of_visible hend.visible⟩

section Sound

/-- What holds of an object wherever it has got to: a directory is not open as a file, and
    a file that can only be read is where its position says, which it has read or been sent
    to. -/
structure FileObject.Sound (longBits : Nat) (o : FileObject) : Prop where
  closed : o.file.directory_ = true → o.file.handle_ = false
  position : o.stream.mode = .r → o.file.position_ = o.stream.position
  reached : o.stream.mode = .r →
    o.stream.position ≤ o.stream.content.length ∨ (o.stream.position : Int) ≤ longMax longBits

theorem sound_create (h : Host σ) (longBits : Nat) (hostPath displayPath : Path) (mode : Stdio.Mode)
    (directory appendAtEnd : Bool) (existing : List UInt8) (entries : List { name : Name // name ≠ [] }) (s : σ) :
    (FileObject.create h hostPath displayPath mode directory appendAtEnd existing entries s).value.Sound longBits := by
  have hmade := File.madeFrom_make h hostPath displayPath (some mode.text) directory s
  have hstart (hmode : mode = .r) : (Stdio.Stream.fopen mode appendAtEnd existing).position = 0 := by
    rw [hmode]
    rfl
  refine ⟨hmade.closed, fun hmode => hmade.position.trans (hstart hmode).symm, fun hmode => .inl ?_⟩
  exact (hstart hmode).trans_le (Nat.zero_le _)

theorem FileObject.Sound.isOpen {o : FileObject} (hsound : o.Sound longBits) (hhandle : o.file.handle_ = true) :
    o.IsOpen := by
  refine ⟨hhandle, ?_⟩
  by_contra hdirectory
  rw [hsound.closed (Bool.eq_true_of_not_eq_false hdirectory)] at hhandle
  cases hhandle

/-- A file that can only be read moves with its position, since no write gets through. -/
theorem call_reading (longBits : Nat) {o : OpenFile} (hopen : o.IsOpen) (hreading : o.stream.mode = .r)
    (hposition : o.file.position_ = o.stream.position) (c : FileCall) :
    o.stream.Moves (longMax longBits) (o.call longBits c).stream ∧
      (o.call longBits c).file.position_ = (o.call longBits c).stream.position := by
  cases hdata : c.data with
  | none =>
    obtain ⟨stream, hmoves, hcall⟩ := call_moves hopen hposition longBits hdata
    rw [hcall]
    exact ⟨hmoves, rfl⟩
  | some write =>
    obtain ⟨data, room⟩ := write
    have hnothing : o.stream.accepted data room = 0 := by
      rw [Stdio.Stream.accepted, hreading]
      rfl
    obtain ⟨hcontent, hplace⟩ := Stdio.Stream.fwrite_nothing hnothing
    rw [(call_of_data o longBits hdata).1, write_eq hopen, hnothing]
    exact ⟨⟨o.stream.fwrite_mode data room, hcontent, .inl hplace⟩, hposition.trans hplace.symm⟩

theorem FileObject.Sound.call {o : FileObject} (hsound : o.Sound longBits) (c : FileCall) :
    FileObject.Sound longBits { o with toOpenFile := o.call longBits c } := by
  cases hhandle : o.file.handle_ with
  | false =>
    rw [(call_closed hhandle c).2]
    exact hsound
  | true =>
    obtain ⟨⟨size_, position_, hfile⟩, hmode⟩ := call_frame o.toOpenFile longBits c
    have hreads (hr : (o.call longBits c).stream.mode = .r) :=
      call_reading longBits (hsound.isOpen hhandle) (hmode.symm.trans hr)
        (hsound.position (hmode.symm.trans hr)) c
    refine ⟨?_, fun hr => (hreads hr).2, fun hr => ?_⟩
    · change (o.call longBits c).file.directory_ = true → (o.call longBits c).file.handle_ = false
      rw [hfile]
      exact hsound.closed
    · obtain ⟨-, hcontent, hplace⟩ := (hreads hr).1
      change (o.call longBits c).stream.position ≤ (o.call longBits c).stream.content.length ∨ _
      rw [hcontent]
      obtain hstays | hmoves := hplace
      · change _ ∨ ((o.call longBits c).stream.position : Int) ≤ _
        rw [hstays]
        exact hsound.reached (hmode.symm.trans hr)
      · exact hmoves

theorem openNextFile_toOpenFile (h : Host σ) (o : FileObject) (mode : Option (List UInt8)) (s : σ) :
    (o.openNextFile h mode s).value.2.toOpenFile = o.toOpenFile := by
  unfold FileObject.openNextFile
  split
  · rfl
  · split
    · rfl
    · dsimp only
      split <;> rfl

theorem sound_operate {st : FileObject × σ} (hsound : st.1.Sound longBits) (h : Host σ) (op : FileOperation) :
    (operate h longBits st op).2.1.Sound longBits := by
  obtain ⟨o, s⟩ := st
  cases op with
  | call c => exact hsound.call c
  | openNextFile mode =>
    have hsame : (operate h longBits (o, s) (.openNextFile mode)).2.1.toOpenFile = o.toOpenFile :=
      openNextFile_toOpenFile h o mode s
    constructor
    all_goals
      rw [hsame]
    · exact hsound.closed
    · exact hsound.position
    · exact hsound.reached

end Sound

section Copies

theorem longMax_nonneg (longBits : Nat) : 0 ≤ longMax longBits := by
  have hpow : 0 < (2 : Int) ^ (longBits - 1) := Int.pow_pos (by omega)
  unfold longMax
  omega

theorem positionToLong_eq {position : Nat} (hfits : (position : Int) ≤ longMax longBits) :
    FileObject.positionToLong longBits position = position := by
  have hlower : -(((2 ^ longBits : Nat) : Int) / 2) ≤ position := by
    have hpow : 0 ≤ ((2 ^ longBits : Nat) : Int) / 2 := Int.ediv_nonneg (Int.natCast_nonneg _) (by omega)
    omega
  refine Int.bmod_eq_of_le hlower ?_
  unfold longMax at hfits
  cases longBits with
  | zero =>
    have hzero : (position : Int) ≤ 0 := hfits
    simpa using hzero
  | succ bits =>
    have hhalf : (((2 ^ (bits + 1) : Nat) : Int) + 1) / 2 = 2 ^ bits := by
      have hcast : ((2 ^ (bits + 1) : Nat) : Int) = 2 ^ bits * 2 := by
        rw [Nat.pow_succ]
        exact Int.natCast_mul _ _ |>.trans (by rw [Int.natCast_pow]; rfl)
      rw [hcast]
      omega
    rw [hhalf]
    exact Int.lt_of_le_sub_one hfits

variable {o copy : FileObject} {found : Option (List UInt8)}

/-- Both copies open the file again for one that is closed but for that like the other. -/
theorem IsCopy.eq_reopen (hcopy : IsCopy longBits o found copy) :
    ∃ closed : FileObject, closed.file = { o.file with handle_ := false, dir_ := false } ∧
      copy = closed.reopen longBits o.file.handle_ found := by
  cases hcopy with
  | construct => exact ⟨_, rfl, rfl⟩
  | assign target => exact ⟨_, rfl, rfl⟩

theorem IsCopy.dir_ (hcopy : IsCopy longBits o found copy) : copy.file.dir_ = false := by
  obtain ⟨closed, hclosed, rfl⟩ := hcopy.eq_reopen
  have hdir : closed.file.dir_ = false := by rw [hclosed]
  unfold FileObject.reopen
  split
  · split <;> exact hdir
  · exact hdir

/-- What is not open is not opened for the copy either. -/
theorem IsCopy.of_closed (hcopy : IsCopy longBits o found copy) (hhandle : o.file.handle_ = false) :
    copy.visible = o.visible := by
  obtain ⟨closed, hclosed, rfl⟩ := hcopy.eq_reopen
  have hnot : ¬(!closed.file.directory_ && o.file.handle_) = true := by
    rw [hhandle, Bool.and_false]
    exact Bool.false_ne_true
  have hkept : closed.reopen longBits o.file.handle_ found = closed := if_neg hnot
  have hfile : closed.file.handle_ = false := by rw [hclosed]
  rw [hkept, visible_of_closed hfile, visible_of_closed hhandle, hclosed, ← hhandle]

theorem IsCopy.of_missing (hcopy : IsCopy longBits o none copy) : copy.file.handle_ = false := by
  obtain ⟨closed, hclosed, rfl⟩ := hcopy.eq_reopen
  have hfile : closed.file.handle_ = false := by rw [hclosed]
  unfold FileObject.reopen
  split <;> exact hfile

theorem IsCopy.of_found (hopen : o.IsOpen) {content : List UInt8} (hcopy : IsCopy longBits o (some content) copy) :
    copy.file = { o.file with dir_ := false } ∧
      copy.stream = ((Stdio.Stream.fopen .r false content).fseek (longMax longBits)
        (FileObject.positionToLong longBits o.file.position_) .set).2 := by
  obtain ⟨closed, hclosed, rfl⟩ := hcopy.eq_reopen
  have hreopens : (!closed.file.directory_ && o.file.handle_) = true := by
    rw [hclosed, hopen.handle]
    exact congrArg (fun directory_ => !directory_ && true) hopen.directory
  rw [FileObject.reopen, if_pos hreopens, hclosed, ← hopen.handle]
  exact ⟨rfl, rfl⟩

/-- The copy of a file is put where `position_` says if a `long` holds that, and in no case
    beyond what a `long` holds. -/
theorem IsCopy.position_le (hopen : o.IsOpen) {content : List UInt8} (hcopy : IsCopy longBits o (some content) copy) :
    (copy.stream.position : Int) ≤ longMax longBits := by
  rw [(hcopy.of_found hopen).2]
  have hstart : ((Stdio.Stream.fopen .r false content).position : Int) ≤ longMax longBits := longMax_nonneg longBits
  obtain ⟨-, hstays⟩ | ⟨-, htold⟩ := Stdio.Stream.fseek_cases (s := .fopen .r false content) (longMax longBits)
    (FileObject.positionToLong longBits o.file.position_) .set
  · rw [hstays]
    exact hstart
  · unfold Stdio.Stream.ftell at htold
    split at htold
    · assumption
    · omega

theorem IsCopy.alike (hcopy : IsCopy longBits o found copy) (hsound : o.Sound longBits)
    (hcopyable : Copyable longBits o found) : Alike o copy := by
  refine ⟨?_, hcopy.dir_, hcopyable.directory⟩
  cases hhandle : o.file.handle_ with
  | false => exact hcopy.of_closed hhandle
  | true =>
    obtain ⟨hreading, rfl, hfits⟩ := hcopyable.file hhandle
    obtain ⟨hfile, hstream⟩ := hcopy.of_found (hsound.isOpen hhandle)
    have hcopied : copy.file.handle_ = true := by
      rw [hfile]
      exact hhandle
    have hsought : copy.stream = { o.stream with last := none } := by
      rw [hstream, positionToLong_eq hfits, Stdio.Stream.fseek_set hfits, hsound.position hreading]
      exact congrArg (fun mode => Stdio.Stream.mk mode _ _ none) hreading.symm
    rw [visible_of_open hcopied, visible_of_open hhandle, hfile, hsought]

end Copies

section Differences

variable {h : Host σ} {st copy : FileObject × σ}

theorem StandsIn.answer (hstands : StandsIn h longBits st copy) (op : FileOperation)
    (hadmits : op.direction.all st.1.stream.allows = true) :
    (operate h longBits copy op).1 = (operate h longBits st op).1 := by
  have hstep : (objectMachine h longBits).step st op = some (operate h longBits st op).2 :=
    EventMachine.guarded_step_eq_some.mpr ⟨hadmits, rfl⟩
  have hrun : ((objectMachine h longBits).run st [op]).isSome = true := by
    rw [EventMachine.run, hstep]
    rfl
  exact (List.cons.inj (hstands [op] hrun).1).1

/-- After an operation the one still stands in for the other. -/
theorem StandsIn.next (hstands : StandsIn h longBits st copy) (op : FileOperation)
    (hadmits : op.direction.all st.1.stream.allows = true) :
    StandsIn h longBits (operate h longBits st op).2 (operate h longBits copy op).2 := by
  intro ops hrun
  have hstep : (objectMachine h longBits).step st op = some (operate h longBits st op).2 :=
    EventMachine.guarded_step_eq_some.mpr ⟨hadmits, rfl⟩
  have hrun' : ((objectMachine h longBits).run st (op :: ops)).isSome = true := by
    rw [EventMachine.run, hstep]
    exact hrun
  obtain ⟨hanswers, hcontent⟩ := hstands (op :: ops) hrun'
  exact ⟨(List.cons.inj hanswers).2, hcontent⟩

/-- Where a seek to the beginning leads. -/
def OpenFile.rewound (o : OpenFile) : OpenFile :=
  { file := { o.file with position_ := 0 }, stream := { o.stream with position := 0, last := none } }

theorem seek_start (longBits : Nat) {o : OpenFile} (hopen : o.IsOpen) :
    o.seek longBits 0 .set = (true, o.rewound) := by
  have hzero : toLong longBits 0 = 0 := Int.zero_bmod
  have hsought : o.stream.fseek (longMax longBits) 0 .set = (true, { o.stream with position := 0, last := none }) :=
    Stdio.Stream.fseek_set (longMax_nonneg longBits)
  have htold : Stdio.Stream.ftell { o.stream with position := 0, last := none } (longMax longBits) = 0 :=
    if_pos (longMax_nonneg longBits)
  simp [OpenFile.seek, OpenFile.rewound, hopen.handle, hopen.directory, hzero, hsought, htold]

theorem writeByte_count {o : OpenFile} (hopen : o.IsOpen) (value : UInt8) :
    (o.writeByte value 1).1 = if o.stream.mode.writable then 1 else 0 := by
  simp [OpenFile.writeByte, OpenFile.write, hopen.handle, hopen.directory, Stdio.Stream.fwrite_fst,
    Stdio.Stream.accepted]

theorem readBuffer_data {o : OpenFile} (hopen : o.IsOpen) (hreading : o.stream.mode = .r) (size : Nat) :
    (o.readBuffer true size).1 = (o.stream.content.drop o.stream.position).take size := by
  simp [OpenFile.readBuffer, hopen.handle, hopen.directory, Stdio.Stream.fread, hreading, Stdio.Mode.readable]

variable {o copied : FileObject} {s : σ} {found : Option (List UInt8)}

theorem IsCopy.isOpen (hopen : o.IsOpen) {content : List UInt8} (hcopy : IsCopy longBits o (some content) copied) :
    copied.IsOpen := by
  constructor
  · rw [(hcopy.of_found hopen).1]
    exact hopen.handle
  · rw [(hcopy.of_found hopen).1]
    exact hopen.directory

/-- The copy of a file is there to be read. -/
theorem IsCopy.reads (hopen : o.IsOpen) {content : List UInt8} (hcopy : IsCopy longBits o (some content) copied) :
    copied.stream.mode = .r ∧ copied.stream.content = content := by
  have hmoves := Stdio.Stream.fseek_moves (s := .fopen .r false content) (longMax longBits)
    (FileObject.positionToLong longBits o.file.position_) .set
  rw [(hcopy.of_found hopen).2]
  exact ⟨hmoves.mode, hmoves.content⟩

/-- A copy that stands in for an open file is open too, and stands in for it from the
    beginning. -/
theorem StandsIn.rewound (hstands : StandsIn h longBits (o, s) (copied, s)) (hopen : o.IsOpen)
    (hcopy : IsCopy longBits o found copied) :
    ∃ content, found = some content ∧
      StandsIn h longBits ({ o with toOpenFile := o.rewound }, s)
        ({ copied with toOpenFile := copied.rewound }, s) := by
  have hsought := seek_start longBits hopen
  cases found with
  | none =>
    have hanswer := hstands.answer (.call (.seek 0 .set)) rfl
    have hrefused : (operate h longBits (copied, s) (.call (.seek 0 .set))).1 = .moved false :=
      (call_closed hcopy.of_missing (.seek 0 .set)).1
    have htaken : (operate h longBits (o, s) (.call (.seek 0 .set))).1 = .moved true := by
      exact congrArg (fun result => FileAnswer.moved result.1) hsought
    rw [hrefused, htaken] at hanswer
    cases hanswer
  | some content =>
    have hnext := hstands.next (.call (.seek 0 .set)) rfl
    have hsought' := seek_start longBits (hcopy.isOpen hopen)
    simp only [operate, OpenFile.call, hsought, hsought'] at hnext
    exact ⟨content, rfl, hnext⟩

/-- Only a file that cannot be written is stood in for by one that cannot: a write can be
    tried wherever the stream has just been positioned. -/
theorem StandsIn.reading (hstands : StandsIn h longBits (o, s) (copied, s)) (hopen : o.IsOpen)
    (hopen' : copied.IsOpen) (hpositioned : o.stream.last = none) (hreading' : copied.stream.mode = .r) :
    o.stream.mode = .r := by
  have hanswer := hstands.answer (.call (.writeByte 0 1)) (by
    simp [FileOperation.direction, FileCall.direction, Stdio.Stream.allows, hpositioned])
  have hcount := FileAnswer.count.inj hanswer
  rw [writeByte_count hopen, writeByte_count hopen', hreading'] at hcount
  cases hmode : o.stream.mode with
  | r => rfl
  | _ =>
    rw [hmode] at hcount
    cases hcount

/-- Of two files that can only be read, the one that stands in for the other has the same
    left to read. -/
theorem StandsIn.left_to_read (hstands : StandsIn h longBits (o, s) (copied, s)) (hopen : o.IsOpen)
    (hopen' : copied.IsOpen) (hreading : o.stream.mode = .r) (hreading' : copied.stream.mode = .r) :
    copied.stream.content.drop copied.stream.position = o.stream.content.drop o.stream.position := by
  have hall (o : OpenFile) {size : Nat} (hsize : o.stream.content.length ≤ size) :
      (o.stream.content.drop o.stream.position).take size = o.stream.content.drop o.stream.position := by
    refine List.take_of_length_le ?_
    rw [List.length_drop]
    omega
  have hanswer :=
    hstands.answer (.call (.readBuffer true (max copied.stream.content.length o.stream.content.length))) (by
      simp [FileOperation.direction, FileCall.direction, Stdio.Stream.allows, hreading, Stdio.Mode.update])
  have hdata := FileAnswer.data.inj hanswer
  rwa [readBuffer_data hopen hreading, readBuffer_data hopen' hreading',
    hall o.toOpenFile (Nat.le_max_right _ _), hall copied.toOpenFile (Nat.le_max_left _ _)] at hdata

theorem StandsIn.file (hstands : StandsIn h longBits (o, s) (copied, s)) (hsound : o.Sound longBits)
    (hcopy : IsCopy longBits o found copied) (hhandle : o.file.handle_ = true) :
    o.stream.mode = .r ∧ found = some o.stream.content ∧ (o.file.position_ : Int) ≤ longMax longBits := by
  have hopen := hsound.isOpen hhandle
  obtain ⟨content, rfl, hrewound⟩ := hstands.rewound hopen hcopy
  have hopen' := hcopy.isOpen hopen
  obtain ⟨hreading', hcontent'⟩ := hcopy.reads hopen
  have hstart : o.rewound.IsOpen := ⟨hopen.handle, hopen.directory⟩
  have hstart' : copied.rewound.IsOpen := ⟨hopen'.handle, hopen'.directory⟩
  have hreading : o.stream.mode = .r := hrewound.reading hstart hstart' rfl hreading'
  have hcontent : content = o.stream.content :=
    hcontent'.symm.trans (hrewound.left_to_read hstart hstart' hreading hreading')
  refine ⟨hreading, congrArg some hcontent, ?_⟩
  -- A position that no `long` holds has been read up to, and the copy is in front of it.
  by_contra hbeyond
  have hposition := hsound.position hreading
  have hplace := hcopy.position_le hopen
  have hlength := congrArg List.length (hstands.left_to_read hopen hopen' hreading hreading')
  rw [List.length_drop, List.length_drop, hcontent', hcontent] at hlength
  have hread : o.stream.position ≤ o.stream.content.length :=
    (hsound.reached hreading).resolve_right (hposition ▸ hbeyond)
  omega

theorem joinPath_ne_nil (base : Path) {name : Path} (hname : name ≠ []) : joinPath base name ≠ [] := by
  unfold joinPath
  split
  · exact hname
  · split <;> simp_all

/-- A name that is left makes the path of what is opened next. -/
theorem openNextFile_display_path {o : FileObject} (hdirectory : o.file.directory_ = true) (hdir : o.file.dir_ = true)
    (hleft : (readEntry o.entries).1 ≠ []) (mode : Option (List UInt8)) (s : σ) :
    (o.openNextFile h mode s).value.1.display_path_ ≠ [] := by
  simp only [FileObject.openNextFile, hdirectory, hdir, Bool.not_true, Bool.false_eq_true, if_false,
    if_neg hleft, Traced.bind_apply, Traced.pure_apply, (File.madeFrom_make h _ _ _ _ _).display_path]
  exact joinPath_ne_nil _ hleft

/-- A copy without a directory stream has nothing to open next. -/
theorem openNextFile_copied (hdir : copied.file.dir_ = false) (mode : Option (List UInt8)) (s : σ) :
    (copied.openNextFile h mode s).value.1 = File.default := by
  obtain ⟨entries, -, hnext⟩ := openNextFile_used_up (h := h) (usedUp_of_dir hdir) mode
  rw [hnext]
  rfl

theorem StandsIn.usedUp (hstands : StandsIn h longBits (o, s) (copied, s)) (hcopy : IsCopy longBits o found copied) :
    o.UsedUp := by
  intro hdirectory hdir
  rw [← readEntry_eq_nil_iff]
  by_contra hleft
  have hanswer := FileAnswer.child.inj (hstands.answer (.openNextFile none) rfl)
  refine openNextFile_display_path (h := h) hdirectory hdir hleft none s ?_
  rw [← hanswer, openNextFile_copied hcopy.dir_]
  rfl

/-- At every point of a run, a copy stands in for the file exactly when the file is not open,
    or can only be read, is found at its path as it is and is at a position that a `long`
    holds, and when a directory has no names left to give: a copy is always opened for
    reading, and never has a directory stream. -/
theorem copy_stands_in_iff (h : Host σ) (longBits : Nat) (hostPath displayPath : Path) (mode : Stdio.Mode)
    (directory appendAtEnd : Bool) (existing : List UInt8) (entries : List { name : Name // name ≠ [] }) (s : σ)
    (ops : List FileOperation) :
    let opened := FileObject.create h hostPath displayPath mode directory appendAtEnd existing entries s
    ∀ st ∈ (objectMachine h longBits).visited (opened.value, opened.state) ops, ∀ found copied,
      IsCopy longBits st.1 found copied →
        (StandsIn h longBits st (copied, st.2) ↔ Copyable longBits st.1 found) := by
  intro opened st hst found copied hcopy
  have hsound : st.1.Sound longBits := by
    refine EventMachine.visited_invariant (P := fun st => st.1.Sound longBits) ?_
      (sound_create h longBits hostPath displayPath mode directory appendAtEnd existing entries s) st hst
    intro st op st' hsound hstep
    obtain ⟨-, rfl⟩ := EventMachine.guarded_step_eq_some.mp hstep
    exact sound_operate hsound h op
  constructor
  · intro hstands
    exact ⟨hstands.file hsound hcopy, hstands.usedUp hcopy⟩
  · intro hcopyable
    exact (hcopy.alike hsound hcopyable).standsIn h st.2

/-- A host on which everything can be opened. -/
def openHost : Host Unit where
  executablePath := []
  stat := fun _ _ => none
  mkdir := fun s _ => (.failed, s)
  fopen := fun s _ _ => (true, s)
  opendir := fun _ _ => true
  remove := fun s _ => (false, s)
  rename := fun s _ _ => (false, s)
  rmdir := fun s _ => (false, s)
  mkdir_unchanged := fun _ _ _ => rfl

/-- A file of two bytes of which one has been read. -/
def halfRead : FileObject × Unit :=
  (operate openHost 64 ((FileObject.create openHost [] [] .r false false [65, 66] [] ()).value, ()) (.call .read)).2

theorem copy_stands_in_iff_read :
    halfRead.1.file.position_ = 1 ∧
      StandsIn openHost 64 halfRead (.copyConstruct 64 halfRead.1 (some [65, 66]), halfRead.2) := by
  have hmem : halfRead ∈ (objectMachine openHost 64).visited
      ((FileObject.create openHost [] [] .r false false [65, 66] [] ()).value, ()) [.call .read] :=
    EventMachine.mem_visited_iff.mpr ⟨_, List.prefix_refl _, rfl⟩
  have hfits : ((1 : Nat) : Int) ≤ longMax 64 := by
    unfold longMax
    omega
  refine ⟨rfl, (copy_stands_in_iff openHost 64 [] [] .r false false [65, 66] [] () [.call .read] halfRead hmem _ _
    .construct).mpr ⟨fun _ => ⟨rfl, rfl, hfits⟩, fun hdirectory => ?_⟩⟩
  cases hdirectory

/-- A byte written through the copy of a file that is open for writing is lost. -/
theorem copy_loses_write :
    ∃ st ∈ (objectMachine openHost 64).visited
        ((FileObject.create openHost [] [] .w false false [] [] ()).value, ()) [],
      (operate openHost 64 st (.call (.writeByte 65 1))).1 = .count 1 ∧
        (operate openHost 64 (.copyConstruct 64 st.1 (some []), st.2) (.call (.writeByte 65 1))).1 = .count 0 ∧
        ¬StandsIn openHost 64 st (.copyConstruct 64 st.1 (some []), st.2) := by
  refine ⟨_, EventMachine.mem_visited_self _ _, rfl, rfl, fun hstands => ?_⟩
  have hanswer := hstands.answer (.call (.writeByte 65 1)) rfl
  cases hanswer

end Differences

end HostArduino.fs
