import HostArduino.FS.Absolute
import HostArduino.FS.Copy
import HostArduino.Lib.Tree

namespace HostArduino.fs

open Lib

variable {σ : Type} {ι : Type*}

/-- The host with what is in its files: what a stream finds there, and what it leaves. -/
structure Storage (σ : Type) extends Host σ where
  contents : σ → Path → List UInt8
  fclose : σ → Path → List UInt8 → σ

abbrev Volume :=
  Tree Name (List UInt8)

/-- What a `File` tells of itself when it has been opened. -/
structure Opened where
  kind : Option Kind
  path : Path
  size : Nat
  deriving DecidableEq, Repr

/-- The uses of a file system. A file is opened, used and closed before anything else is done. -/
inductive StoreCall where
  | begin
  | end_
  | use (path : Option Path) (mode : Stdio.Mode) (calls : List FileCall)
  | existsPath (path : Option Path)
  | remove (path : Option Path)
  | rename (pathFrom pathTo : Option Path)
  | mkdir (path : Option Path)
  | rmdir (path : Option Path)
  deriving DecidableEq, Repr

inductive StoreAnswer where
  | done (succeeded : Bool)
  | used (opened : Opened) (answers : List FileAnswer)
  deriving DecidableEq, Repr

/-! ### The code -/

def File.told (file : File) : Opened where
  kind := if file.directory_ then some .directory else if file.handle_ then some .file else none
  path := file.display_path_
  size := file.size_

def useFile (longBits : Nat) : Mealy OpenFile FileCall FileAnswer :=
  fun o c => (o.answer longBits c, o.call longBits c)

section Code

variable (h : Storage σ) (longBits : Nat) (appendAtEnd : Bool)

/-- What is done with an open file, up to what `~File` does. -/
def useOpened (file : File) (mode : Stdio.Mode) (calls : List FileCall) : Traced σ Call StoreAnswer :=
  fun s =>
    let stream := Stdio.Stream.fopen mode appendAtEnd (h.contents s file.host_path_)
    let used := (useFile longBits).feed ⟨file, stream⟩ calls
    let o := used.2
    ⟨.used file.told used.1,
      if o.file.handle_ then h.fclose s o.file.host_path_ o.stream.content else s, []⟩

def FS.use (fs : FS) (path : Option Path) (mode : Stdio.Mode) (calls : List FileCall) :
    Traced σ Call (StoreAnswer × FS) := do
  let opened ← fs.open_ h.toHost path (some mode.text)
  let answer ← useOpened h longBits appendAtEnd opened.1 mode calls
  pure (answer, opened.2)

def FS.finish (result : Traced σ Call (Bool × FS)) : Traced σ Call (StoreAnswer × FS) := do
  let finished ← result
  pure (.done finished.1, finished.2)

def FS.perform (fs : FS) : StoreCall → Traced σ Call (StoreAnswer × FS)
  | .begin => finish (fs.begin h.toHost)
  | .end_ => pure (.done true, fs.end_)
  | .use path mode calls => fs.use h longBits appendAtEnd path mode calls
  | .existsPath path => finish (fs.exists_ h.toHost path)
  | .remove path => finish (fs.remove h.toHost path)
  | .rename pathFrom pathTo => finish (fs.rename h.toHost pathFrom pathTo)
  | .mkdir path => finish (fs.mkdir h.toHost path)
  | .rmdir path => finish (fs.rmdir h.toHost path)

/-- The file systems of a program, which all have the one host below them. -/
def storeMachine [DecidableEq ι] : Mealy ((ι → FS) × σ) (ι × StoreCall) StoreAnswer :=
  fun (fss, s) (i, call) =>
    let result := (fss i).perform h longBits appendAtEnd call s
    (result.value.1, Function.update fss i result.value.2, result.state)

end Code

/-! ### What it is for -/

/-- A file while it is open: its bytes and a place in them. -/
def useStream (longBits : Nat) : Mealy Stdio.Stream FileCall FileAnswer
  | s, .write none _ => (.count 0, s)
  | s, .write (some data) room => (.count (s.fwrite data room).1, (s.fwrite data room).2)
  | s, .writeByte value room => (.count (s.fwrite [value] room).1, (s.fwrite [value] room).2)
  | s, .read => (.byte s.fgetc.1, s.fgetc.2)
  | s, .readBuffer false _ => (.data [], s)
  | s, .readBuffer true size => (.data (s.fread size).1, (s.fread size).2)
  | s, .peek => (.byte s.fgetc.1, if s.fgetc.1.isSome then s.fgetc.2.ungetc else s.fgetc.2)
  | s, .flush => (.nothing, s.fflush)
  | s, .seek pos mode =>
    let sought := s.fseek (longMax longBits) (toLong longBits pos) mode
    (.moved sought.1, sought.2)

namespace Volume

noncomputable section

variable (longBits : Nat) (appendAtEnd : Bool) (v : Volume)

/-- What opening a file does to it: the modes that start with an `r` do not make one. -/
def opened (mode : Stdio.Mode) (key : List Name) : Option Volume :=
  match v.entries key with
  | some (.file content) => v.write key (if mode.truncates then [] else content)
  | some .directory => none
  | none => if mode.truncates || mode.append then v.write key [] else none

def content (key : List Name) : List UInt8 :=
  match v.entries key with
  | some (.file content) => content
  | _ => []

/-- What is returned of a file that did not open, or is a directory. -/
def refused (opened : Opened) (calls : List FileCall) : StoreAnswer :=
  .used opened (calls.map FileCall.refused)

def useFileAt (path : Path) (calls : List FileCall) (mode : Stdio.Mode) (key : List Name) :
    Option Volume → StoreAnswer × Volume
  | none => (refused ⟨none, path, 0⟩ calls, v)
  | some v' =>
    let stream := Stdio.Stream.fopen mode appendAtEnd (v'.content key)
    let used := (useStream longBits).feed stream calls
    (.used ⟨some .file, path, stream.content.length⟩ used.1, (v'.write key used.2.content).getD v')

def useAt (path : Path) (mode : Stdio.Mode) (calls : List FileCall) (key : List Name) : StoreAnswer × Volume :=
  if v.entries key = some .directory then (refused ⟨some .directory, path, 0⟩ calls, v)
  else v.useFileAt longBits appendAtEnd path calls mode key (v.opened mode key)

/-- A file that is to be written has the directories made that it is in. -/
def use (path : Option Path) (mode : Stdio.Mode) (calls : List FileCall) : StoreAnswer × Volume :=
  let key := target path
  if key = [] ∧ path.any (fun path => path.head? ≠ some slash) then (refused ⟨none, [], 0⟩ calls, v)
  else
    let made := if mode.writable then v.mkdirs key.dropLast.inits else (true, v)
    if made.1 then useAt longBits appendAtEnd made.2 (FS.displayPath ([slash].intercalate key)) mode calls key
    else (refused ⟨none, [], 0⟩ calls, made.2)

def attempt (after : Option Volume) : StoreAnswer × Volume :=
  (.done after.isSome, after.getD v)

def renamed (source target : List Name) : StoreAnswer × Volume :=
  let made := v.mkdirs target.dropLast.inits
  if made.1 then attempt made.2 (made.2.rename source target) else (.done false, made.2)

/-- A path that is given up names the volume's own directory, which is there and which
    nothing can be done to. -/
def perform : StoreCall → StoreAnswer × Volume
  | .begin | .end_ => (.done true, v)
  | .use path mode calls => v.use longBits appendAtEnd path mode calls
  | .existsPath path => (.done (v.entries (target path)).isSome, v)
  | .remove path => v.attempt (if target path = [] then none else v.remove (target path))
  | .rename pathFrom pathTo =>
    if target pathFrom = [] ∨ target pathTo = [] then (.done false, v)
    else v.renamed (target pathFrom) (target pathTo)
  | .mkdir path =>
    if target path = [] then (.done false, v)
    else
      let made := v.mkdirs (target path).inits
      (.done made.1, made.2)
  | .rmdir path => v.attempt (if target path = [] then none else v.rmdir (target path))

/-- Volumes that have nothing to do with each other. What has the same name is the same volume. -/
def machine (names : ι → Name) : Mealy (Name → Volume) (ι × StoreCall) StoreAnswer :=
  fun vs (i, call) =>
    let result := (vs (names i)).perform longBits appendAtEnd call
    (result.1, Function.update vs (names i) result.2)

end

end Volume

end HostArduino.fs
