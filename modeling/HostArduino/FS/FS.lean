import HostArduino.FS.Path
import HostArduino.Lib.Traced

namespace HostArduino.fs

open Lib

/-- How `mkdir` ends: with a directory made, with `EEXIST` or with another error. -/
inductive MkdirResult where
  | created
  | present
  | failed
  deriving DecidableEq, Repr

structure Stat where
  isDirectory : Bool
  size : Nat
  deriving DecidableEq, Repr

/-- What the operating system answers, in each state of its file system. A `mkdir` that
    makes no directory changes nothing, and the program stays where it is. -/
structure Host (σ : Type) where
  executablePath : Path
  stat : σ → Path → Option Stat
  mkdir : σ → Path → MkdirResult × σ
  fopen : σ → Path → List UInt8 → Bool × σ
  opendir : σ → Path → Bool
  remove : σ → Path → Bool × σ
  rename : σ → Path → Path → Bool × σ
  rmdir : σ → Path → Bool × σ
  mkdir_unchanged : ∀ s path, (mkdir s path).1 ≠ .created → (mkdir s path).2 = s

/-- A call to the operating system and how it went. -/
inductive Call where
  | stat (path : Path)
  | mkdir (path : Path) (result : MkdirResult)
  | fopen (path : Path) (mode : List UInt8) (opened : Bool)
  | opendir (path : Path)
  | remove (path : Path) (removed : Bool)
  | rename (pathFrom pathTo : Path) (renamed : Bool)
  | rmdir (path : Path) (removed : Bool)
  deriving DecidableEq, Repr

def FILE_READ : List UInt8 := [114]

/-- The mode has a `w`, an `a` or a `+` in it. -/
def modeWrites (mode : Option (List UInt8)) : Bool :=
  let m := mode.getD FILE_READ
  m.contains 119 || m.contains 97 || m.contains 43

/-- The call created, removed or renamed a file or a directory, or opened a file so that
    it may have been created. -/
def Call.changes : Call → Bool
  | .stat _ | .opendir _ => false
  | .mkdir _ result => result == .created
  | .fopen _ mode opened => opened && modeWrites (some mode)
  | .remove _ removed | .rmdir _ removed => removed
  | .rename _ _ renamed => renamed

variable {σ : Type}

namespace Host

def callStat (h : Host σ) (path : Path) : Traced σ Call (Option Stat) :=
  Traced.call (fun s => (h.stat s path, s)) fun _ => .stat path

def callMkdir (h : Host σ) (path : Path) : Traced σ Call MkdirResult :=
  Traced.call (fun s => h.mkdir s path) (Call.mkdir path)

def callFopen (h : Host σ) (path : Path) (mode : List UInt8) : Traced σ Call Bool :=
  Traced.call (fun s => h.fopen s path mode) (Call.fopen path mode)

def callOpendir (h : Host σ) (path : Path) : Traced σ Call Bool :=
  Traced.call (fun s => (h.opendir s path, s)) fun _ => .opendir path

def callRemove (h : Host σ) (path : Path) : Traced σ Call Bool :=
  Traced.call (fun s => h.remove s path) (Call.remove path)

def callRename (h : Host σ) (pathFrom pathTo : Path) : Traced σ Call Bool :=
  Traced.call (fun s => h.rename s pathFrom pathTo) (Call.rename pathFrom pathTo)

def callRmdir (h : Host σ) (path : Path) : Traced σ Call Bool :=
  Traced.call (fun s => h.rmdir s path) (Call.rmdir path)

end Host

def makeDirectory (h : Host σ) (path : Path) : Traced σ Call Bool :=
  if path = [] then pure false
  else do
    let result ← h.callMkdir path
    pure (result != .failed)

/-- The loop of `makeDirectories` has nothing to make before it has walked over a name. -/
def makeCurrent (h : Host σ) (current : Path) : Traced σ Call Bool :=
  if current = [] then pure true else makeDirectory h current

theorem length_drop_dropWhile_lt (ch : UInt8) (rest : Path) :
    (((ch :: rest).dropWhile isSeparator).drop 1).length < (ch :: rest).length := by
  have hlength := (List.dropWhile_suffix (l := ch :: rest) isSeparator).length_le
  rw [List.length_drop]
  rw [List.length_cons] at hlength ⊢
  omega

/-- The loop of `makeDirectories` over what is left of the path. -/
def makeDirectoriesFrom (h : Host σ) (path : Path) : Path → Path → Traced σ Call Bool
  | [], current => do
    let made ← makeCurrent h current
    if made then makeDirectory h path else pure false
  | ch :: rest, current =>
    if isSeparator ch then do
      let made ← makeCurrent h current
      if made then
        let separators := (ch :: rest).takeWhile isSeparator
        let next := (ch :: rest).dropWhile isSeparator
        if next = [] then makeDirectory h path
        else makeDirectoriesFrom h path (next.drop 1) (current ++ separators ++ next.take 1)
      else pure false
    else makeDirectoriesFrom h path rest (current ++ [ch])
termination_by rest => rest.length
decreasing_by
  · exact length_drop_dropWhile_lt ch rest
  · exact Nat.lt_succ_self rest.length

def makeDirectories (h : Host σ) (path : Path) : Traced σ Call Bool :=
  if path = [] then pure false
  else
    makeDirectoriesFrom h path (path.dropWhile isSeparator) (path.takeWhile isSeparator)

def pathExists (h : Host σ) (path : Path) : Traced σ Call Bool := do
  let st ← h.callStat path
  pure st.isSome

def isDirectoryPath (h : Host σ) (path : Path) : Traced σ Call Bool := do
  let st ← h.callStat path
  pure (st.any Stat.isDirectory)

def fileSize (h : Host σ) (path : Path) : Traced σ Call Nat := do
  let st ← h.callStat path
  pure (st.elim 0 Stat.size)

/-- An open file or directory; `handle_` and `dir_` say whether there is a stream. -/
structure File where
  handle_ : Bool
  host_path_ : Path
  display_path_ : Path
  name_ : Path
  directory_ : Bool
  size_ : Nat
  position_ : Nat
  dir_ : Bool
  deriving DecidableEq, Repr

namespace File

def default : File where
  handle_ := false
  host_path_ := []
  display_path_ := []
  name_ := []
  directory_ := false
  size_ := 0
  position_ := 0
  dir_ := false

def make (h : Host σ) (hostPath displayPath : Path) (mode : Option (List UInt8))
    (directory : Bool) : Traced σ Call File := do
  let file : File :=
    { File.default with
      host_path_ := hostPath
      display_path_ := displayPath
      name_ := baseName displayPath
      directory_ := directory }
  if directory then do
    let dir ← h.callOpendir hostPath
    pure { file with dir_ := dir }
  else do
    let handle ← h.callFopen hostPath (mode.getD FILE_READ)
    if handle then do
      let size ← fileSize h hostPath
      pure { file with handle_ := true, size_ := size }
    else pure file

/-- What the record is like whether or not there was anything to open. -/
structure MadeFrom (hostPath displayPath : Path) (file : File) : Prop where
  host_path : file.host_path_ = hostPath
  display_path : file.display_path_ = displayPath
  position : file.position_ = 0
  closed : file.directory_ = true → file.handle_ = false

theorem madeFrom_make (h : Host σ) (hostPath displayPath : Path) (mode : Option (List UInt8)) (directory : Bool)
    (s : σ) : (make h hostPath displayPath mode directory s).value.MadeFrom hostPath displayPath := by
  have hfile {file : File} (hdirectory : file.directory_ = false) : file.directory_ = true → file.handle_ = false := by
    rw [hdirectory]
    exact fun htrue => absurd htrue Bool.false_ne_true
  rw [make]
  cases directory with
  | true => exact ⟨rfl, rfl, rfl, fun _ => rfl⟩
  | false =>
    rw [if_neg Bool.false_ne_true, Traced.bind_apply]
    cases (h.callFopen hostPath (mode.getD FILE_READ) s).value with
    | false => exact ⟨rfl, rfl, rfl, hfile rfl⟩
    | true => exact ⟨rfl, rfl, rfl, hfile rfl⟩

/-- `operator bool`. -/
def toBool (h : Host σ) (file : File) : Traced σ Call Bool :=
  if file.directory_ then isDirectoryPath h file.host_path_ else pure file.handle_

end File

structure FS where
  name_ : Path
  mounted_ : Bool
  deriving DecidableEq, Repr

namespace FS

def rootPath (h : Host σ) (fs : FS) : Path :=
  let exe := h.executablePath
  let base := if exe = [] then [dot] else directoryName exe
  joinPath base fs.name_

def begin (h : Host σ) (fs : FS) : Traced σ Call (Bool × FS) :=
  if fs.name_ = [] then pure (false, fs)
  else do
    let made ← makeDirectories h (fs.rootPath h)
    pure (made, { fs with mounted_ := made })

def end_ (fs : FS) : FS :=
  { fs with mounted_ := false }

def ensureMounted (h : Host σ) (fs : FS) : Traced σ Call (Bool × FS) :=
  if fs.mounted_ then pure (true, fs) else begin h fs

/-- Only a file that is opened for writing has its directory made. -/
def makeParent (h : Host σ) (hostPath : Path) (mode : Option (List UInt8)) :
    Traced σ Call Bool :=
  if modeWrites mode then makeDirectories h (directoryName hostPath) else pure true

/-- What every operation starts with: it gives up where it cannot mount. -/
def onceMounted {α : Type} (h : Host σ) (fs : FS) (refusal : α) (act : Traced σ Call α) :
    Traced σ Call (α × FS) := do
  let mounted ← ensureMounted h fs
  if mounted.1 then do
    let value ← act
    pure (value, mounted.2)
  else pure (refusal, mounted.2)

/-- The path that `open` and `exists` take: the empty one is the root. -/
def hostPath (h : Host σ) (fs : FS) (clean : Path) : Path :=
  if clean = [] then fs.rootPath h else joinPath (fs.rootPath h) clean

def displayPath (clean : Path) : Path :=
  if clean = [] then [slash] else slash :: clean

/-- What `open` does when mounted. A path that is given up may still name the root. -/
def openMounted (h : Host σ) (fs : FS) (path mode : Option (List UInt8)) :
    Traced σ Call File :=
  let clean := sanitizePath path
  if clean = [] ∧ path.any (fun path => path.head? ≠ some slash) then pure File.default
  else do
    let hostPath := fs.hostPath h clean
    let made ← makeParent h hostPath mode
    if made then do
      let directory ← isDirectoryPath h hostPath
      File.make h hostPath (displayPath clean) mode directory
    else pure File.default

def open_ (h : Host σ) (fs : FS) (path mode : Option (List UInt8)) :
    Traced σ Call (File × FS) :=
  onceMounted h fs File.default (openMounted h fs path mode)

def exists_ (h : Host σ) (fs : FS) (path : Option Path) : Traced σ Call (Bool × FS) :=
  onceMounted h fs false (pathExists h (fs.hostPath h (sanitizePath path)))

def remove (h : Host σ) (fs : FS) (path : Option Path) : Traced σ Call (Bool × FS) :=
  onceMounted h fs false <|
    let clean := sanitizePath path
    if clean = [] then pure false else h.callRemove (joinPath (fs.rootPath h) clean)

def rename (h : Host σ) (fs : FS) (pathFrom pathTo : Option Path) :
    Traced σ Call (Bool × FS) :=
  onceMounted h fs false <|
    let from_ := sanitizePath pathFrom
    let to_ := sanitizePath pathTo
    if from_ = [] ∨ to_ = [] then pure false
    else do
      let toHost := joinPath (fs.rootPath h) to_
      let made ← makeDirectories h (directoryName toHost)
      if made then h.callRename (joinPath (fs.rootPath h) from_) toHost else pure false

def mkdir (h : Host σ) (fs : FS) (path : Option Path) : Traced σ Call (Bool × FS) :=
  onceMounted h fs false <|
    let clean := sanitizePath path
    if clean = [] then pure false else makeDirectories h (joinPath (fs.rootPath h) clean)

def rmdir (h : Host σ) (fs : FS) (path : Option Path) : Traced σ Call (Bool × FS) :=
  onceMounted h fs false <|
    let clean := sanitizePath path
    if clean = [] then pure false else h.callRmdir (joinPath (fs.rootPath h) clean)

end FS

/-- A use of the file system that names a path. -/
inductive Operation where
  | openFile (path mode : Option (List UInt8))
  | existsPath (path : Option Path)
  | remove (path : Option Path)
  | rename (pathFrom pathTo : Option Path)
  | mkdir (path : Option Path)
  | rmdir (path : Option Path)
  deriving DecidableEq, Repr

/-- Runs an operation and says whether it succeeded; a `File` says so itself. -/
def Operation.run (h : Host σ) (fs : FS) : Operation → Traced σ Call (Bool × FS)
  | .openFile path mode => do
    let opened ← fs.open_ h path mode
    let succeeded ← opened.1.toBool h
    pure (succeeded, opened.2)
  | .existsPath path => fs.exists_ h path
  | .remove path => fs.remove h path
  | .rename pathFrom pathTo => fs.rename h pathFrom pathTo
  | .mkdir path => fs.mkdir h path
  | .rmdir path => fs.rmdir h path

end HostArduino.fs
