import HostArduino.FS.FS
import Mathlib.Data.List.Infix

namespace HostArduino.fs

open Lib

inductive Kind where
  | file
  | directory
  deriving DecidableEq, Repr

abbrev Name := List UInt8

/-- The names in a path as the operating system sees them: it knows no separator but the slash. -/
def hostNames (path : Path) : List Name :=
  pieces (· == slash) path

/-- The two names that are in every directory. -/
def isDots (name : Name) : Bool :=
  name == [dot] || name == [dot, dot]

/-- Where a name leads from a directory. -/
def enter (dir : List Name) (name : Name) : List Name :=
  if name = [dot] then dir else if name = [dot, dot] then dir.dropLast else dir ++ [name]

/-- A tree of files and directories, each at its place under the root, and the directory
    in which paths without a leading slash start. -/
structure FileSystem where
  entries : List Name → Option Kind
  cwd : List Name
  root_directory : entries [] = some .directory
  cwd_directory : entries cwd = some .directory
  parent_directory : ∀ dir name, entries (dir ++ [name]) ≠ none → entries dir = some .directory

namespace FileSystem

variable (fs : FileSystem)

def start (path : Path) : List Name :=
  if path.head? = some slash then [] else fs.cwd

/-- Where names lead from the start of a path. -/
def place (path : Path) (ns : List Name) : List Name :=
  ns.foldl enter (fs.start path)

/-- Wherever the names lead on the way there is a directory. -/
def Walks (path : Path) (ns : List Name) : Prop :=
  ∀ front, front <+: ns → fs.entries (fs.place path front) = some .directory

instance (path : Path) (ns : List Name) : Decidable (fs.Walks path ns) :=
  decidable_of_iff (∀ front ∈ ns.inits, fs.entries (fs.place path front) = some .directory)
    (by simp only [List.mem_inits, Walks])

theorem Walks.last {fs : FileSystem} {path : Path} {ns : List Name} (hwalks : fs.Walks path ns) :
    fs.entries (fs.place path ns) = some .directory :=
  hwalks ns (List.prefix_refl ns)

/-- What there is at a place once something has been put into a directory. -/
def put (dir : List Name) (name : Name) (kind : Kind) (key : List Name) : Option Kind :=
  if key = dir ++ [name] then some kind else fs.entries key

section Insert

variable {fs} {dir : List Name} {name : Name}

theorem put_of_some {key : List Name} {kind kind' : Kind} (hfree : fs.entries (dir ++ [name]) = none)
    (hkey : fs.entries key = some kind') : fs.put dir name kind key = some kind' := by
  rw [put, if_neg]
  · exact hkey
  · rintro rfl
    rw [hfree] at hkey
    cases hkey

theorem put_parent (kind : Kind) (hdir : fs.entries dir = some .directory)
    (hfree : fs.entries (dir ++ [name]) = none) (other : List Name) (name' : Name)
    (hentry : fs.put dir name kind (other ++ [name']) ≠ none) :
    fs.put dir name kind other = some .directory := by
  rw [put] at hentry
  split at hentry
  · rename_i heq
    obtain ⟨rfl, -⟩ := List.append_inj' heq rfl
    exact put_of_some hfree hdir
  · exact put_of_some hfree (fs.parent_directory other name' hentry)

end Insert

/-- Puts something that was not there into a directory. -/
def insert (dir : List Name) (name : Name) (kind : Kind) (hdir : fs.entries dir = some .directory)
    (hfree : fs.entries (dir ++ [name]) = none) : FileSystem where
  entries := fs.put dir name kind
  cwd := fs.cwd
  root_directory := put_of_some hfree fs.root_directory
  cwd_directory := put_of_some hfree fs.cwd_directory
  parent_directory := put_parent kind hdir hfree

/-- `mkdir` in a directory: what is there under the name stays, and a directory's own
    two names are always there. -/
def mkdirIn (dir : List Name) (name : Name) (hdir : fs.entries dir = some .directory) :
    MkdirResult × FileSystem :=
  if isDots name then (.present, fs)
  else if hfree : fs.entries (dir ++ [name]) = none then
    (.created, fs.insert dir name .directory hdir hfree)
  else (.present, fs)

/-- `mkdir` of a name under a path, whose own names must lead to directories. -/
def mkdirUnder (path : Path) (parents : List Name) (name : Name) : MkdirResult × FileSystem :=
  if hwalks : fs.Walks path parents then fs.mkdirIn (fs.place path parents) name hwalks.last
  else (.failed, fs)

/-- `mkdir`. A path without names is the root. -/
def mkdir (path : Path) : MkdirResult × FileSystem :=
  match (hostNames path).getLast? with
  | none => (.present, fs)
  | some name => fs.mkdirUnder path (hostNames path).dropLast name

theorem place_concat (path : Path) (ns : List Name) (name : Name) :
    fs.place path (ns ++ [name]) = enter (fs.place path ns) name := by
  rw [place, List.foldl_append, place]
  rfl

theorem entries_start (path : Path) : fs.entries (fs.start path) = some .directory := by
  rw [start]
  split
  · exact fs.root_directory
  · exact fs.cwd_directory

theorem enter_of_not_dots {dir : List Name} {name : Name} (hname : isDots name = false) :
    enter dir name = dir ++ [name] := by
  obtain ⟨hdot, hdots⟩ : name ≠ [dot] ∧ name ≠ [dot, dot] := by simpa [isDots] using hname
  rw [enter, if_neg hdot, if_neg hdots]

theorem entries_dots {dir : List Name} {name : Name} (hdir : fs.entries dir = some .directory)
    (hname : isDots name = true) : fs.entries (enter dir name) = some .directory := by
  obtain rfl | rfl : name = [dot] ∨ name = [dot, dot] := by simpa [isDots] using hname
  · exact hdir
  · obtain rfl | ⟨parent, last, rfl⟩ := dir.eq_nil_or_concat'
    · exact hdir
    · have hparent := fs.parent_directory parent last (by rw [hdir]; exact Option.some_ne_none _)
      have hdots : enter (parent ++ [last]) [dot, dot] = parent := by
        rw [enter, if_neg (by simp), if_pos rfl, List.dropLast_concat]
      rwa [hdots]

theorem mkdirIn_cases (dir : List Name) (name : Name) (hdir : fs.entries dir = some .directory) :
    (fs.mkdirIn dir name hdir = (.present, fs) ∧ fs.entries (enter dir name) ≠ none) ∨
      isDots name = false ∧ ∃ hfree,
        fs.mkdirIn dir name hdir = (.created, fs.insert dir name .directory hdir hfree) := by
  unfold mkdirIn
  cases hname : isDots name with
  | true =>
    refine .inl ⟨if_pos rfl, ?_⟩
    rw [fs.entries_dots hdir hname]
    exact Option.some_ne_none _
  | false =>
    rw [if_neg Bool.false_ne_true]
    by_cases hfree : fs.entries (dir ++ [name]) = none
    · exact .inr ⟨rfl, hfree, dif_pos hfree⟩
    · refine .inl ⟨dif_neg hfree, ?_⟩
      rwa [enter_of_not_dots hname]

/-- What `mkdir` can do: it fails for want of a directory to make one in, finds something
    there, or makes the directory. -/
theorem mkdir_cases (path : Path) :
    (fs.mkdir path = (.failed, fs) ∧ ¬fs.Walks path (hostNames path).dropLast) ∨
      fs.Walks path (hostNames path).dropLast ∧
        ((fs.mkdir path = (.present, fs) ∧ fs.entries (fs.place path (hostNames path)) ≠ none) ∨
          ∃ dir name hdir hfree, fs.mkdir path = (.created, fs.insert dir name .directory hdir hfree) ∧
            fs.place path (hostNames path) = dir ++ [name] ∧ (hostNames path).getLast? = some name ∧
            isDots name = false) := by
  unfold mkdir
  obtain hnil | ⟨parents, name, hnames⟩ := (hostNames path).eq_nil_or_concat'
  · rw [hnil]
    refine .inr ⟨?_, .inl ⟨rfl, ?_⟩⟩
    · intro front hfront
      rw [List.dropLast_nil, List.prefix_nil] at hfront
      subst hfront
      exact fs.entries_start path
    · rw [place, List.foldl_nil, fs.entries_start]
      exact Option.some_ne_none _
  · rw [hnames, List.getLast?_concat, List.dropLast_concat, place_concat]
    simp only [mkdirUnder]
    by_cases hwalks : fs.Walks path parents
    · rw [dif_pos hwalks]
      refine .inr ⟨hwalks, ?_⟩
      obtain hpresent | ⟨hname, hfree, hcreated⟩ := fs.mkdirIn_cases (fs.place path parents) name hwalks.last
      · exact .inl hpresent
      · exact .inr ⟨_, name, hwalks.last, hfree, hcreated, enter_of_not_dots hname, rfl, hname⟩
    · exact .inl ⟨dif_neg hwalks, hwalks⟩

theorem mkdir_unchanged (path : Path) (hresult : (fs.mkdir path).1 ≠ .created) : (fs.mkdir path).2 = fs := by
  obtain ⟨hfailed, -⟩ | ⟨-, ⟨hpresent, -⟩ | ⟨dir, name, hdir, hfree, hcreated, -⟩⟩ :=
    fs.mkdir_cases path
  · rw [hfailed]
  · rw [hpresent]
  · exact absurd (congrArg Prod.fst hcreated) hresult

/-- The host's calls with this `mkdir`. -/
def disk (h : Host FileSystem) : Host FileSystem :=
  { h with
    mkdir := mkdir
    mkdir_unchanged := mkdir_unchanged }

end FileSystem

end HostArduino.fs
