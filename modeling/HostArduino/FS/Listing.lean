import HostArduino.FS.Absolute
import HostArduino.FS.Copy
import HostArduino.FS.Refusal

namespace HostArduino.fs

open Lib

variable {σ : Type} {h : Host σ}

/-- The names that `readdir` gives from here on are those in the directory now. -/
def FileObject.rewindDirectory (o : FileObject) (entries : List { name : Name // name ≠ [] }) : FileObject :=
  if o.file.dir_ then { o with entries } else o

/-- What can be done with the `File` of a directory. The names are those in the directory
    when it is rewound. -/
inductive DirectoryOperation where
  | operation (op : FileOperation)
  | rewindDirectory (entries : List { name : Name // name ≠ [] })
  | close
  deriving DecidableEq

/-- The operations on a `File` with the two that reach its directory stream. -/
def traverse (h : Host σ) (longBits : Nat) : Mealy (FileObject × σ) DirectoryOperation FileAnswer
  | (o, s), .operation op => operate h longBits (o, s) op
  | (o, s), .rewindDirectory entries => (.nothing, (o.rewindDirectory entries, s))
  | (o, s), .close => (.nothing, (o.close, s))

/-- The names in a directory that are none of its dots. -/
def childNames (entries : List { name : Name // name ≠ [] }) : List Name :=
  (entries.map Subtype.val).filter fun name => !isDots name

/-- Where a name in a directory leads to, on the host and as the sketch is told. -/
def File.childPaths (dir : File) (name : Name) : Path × Path :=
  (joinPath dir.host_path_ name, joinPath dir.display_path_ name)

/-- Where the file is that was opened next, if one was. -/
def FileAnswer.listed : FileAnswer → Option (Path × Path)
  | .child file => if file.display_path_ = [] then none else some (file.host_path_, file.display_path_)
  | _ => none

/-- What a directory is for: the names that are left are given one by one, at the paths
    joined from the directory's, until it is rewound to the names in it then, or closed. -/
def listing (dir : File) : Mealy (Option (List Name)) DirectoryOperation (Option (Path × Path))
  | names, .operation (.openNextFile _) => ((names.bind List.head?).map dir.childPaths, names.map List.tail)
  | names, .operation (.call _) => (none, names)
  | names, .rewindDirectory entries => (none, names.map fun _ => childNames entries)
  | _, .close => (none, none)

def FileOperation.asksNext : FileOperation → Bool
  | .openNextFile _ => true
  | .call _ => false

/-- The loop over the names gives the first that is none of the dots, and leaves those behind it. -/
theorem readEntry_cases (entries : List { name : Name // name ≠ [] }) :
    (childNames entries = [] ∧ (readEntry entries).1 = [] ∧ childNames (readEntry entries).2 = []) ∨
      (readEntry entries).1 ≠ [] ∧
        childNames entries = (readEntry entries).1 :: childNames (readEntry entries).2 := by
  induction entries with
  | nil => exact .inl ⟨rfl, rfl, rfl⟩
  | cons ent entries ih =>
    rw [readEntry]
    cases hdots : isDots ent.val with
    | true =>
      have hskip : childNames (ent :: entries) = childNames entries := by
        simp [childNames, hdots]
      rw [hskip, if_pos rfl]
      exact ih
    | false =>
      refine .inr ⟨ent.property, ?_⟩
      simp [childNames, hdots]

theorem openNextFile_closed {o : FileObject} (hdir : o.file.dir_ = false) (mode : Option (List UInt8)) :
    o.openNextFile h mode = pure (File.default, o) := by
  simp [FileObject.openNextFile, hdir]

/-- What `openNextFile` returns of an open directory is at the paths of the next name. -/
theorem openNextFile_listed {o : FileObject} (hdirectory : o.file.directory_ = true) (hdir : o.file.dir_ = true)
    (mode : Option (List UInt8)) (s : σ) :
    (FileAnswer.child (o.openNextFile h mode s).value.1).listed =
        (childNames o.entries).head?.map o.file.childPaths ∧
      ∃ entries, (o.openNextFile h mode s).value.2 = { o with entries } ∧
        childNames entries = (childNames o.entries).tail := by
  simp only [FileObject.openNextFile, hdirectory, hdir, Bool.not_true, Bool.false_eq_true, if_false]
  obtain ⟨hnone, hentry, hrest⟩ | ⟨hentry, hnames⟩ := readEntry_cases o.entries
  · rw [if_pos hentry, hnone]
    exact ⟨rfl, _, rfl, hrest⟩
  · rw [if_neg hentry, hnames]
    refine ⟨?_, _, rfl, rfl⟩
    have hmade := File.madeFrom_make h (joinPath o.file.host_path_ (readEntry o.entries).1)
      (joinPath o.file.display_path_ (readEntry o.entries).1) mode
    simp only [FileAnswer.listed, Traced.bind_apply, Traced.pure_apply, (hmade _ _).display_path,
      (hmade _ _).host_path, if_neg (joinPath_ne_nil _ hentry)]
    rfl

/-- The directory `dir`, of which these names are left if its stream is open. -/
structure Lists (dir : File) (st : FileObject × σ) (names : Option (List Name)) : Prop where
  closed : st.1.file.handle_ = false
  directory : st.1.file.directory_ = true
  paths : st.1.file.childPaths = dir.childPaths
  names_eq : names = if st.1.file.dir_ then some (childNames st.1.entries) else none

/-- A `File` of a directory lists it. -/
theorem traverse_refines (h : Host σ) (longBits : Nat) (dir : File) :
    ((traverse h longBits).through FileAnswer.listed).Refines (listing dir) (Lists dir) := by
  rintro ⟨o, s⟩ names hlists op
  obtain ⟨hclosed, hdirectory, hpaths, rfl⟩ := hlists
  cases op with
  | operation op =>
    cases op with
    | call c =>
      have hanswer : (o.answer longBits c).listed = none := by
        rw [(call_closed hclosed c).1]
        cases c <;> rfl
      have hsame : (operate h longBits (o, s) (.call c)).2 = (o, s) := by
        simp only [operate, (call_closed hclosed c).2]
      refine ⟨hanswer, ?_⟩
      change Lists dir (operate h longBits (o, s) (.call c)).2 _
      rw [hsame]
      exact ⟨hclosed, hdirectory, hpaths, rfl⟩
    | openNextFile mode =>
      cases hdir : o.file.dir_ with
      | false =>
        refine ⟨?_, ?_⟩
        · change (FileAnswer.child (o.openNextFile h mode s).value.1).listed = _
          rw [openNextFile_closed hdir]
          simp [FileAnswer.listed, File.default, listing, Traced.pure_apply]
        · change Lists dir ((o.openNextFile h mode s).value.2, (o.openNextFile h mode s).state) _
          rw [openNextFile_closed hdir]
          exact ⟨hclosed, hdirectory, hpaths, by simp [hdir, listing, Traced.pure_apply]⟩
      | true =>
        obtain ⟨hlisted, entries, hnext, hrest⟩ := openNextFile_listed (h := h) hdirectory hdir mode s
        refine ⟨?_, ?_⟩
        · refine Eq.trans hlisted ?_
          simp [listing, hpaths]
        · change Lists dir ((o.openNextFile h mode s).value.2, (o.openNextFile h mode s).state) _
          rw [hnext]
          exact ⟨hclosed, hdirectory, hpaths, by simp [hdir, listing, hrest]⟩
  | rewindDirectory entries =>
    refine ⟨rfl, ?_⟩
    change Lists dir (o.rewindDirectory entries, s) _
    unfold FileObject.rewindDirectory
    split
    case isTrue hdir => exact ⟨hclosed, hdirectory, hpaths, by simp [hdir, listing]⟩
    case isFalse hdir => exact ⟨hclosed, hdirectory, hpaths, by simp [hdir, listing]⟩
  | close => exact ⟨rfl, rfl, hdirectory, hpaths, rfl⟩

/-- As long as it is neither rewound nor closed, one name after the other is given. -/
theorem listing_operations (dir : File) (names : List Name) (ops : List FileOperation) :
    ((listing dir).feed (some names) (ops.map .operation)).1.filterMap id =
      (names.map dir.childPaths).take (ops.countP FileOperation.asksNext) := by
  induction ops generalizing names with
  | nil => rfl
  | cons op ops ih =>
    rw [List.map_cons, Mealy.feed_cons]
    cases op with
    | call c =>
      rw [List.countP_cons_of_neg Bool.false_ne_true, ← ih names]
      rfl
    | openNextFile mode =>
      rw [List.countP_cons_of_pos rfl]
      cases names with
      | nil => simpa [listing] using ih []
      | cons name names => simpa [listing] using ih names

/-- What is given are names the directory had when it was opened or rewound. -/
theorem mem_listing {dir : File} {P : Name → Prop} {names : Option (List Name)} {ops : List DirectoryOperation}
    (hnames : ∀ left, names = some left → ∀ name ∈ left, P name)
    (hrewound : ∀ entries, .rewindDirectory entries ∈ ops → ∀ name ∈ childNames entries, P name)
    {child : Path × Path} (hchild : some child ∈ ((listing dir).feed names ops).1) :
    ∃ name, P name ∧ child = dir.childPaths name := by
  induction ops generalizing names with
  | nil => cases hchild
  | cons op ops ih =>
    have hlater : ∀ entries, .rewindDirectory entries ∈ ops → ∀ name ∈ childNames entries, P name :=
      fun entries hmem => hrewound entries (List.mem_cons_of_mem op hmem)
    rw [Mealy.feed_cons] at hchild
    obtain hfirst | hrest := List.mem_cons.mp hchild
    · cases op with
      | operation op =>
        cases op with
        | call c => cases hfirst
        | openNextFile mode =>
          obtain ⟨name, hname, rfl⟩ := Option.map_eq_some_iff.mp hfirst.symm
          obtain ⟨left, rfl, hhead⟩ := Option.bind_eq_some_iff.mp hname
          exact ⟨name, hnames left rfl name (List.mem_of_mem_head? hhead), rfl⟩
      | rewindDirectory entries => cases hfirst
      | close => cases hfirst
    · refine ih ?_ hlater hrest
      intro left hleft
      cases op with
      | operation op =>
        cases op with
        | call c => exact hnames left hleft
        | openNextFile mode =>
          obtain ⟨all, hall, rfl⟩ := Option.map_eq_some_iff.mp hleft
          exact fun name hname => hnames all hall name (List.mem_of_mem_tail hname)
      | rewindDirectory entries =>
        obtain ⟨all, hall, rfl⟩ := Option.map_eq_some_iff.mp hleft
        exact hrewound entries List.mem_cons_self
      | close => cases hleft

theorem joinPath_eq {base name : Path} (hbase : base ≠ []) (hname : name ≠ []) :
    joinPath base name = base ++ (if base.getLast?.any isSeparator then [] else [slash]) ++ name := by
  rw [joinPath, if_neg hbase, if_neg hname]
  split
  · rw [List.append_nil]
  · rfl

theorem joinPath_assoc (front : Path) {middle back : Path} (hmiddle : middle ≠ []) (hback : back ≠ []) :
    joinPath (joinPath front middle) back = joinPath front (joinPath middle back) := by
  by_cases hfront : front = []
  · simp only [joinPath, if_pos hfront]
  · have hlast : (joinPath front middle).getLast? = middle.getLast? := by
      rw [joinPath_eq hfront hmiddle, List.getLast?_append_of_ne_nil _ hmiddle]
    rw [joinPath_eq (joinPath_ne_nil front hmiddle) hback, hlast, joinPath_eq hfront (joinPath_ne_nil middle hback),
      joinPath_eq hfront hmiddle, joinPath_eq hmiddle hback]
    simp only [List.append_assoc]

section Paths

variable {parts : List Name} {name : Name}

/-- A name of a directory without a backslash stays where it is. -/
theorem proper_of_entry (hne : name ≠ []) (hdots : isDots name = false) (hslash : slash ∉ name)
    (hbackslash : backslash ∉ name) : Proper name := by
  refine ⟨hne, fun hdot => ?_, fun hdotdot => ?_, hslash, hbackslash⟩
  · subst hdot
    cases hdots
  · subst hdotdot
    cases hdots

/-- The path of a name in a directory of the file system. -/
theorem joinPath_displayPath (hparts : ∀ part ∈ parts, Proper part) (hname : name ≠ []) :
    joinPath (FS.displayPath ([slash].intercalate parts)) name = absolute (parts ++ [name]) := by
  by_cases hnil : parts = []
  · subst hnil
    rw [show FS.displayPath ([slash].intercalate ([] : List Name)) = [slash] from rfl,
      joinPath_eq (List.cons_ne_nil _ _) hname]
    simp [absolute, isSeparator_slash]
  · have hclean := intercalate_ne_nil (x := slash) (fun part hpart => (hparts part hpart).isPiece) hnil
    rw [FS.displayPath, if_neg hclean, slash_intercalate hnil, joinPath_eq (absolute_ne_nil hnil) hname,
      last_absolute hparts hnil]
    simp [absolute]

theorem displayPath_intercalate (hparts : ∀ part ∈ parts, Proper part) (hne : parts ≠ []) :
    FS.displayPath ([slash].intercalate parts) = absolute parts := by
  rw [FS.displayPath, if_neg (intercalate_ne_nil (fun part hpart => (hparts part hpart).isPiece) hne),
    slash_intercalate hne]

theorem backslash_notMem_absolute (hparts : ∀ part ∈ parts, Proper part) : backslash ∉ absolute parts := by
  intro hmem
  obtain ⟨part, hpart, hin⟩ := List.mem_flatMap.mp hmem
  obtain hslash | hin := List.mem_cons.mp hin
  · exact absurd hslash (by decide)
  · exact (hparts part hpart).backslash_free hin

/-- The path that is told of a name leads back to where the name is if and only if there is no
    backslash in it, which would end a part of it. -/
theorem reopens_iff (fs : FS) (hparts : ∀ part ∈ parts, Proper part) (hne : name ≠ []) (hslash : slash ∉ name)
    (hdots : isDots name = false) :
    (fs.hostPath h (sanitizePath (some (absolute (parts ++ [name])))) =
          joinPath (fs.hostPath h ([slash].intercalate parts)) name ∧
        FS.displayPath (sanitizePath (some (absolute (parts ++ [name])))) = absolute (parts ++ [name])) ↔
      backslash ∉ absolute (parts ++ [name]) := by
  constructor
  · rintro ⟨-, hsame⟩
    rw [← hsame, sanitizePath_target]
    by_cases hnil : target (some (absolute (parts ++ [name]))) = []
    · rw [hnil]
      decide
    · rw [displayPath_intercalate (fun part hpart => proper_of_mem_target hpart) hnil]
      exact backslash_notMem_absolute fun part hpart => proper_of_mem_target hpart
  · intro hfree
    have hname : Proper name := proper_of_entry hne hdots hslash fun hback => hfree (by simp [absolute, hback])
    have hall : ∀ part ∈ parts ++ [name], Proper part := by
      intro part hpart
      obtain hpart | hpart := List.mem_append.mp hpart
      · exact hparts part hpart
      · rwa [List.mem_singleton.mp hpart]
    have hclean : sanitizePath (some (absolute (parts ++ [name]))) = [slash].intercalate (parts ++ [name]) := by
      rw [← slash_intercalate (by simp)]
      exact Sanitary.sanitizePath_eq ⟨_, by simp, rfl, hall⟩
    rw [hclean, displayPath_intercalate hall (by simp)]
    refine ⟨?_, rfl⟩
    have hpiece : ∀ part ∈ parts ++ [name], IsPiece isSeparator part := fun part hpart => (hall part hpart).isPiece
    rw [FS.hostPath, if_neg (intercalate_ne_nil hpiece (by simp)),
      ← joinPath_intercalate (fun part hpart => hpiece part (List.mem_append_left _ hpart)) hne, FS.hostPath]
    split
    · rfl
    · rename_i hclean
      exact (joinPath_assoc _ hclean hne).symm

end Paths

/-- What is made for no directory has no directory stream. -/
theorem make_dir (hostPath displayPath : Path) (mode : Option (List UInt8)) (s : σ) :
    (File.make h hostPath displayPath mode false s).value.dir_ = false := by
  rw [File.make, if_neg Bool.false_ne_true, Traced.bind_apply]
  cases (h.callFopen hostPath (mode.getD FILE_READ) s).value with
  | true => rfl
  | false => rfl

/-- What is known of a directory that `open` has opened. -/
theorem openMounted_directory {fs : FS} {path mode : Option (List UInt8)} {s : σ} {file : File}
    (hopened : (fs.openMounted h path mode s).value = file) (hdir : file.dir_ = true) :
    file.host_path_ = fs.hostPath h (sanitizePath path) ∧
      file.display_path_ = FS.displayPath (sanitizePath path) ∧ file.directory_ = true ∧ file.handle_ = false := by
  subst hopened
  revert hdir
  simp only [FS.openMounted]
  split
  · exact fun hnone => absurd hnone Bool.false_ne_true
  · rw [Traced.bind_apply]
    split
    · rw [Traced.bind_apply]
      generalize (isDirectoryPath h (fs.hostPath h (sanitizePath path)) _).value = directory
      cases directory with
      | true => exact fun _ => ⟨rfl, rfl, rfl, rfl⟩
      | false => exact fun hdir => absurd ((make_dir _ _ _ _).symm.trans hdir) Bool.false_ne_true
    · exact fun hnone => absurd hnone Bool.false_ne_true

/-- What a directory lists. Whatever is done with the `File`, each `openNextFile` gives the
    next of the names that were in the directory when it was opened or last rewound, all of
    them once and then none, and none once it is closed. The path of what it gives leads
    back to it if and only if there is no backslash in it. -/
theorem directory_listed (longBits : Nat) (fs : FS) {path mode : Option (List UInt8)} {opened : σ} {o : FileObject}
    (hopened : (fs.openMounted h path mode opened).value = o.file) (hdir : o.file.dir_ = true)
    (hentries : ∀ entry ∈ o.entries, slash ∉ entry.val) (s : σ) (ops : List DirectoryOperation)
    (hrewound : ∀ entries, .rewindDirectory entries ∈ ops → ∀ entry ∈ entries, slash ∉ entry.val) :
    let answers := ((traverse h longBits).feed (o, s) ops).1.map FileAnswer.listed
    answers = ((listing o.file).feed (some (childNames o.entries)) ops).1 ∧
      (∀ calls : List FileOperation, ops = calls.map .operation →
        answers.filterMap id =
          ((childNames o.entries).map o.file.childPaths).take (calls.countP FileOperation.asksNext)) ∧
      ∀ child, some child ∈ answers →
        ((fs.hostPath h (sanitizePath (some child.2)) = child.1 ∧
          FS.displayPath (sanitizePath (some child.2)) = child.2) ↔ backslash ∉ child.2) := by
  intro answers
  obtain ⟨hhost, hdisplay, hdirectory, hclosed⟩ := openMounted_directory hopened hdir
  have hlists : Lists o.file (o, s) (some (childNames o.entries)) :=
    ⟨hclosed, hdirectory, rfl, by rw [if_pos hdir]⟩
  have hanswers : answers = ((listing o.file).feed (some (childNames o.entries)) ops).1 := by
    have hfeed := ((traverse_refines h longBits o.file).feed hlists ops).1
    rwa [Mealy.feed_through] at hfeed
  refine ⟨hanswers, ?_, fun child hchild => ?_⟩
  · rintro calls rfl
    rw [hanswers]
    exact listing_operations o.file (childNames o.entries) calls
  · rw [hanswers] at hchild
    have hproper (entries : List { name : Name // name ≠ [] }) (hslash : ∀ entry ∈ entries, slash ∉ entry.val)
        (name : Name) (hname : name ∈ childNames entries) : name ≠ [] ∧ slash ∉ name ∧ isDots name = false := by
      obtain ⟨hnamed, hdots⟩ := List.mem_filter.mp hname
      obtain ⟨entry, hentry, rfl⟩ := List.mem_map.mp hnamed
      exact ⟨entry.property, hslash entry hentry, by simpa using hdots⟩
    obtain ⟨name, ⟨hne, hslash, hdots⟩, rfl⟩ :=
      mem_listing (P := fun name => name ≠ [] ∧ slash ∉ name ∧ isDots name = false)
        (fun left hleft => Option.some.inj hleft ▸ hproper o.entries hentries)
        (fun entries hmem => hproper entries (hrewound entries hmem)) hchild
    have hparts : ∀ part ∈ target path, Proper part := fun part hpart => proper_of_mem_target hpart
    have hpath : joinPath o.file.display_path_ name = absolute (target path ++ [name]) := by
      rw [hdisplay, sanitizePath_target, joinPath_displayPath hparts hne]
    simp only [File.childPaths, hpath, hhost, sanitizePath_target path]
    exact reopens_iff fs hparts hne hslash hdots

/-- The directory `/b/d` with the names `.`, `a`, `..` and `b\c` in it. -/
def twoNames : FileObject where
  file := { File.default with
    host_path_ := [slash, 98, slash, 100]
    display_path_ := [slash]
    directory_ := true
    dir_ := true }
  stream := .fopen .r false []
  entries := [⟨[dot], by decide⟩, ⟨[97], by decide⟩, ⟨[dot, dot], by decide⟩, ⟨[98, backslash, 99], by decide⟩]

/-- Read to the end, rewound when a third name has come, and closed. -/
def readTwice : List DirectoryOperation :=
  [.operation (.openNextFile none), .operation (.call .read), .operation (.openNextFile none),
    .operation (.openNextFile none), .rewindDirectory [⟨[101], by decide⟩], .operation (.openNextFile none),
    .close, .operation (.openNextFile none)]

theorem directory_listed_backslash :
    let answers := ((traverse hostWithRoot 64).feed (twoNames, ()) readTwice).1.map FileAnswer.listed
    answers = [some ([slash, 98, slash, 100, slash, 97], [slash, 97]), none,
        some ([slash, 98, slash, 100, slash, 98, backslash, 99], [slash, 98, backslash, 99]), none, none,
        some ([slash, 98, slash, 100, slash, 101], [slash, 101]), none, none] ∧
      ¬(FS.hostPath hostWithRoot ⟨[100], true⟩ (sanitizePath (some [slash, 98, backslash, 99])) =
          [slash, 98, slash, 100, slash, 98, backslash, 99] ∧
        FS.displayPath (sanitizePath (some [slash, 98, backslash, 99])) = [slash, 98, backslash, 99]) := by
  have hroot : sanitizePath (some [slash]) = [] := by
    rw [sanitizePath_eq]
    decide
  have hopened : (FS.openMounted hostWithRoot ⟨[100], true⟩ (some [slash]) none ()).value = twoNames.file := by
    rw [FS.openMounted, hroot]
    rfl
  have hrewound : ∀ entries, .rewindDirectory entries ∈ readTwice → ∀ entry ∈ entries, slash ∉ entry.val := by
    intro entries hmem
    obtain rfl : entries = [⟨[101], by decide⟩] := by simpa [readTwice] using hmem
    decide
  obtain ⟨hlisted, -, hleads⟩ :=
    directory_listed 64 ⟨[100], true⟩ hopened rfl (by decide) () readTwice hrewound
  have hall : ((listing twoNames.file).feed (some (childNames twoNames.entries)) readTwice).1 =
      [some ([slash, 98, slash, 100, slash, 97], [slash, 97]), none,
        some ([slash, 98, slash, 100, slash, 98, backslash, 99], [slash, 98, backslash, 99]), none, none,
        some ([slash, 98, slash, 100, slash, 101], [slash, 101]), none, none] := by decide
  rw [hall] at hlisted
  refine ⟨hlisted, fun hback => ?_⟩
  refine (hleads ([slash, 98, slash, 100, slash, 98, backslash, 99], [slash, 98, backslash, 99]) ?_).mp hback
    (by decide)
  rw [hlisted]
  simp

end HostArduino.fs
