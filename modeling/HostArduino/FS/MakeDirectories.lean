import HostArduino.FS.Directories
import HostArduino.FS.FileSystem

namespace HostArduino.fs

open Lib

/-- A path that ends in no separator. -/
def Plain (path : Path) : Prop :=
  ∀ c ∈ path.getLast?, isSeparator c = false

namespace FileSystem

/-- Everything is there as it was, and what is there besides is a directory at a place
    of `Q`. -/
structure Grows (Q : List Name → Prop) (fs fs' : FileSystem) : Prop where
  cwd : fs'.cwd = fs.cwd
  kept : ∀ key kind, fs.entries key = some kind → fs'.entries key = some kind
  added : ∀ key kind, fs'.entries key = some kind → fs.entries key = some kind ∨ kind = .directory ∧ Q key

variable {Q : List Name → Prop} {fs fs' fs'' : FileSystem}

theorem Grows.refl (Q : List Name → Prop) (fs : FileSystem) : Grows Q fs fs :=
  ⟨rfl, fun _ _ hkey => hkey, fun _ _ hkey => .inl hkey⟩

theorem Grows.trans (hfirst : Grows Q fs fs') (hrest : Grows Q fs' fs'') : Grows Q fs fs'' := by
  refine ⟨hrest.cwd.trans hfirst.cwd, fun key kind hkey => hrest.kept key kind (hfirst.kept key kind hkey), ?_⟩
  intro key kind hkey
  obtain hthere | hadded := hrest.added key kind hkey
  · exact hfirst.added key kind hthere
  · exact .inr hadded

theorem Grows.file (hgrows : Grows Q fs fs') {key : List Name} (hkey : fs'.entries key = some .file) :
    fs.entries key = some .file := by
  obtain hthere | ⟨hkind, -⟩ := hgrows.added key _ hkey
  · exact hthere
  · cases hkind

theorem Grows.place (hgrows : Grows Q fs fs') (path : Path) (ns : List Name) :
    fs'.place path ns = fs.place path ns := by
  rw [FileSystem.place, FileSystem.place, start, start, hgrows.cwd]

theorem grows_insert {dir : List Name} {name : Name} (hdir : fs.entries dir = some .directory)
    (hfree : fs.entries (dir ++ [name]) = none) (hQ : Q (dir ++ [name])) :
    Grows Q fs (fs.insert dir name .directory hdir hfree) := by
  refine ⟨rfl, fun key kind hkey => put_of_some hfree hkey, fun key kind hkey => ?_⟩
  change fs.put dir name .directory key = some kind at hkey
  rw [put] at hkey
  split at hkey
  · rename_i heq
    subst heq
    exact .inr ⟨(Option.some.inj hkey).symm, hQ⟩
  · exact .inl hkey

theorem mkdir_grows (fs : FileSystem) (path : Path)
    (hQ : ∀ dir name, (hostNames path).getLast? = some name → fs.place path (hostNames path) = dir ++ [name] →
      Q (dir ++ [name])) : Grows Q fs (fs.mkdir path).2 := by
  obtain ⟨hfailed, -⟩ | ⟨-, ⟨hpresent, -⟩ | ⟨dir, name, hdir, hfree, hcreated, hplace, hlast, -⟩⟩ :=
    fs.mkdir_cases path
  · rw [hfailed]
    exact Grows.refl Q fs
  · rw [hpresent]
    exact Grows.refl Q fs
  · rw [hcreated]
    exact grows_insert hdir hfree (hQ dir name hlast hplace)

theorem Walks.extend {path : Path} {ns : List Name} (hwalks : fs.Walks path ns.dropLast)
    (hlast : fs.entries (fs.place path ns) = some .directory) : fs.Walks path ns := by
  intro front hfront
  by_cases hwhole : front = ns
  · rwa [hwhole]
  · exact hwalks front (isPrefix_dropLast hfront hwhole)

theorem Walks.grows {path : Path} {ns : List Name} (hgrows : Grows Q fs fs') (hwalks : fs.Walks path ns) :
    fs'.Walks path ns := by
  intro front hfront
  rw [hgrows.place]
  exact hgrows.kept _ _ (hwalks front hfront)

theorem walks_of_mkdir {path : Path} (hresult : (fs.mkdir path).1 ≠ .failed) :
    fs.Walks path (hostNames path).dropLast := by
  obtain ⟨hfailed, -⟩ | ⟨hwalks, -⟩ := fs.mkdir_cases path
  · exact absurd (congrArg Prod.fst hfailed) hresult
  · exact hwalks

/-- Where the names but the last lead to directories `mkdir` does not fail, and then all
    of them do, unless it has found a file. -/
theorem mkdir_of_walks {path : Path} (hwalks : fs.Walks path (hostNames path).dropLast) :
    (fs.mkdir path).1 ≠ .failed ∧
      ((fs.mkdir path).2.Walks path (hostNames path) ∨
        (fs.mkdir path).2 = fs ∧ fs.entries (fs.place path (hostNames path)) = some .file) := by
  obtain ⟨-, hstuck⟩ | ⟨-, ⟨hpresent, hthere⟩ | ⟨dir, name, hdir, hfree, hcreated, hplace, -⟩⟩ :=
    fs.mkdir_cases path
  · exact absurd hwalks hstuck
  · rw [hpresent]
    refine ⟨by simp, ?_⟩
    cases hkind : fs.entries (fs.place path (hostNames path)) with
    | none => exact absurd hkind hthere
    | some kind =>
      cases kind with
      | directory => exact .inl (hwalks.extend hkind)
      | file => exact .inr ⟨rfl, rfl⟩
  · rw [hcreated]
    have hgrows : Grows (fun _ => True) fs (fs.insert dir name .directory hdir hfree) :=
      grows_insert hdir hfree trivial
    refine ⟨by simp, .inl ((hwalks.grows hgrows).extend ?_)⟩
    rw [hgrows.place, hplace]
    exact if_pos rfl

variable (h : Host FileSystem)

theorem makeDirectory_disk (path : Path) (fs : FileSystem) :
    ((makeDirectory (disk h) path fs).value = true ↔ path ≠ [] ∧ (fs.mkdir path).1 ≠ .failed) ∧
      (makeDirectory (disk h) path fs).state = if path = [] then fs else (fs.mkdir path).2 := by
  rw [makeDirectory]
  by_cases hpath : path = []
  · simp [hpath]
  · simp [hpath, Host.callMkdir, disk]

theorem makeEach_append_value (ds es : List Path) (fs : FileSystem) :
    (makeEach (disk h) (ds ++ es) fs).value = true ↔
      (makeEach (disk h) ds fs).value = true ∧
        (makeEach (disk h) es (makeEach (disk h) ds fs).state).value = true := by
  rw [makeEach_append, Traced.bind_apply]
  cases (makeEach (disk h) ds fs).value <;> simp

theorem makeEach_append_state {ds : List Path} {fs : FileSystem}
    (hds : (makeEach (disk h) ds fs).value = true) (es : List Path) :
    (makeEach (disk h) (ds ++ es) fs).state = (makeEach (disk h) es (makeEach (disk h) ds fs).state).state := by
  rw [makeEach_append, Traced.bind_apply, hds]
  rfl

theorem makeEach_grows {paths : List Path} {fs : FileSystem}
    (hQ : ∀ path ∈ paths, ∀ fs' : FileSystem, fs'.cwd = fs.cwd → Grows Q fs' (fs'.mkdir path).2) :
    Grows Q fs (makeEach (disk h) paths fs).state := by
  induction paths generalizing fs with
  | nil => exact Grows.refl Q fs
  | cons path paths ih =>
    have hfirst : Grows Q fs (makeDirectory (disk h) path fs).state := by
      rw [(makeDirectory_disk h path fs).2]
      split
      · exact Grows.refl Q fs
      · exact hQ path List.mem_cons_self fs rfl
    rw [makeEach, Traced.bind_apply]
    refine hfirst.trans ?_
    cases (makeDirectory (disk h) path fs).value with
    | false => exact Grows.refl Q _
    | true => exact ih fun other hother fs' hcwd => hQ other (List.mem_cons_of_mem _ hother) fs' (hcwd.trans hfirst.cwd)

end FileSystem

theorem plain_concat {ch : UInt8} (hch : isSeparator ch = false) (path : Path) : Plain (path ++ [ch]) := by
  intro c hc
  rw [List.getLast?_concat, Option.mem_def, Option.some.injEq] at hc
  rwa [← hc]

theorem plain_of_isDots {name : Name} (hname : isDots name = true) : Plain name := by
  obtain rfl | rfl : name = [dot] ∨ name = [dot] ++ [dot] := by simpa [isDots] using hname
  · exact plain_concat rfl []
  · exact plain_concat rfl [dot]

theorem hostNames_last {path : Path} (hplain : Plain path) {name : Name}
    (hname : (hostNames path).getLast? = some name) : Plain name := by
  obtain rfl | ⟨front, c, rfl⟩ := path.eq_nil_or_concat'
  · simp [hostNames] at hname
  · have hc : isSeparator c = false := hplain c (by simp)
    have hslash : (c == slash) = false := (Bool.or_eq_false_iff.mp hc).1
    rw [hostNames, pieces_concat_neg (p := fun c => c == slash) hslash, List.getLast?_concat, Option.some.injEq] at hname
    intro d hd
    rw [← hname, List.getLast?_concat, Option.mem_def, Option.some.injEq] at hd
    rwa [← hd]

/-- Behind the separators the next name begins. -/
theorem exists_next {rest : Path} (hnext : rest.dropWhile isSeparator ≠ []) :
    ∃ c, isSeparator c = false ∧ (rest.dropWhile isSeparator).take 1 = [c] := by
  obtain ⟨c, more, hmore⟩ := List.exists_cons_of_ne_nil hnext
  exact ⟨c, stops_of_dropWhile_eq_cons hmore, by rw [hmore]; rfl⟩

theorem append_next (current rest : Path) :
    current ++ rest.takeWhile isSeparator ++ (rest.dropWhile isSeparator).take 1 ++
      (rest.dropWhile isSeparator).drop 1 = current ++ rest := by
  rw [List.append_assoc, List.take_append_drop, List.append_assoc, List.takeWhile_append_dropWhile]

/-- The way ends with the path; what comes before it are beginnings of it that end in no
    separator, or the path as well. -/
theorem wayFrom_spec {path rest current : Path} (hpath : current ++ rest = path)
    (hcut : (∀ c ∈ rest.head?, isSeparator c = false) ∨ Plain current) :
    ∃ fronts, wayFrom path rest current = fronts ++ [path] ∧ ∀ p ∈ fronts, p = path ∨ Plain p := by
  fun_induction wayFrom path rest current
  case case1 current =>
    refine ⟨_, rfl, fun p hp => .inl ?_⟩
    split at hp
    · cases hp
    · rw [List.mem_singleton] at hp
      rw [hp, ← hpath, List.append_nil]
  case case2 ch rest current hseparator separators next ih =>
    have hplain : Plain current := by
      obtain hhead | hplain := hcut
      · exact absurd hseparator (by simp [hhead ch rfl])
      · exact hplain
    have hfirst : ∀ p ∈ (if current = [] then [] else [current]), p = path ∨ Plain p := by
      intro p hp
      split at hp
      · cases hp
      · rw [List.mem_singleton] at hp
        exact .inr (hp ▸ hplain)
    by_cases hnext : next = []
    · rw [if_pos hnext]
      exact ⟨_, rfl, hfirst⟩
    · rw [if_neg hnext]
      obtain ⟨c, hc, hfirst'⟩ := exists_next hnext
      have hend : Plain (current ++ separators ++ next.take 1) := by
        rw [hfirst']
        exact plain_concat hc _
      obtain ⟨fronts, hway, hfronts⟩ := ih ((append_next current _).trans hpath) (.inr hend)
      refine ⟨_ ++ fronts, by rw [hway, List.append_assoc], fun p hp => ?_⟩
      obtain hp | hp := List.mem_append.mp hp
      · exact hfirst p hp
      · exact hfronts p hp
  case case3 ch rest current hseparator ih =>
    have hch : isSeparator ch = false := Bool.not_eq_true _ ▸ hseparator
    exact ih (by rw [← hpath, List.append_assoc, List.singleton_append]) (.inr (plain_concat hch current))

theorem way_spec (path : Path) :
    ∃ fronts, way path = fronts ++ [path] ∧ ∀ p ∈ fronts, p = path ∨ Plain p := by
  exact wayFrom_spec List.takeWhile_append_dropWhile (.inl (stops_dropWhile isSeparator path))

namespace FileSystem

/-- The path is a file, and what leads there is a directory or can be made one: no file is
    in the way, and a name that ends in a backslash, of which no directory is made, is there. -/
structure Occupied (fs : FileSystem) (path : Path) : Prop where
  file : fs.entries (fs.place path (hostNames path)) = some .file
  free : ∀ front, front <+: hostNames path → front ≠ hostNames path →
    fs.entries (fs.place path front) ≠ some .file
  there : ∀ front name, front ++ [name] <+: hostNames path → front ++ [name] ≠ hostNames path → ¬Plain name →
    fs.entries (fs.place path (front ++ [name])) = some .directory

/-- Where `makeDirectories` says that it succeeded, the path and all that leads there are
    directories; and whatever there was is there as it was. -/
structure MakesDirectories (h : Host FileSystem) (fs : FileSystem) (path : Path) : Prop where
  directories : (makeDirectories (disk h) path fs).value = true →
    (makeDirectories (disk h) path fs).state.Walks path (hostNames path)
  kept : ∀ key kind, fs.entries key = some kind →
    (makeDirectories (disk h) path fs).state.entries key = some kind

/-- What the loop has made sure of when it has walked to `t`: there are directories on the
    way to the name it is in. -/
def Ready (fs : FileSystem) (path t : Path) : Prop :=
  ∀ front, front <+: closedPieces (· == slash) t → front ≠ hostNames path →
    fs.entries (fs.place path front) = some .directory

/-- And when it has made the directory there. -/
def Made (fs : FileSystem) (path t : Path) : Prop :=
  ∀ front, front <+: hostNames t → front <+: hostNames path → front ≠ hostNames path →
    fs.entries (fs.place path front) = some .directory

section Way

variable {fs fs' : FileSystem} {path t : Path}

theorem Occupied.hostNames_ne_nil (hoccupied : fs.Occupied path) : hostNames path ≠ [] := by
  intro hnil
  have hfile := hoccupied.file
  rw [hnil, place, List.foldl_nil, fs.entries_start] at hfile
  cases hfile

theorem place_of_isPrefix (fs : FileSystem) (ht : t <+: path) (hne : t ≠ []) (ns : List Name) :
    fs.place t ns = fs.place path ns := by
  obtain ⟨more, rfl⟩ := ht
  obtain ⟨c, rest, rfl⟩ := List.exists_cons_of_ne_nil hne
  rfl

theorem Made.ready (hmade : fs.Made path t) (ht : t <+: path) : fs.Ready path t := by
  intro front hfront hproper
  exact hmade front (hfront.trans (closedPieces_isPrefix (List.prefix_refl t)))
    (hfront.trans (closedPieces_isPrefix ht)) hproper

theorem made_nil (fs : FileSystem) (path : Path) : fs.Made path [] := by
  intro front hfront _ _
  rw [hostNames, pieces_nil, List.prefix_nil] at hfront
  subst hfront
  exact fs.entries_start path

theorem Ready.concat {ch : UInt8} (hready : fs.Ready path t) (hch : isSeparator ch = false) :
    fs.Ready path (t ++ [ch]) := by
  have hslash : (ch == slash) = false := (Bool.or_eq_false_iff.mp hch).1
  rwa [Ready, closedPieces_concat_neg (p := fun c => c == slash) hslash]

theorem Made.concat {ch : UInt8} (hgrows : Grows Q fs fs') (hoccupied : fs.Occupied path)
    (hmade : fs'.Made path t) (hch : isSeparator ch = true) : fs'.Made path (t ++ [ch]) := by
  cases hslash : ch == slash with
  | true => rwa [Made, hostNames, pieces_concat_pos (p := fun c => c == slash) hslash]
  | false =>
    intro front hfront hpath hproper
    rw [hostNames, pieces_concat_neg (p := fun c => c == slash) hslash, List.prefix_concat_iff] at hfront
    obtain rfl | hfront := hfront
    · -- A name that a backslash ends.
      rw [hgrows.place]
      refine hgrows.kept _ _ (hoccupied.there _ _ hpath hproper fun hplain => ?_)
      rw [hplain ch (by simp)] at hch
      cases hch
    · exact hmade front (hfront.trans (closedPieces_isPrefix (List.prefix_refl t))) hpath hproper

theorem Made.append (hgrows : Grows Q fs fs') (hoccupied : fs.Occupied path) {separators : Path}
    (hseparators : ∀ c ∈ separators, isSeparator c = true) (hmade : fs'.Made path t) :
    fs'.Made path (t ++ separators) := by
  induction separators generalizing t with
  | nil => rwa [List.append_nil]
  | cons c separators ih =>
    have hfirst := hmade.concat hgrows hoccupied (hseparators c List.mem_cons_self)
    have hrest := ih (fun d hd => hseparators d (List.mem_cons_of_mem c hd)) hfirst
    rwa [List.append_assoc] at hrest

theorem Ready.walks (hoccupied : fs.Occupied path) (ht : t <+: path) (hne : t ≠ []) (hready : fs'.Ready path t) :
    fs'.Walks t (hostNames t).dropLast := by
  intro front hfront
  rw [place_of_isPrefix fs' ht hne]
  refine hready front (hfront.trans (dropLast_pieces_isPrefix _ t)) fun heq => ?_
  have hlength := hfront.length_le
  have hnames := List.length_pos_iff.mpr hoccupied.hostNames_ne_nil
  have hle : (hostNames t).length ≤ (hostNames path).length := length_pieces_le ht
  rw [heq, List.length_dropLast] at hlength
  omega

/-- What makes the loop go on: where it is ready, `mkdir` does not fail, and then the
    directory is there unless it is the path itself. -/
theorem Ready.mkdir (hgrows : Grows Q fs fs') (hoccupied : fs.Occupied path) (ht : t <+: path) (hne : t ≠ [])
    (hready : fs'.Ready path t) : (fs'.mkdir t).1 ≠ .failed ∧ (fs'.mkdir t).2.Made path t := by
  have hplace (ns : List Name) : fs'.place t ns = fs'.place path ns := place_of_isPrefix fs' ht hne ns
  have hwalks := hready.walks hoccupied ht hne
  obtain ⟨hresult, hdone⟩ := mkdir_of_walks hwalks
  refine ⟨hresult, fun front hfront hpath hproper => ?_⟩
  obtain hdone | ⟨hsame, hfile⟩ := hdone
  · rw [← place_of_isPrefix _ ht hne]
    exact hdone front hfront
  · rw [hsame, ← hplace]
    refine hwalks front (isPrefix_dropLast hfront ?_)
    rintro rfl
    rw [hplace, hgrows.place] at hfile
    exact absurd (hgrows.file hfile) (hoccupied.free _ hpath hproper)

variable (h : Host FileSystem)

theorem Ready.makeDirectory_true (hgrows : Grows (fun _ => True) fs fs') (hoccupied : fs.Occupied path)
    (ht : t <+: path) (hne : t ≠ []) (hready : fs'.Ready path t) :
    (makeDirectory (disk h) t fs').value = true ∧ Grows (fun _ => True) fs (makeDirectory (disk h) t fs').state ∧
      (makeDirectory (disk h) t fs').state.Made path t := by
  obtain ⟨hvalue, hstate⟩ := makeDirectory_disk h t fs'
  obtain ⟨hresult, hmade⟩ := hready.mkdir hgrows hoccupied ht hne
  rw [hvalue, hstate, if_neg hne]
  exact ⟨⟨hne, hresult⟩, hgrows.trans (fs'.mkdir_grows t fun _ _ _ _ => trivial), hmade⟩

theorem Ready.makeCurrent_true (hgrows : Grows (fun _ => True) fs fs') (hoccupied : fs.Occupied path)
    (ht : t <+: path) (hready : fs'.Ready path t) {first : Traced.Result FileSystem Call Bool}
    (hfirst : first = makeEach (disk h) (if t = [] then [] else [t]) fs') :
    first.value = true ∧ Grows (fun _ => True) fs first.state ∧ first.state.Made path t := by
  subst hfirst
  by_cases hne : t = []
  · rw [if_pos hne, hne]
    exact ⟨rfl, hgrows, made_nil fs' path⟩
  · rw [if_neg hne, makeEach_singleton]
    exact hready.makeDirectory_true h hgrows hoccupied ht hne

/-- The loop from any point: where it is ready, it comes to its end. -/
theorem Ready.makeEach_true (hgrows : Grows (fun _ => True) fs fs') (hoccupied : fs.Occupied path) (hne : path ≠ [])
    {rest current : Path} (hpath : current ++ rest = path) (hready : fs'.Ready path current) :
    (makeEach (disk h) (wayFrom path rest current) fs').value = true := by
  fun_induction wayFrom path rest current generalizing fs'
  case case1 current =>
    obtain rfl : current = path := by rwa [List.append_nil] at hpath
    obtain ⟨hvalue, hgrown, hmade⟩ := hready.makeCurrent_true h hgrows hoccupied (List.prefix_refl _) rfl
    rw [makeEach_append_value, makeEach_singleton]
    exact ⟨hvalue, ((hmade.ready (List.prefix_refl _)).makeDirectory_true h hgrown hoccupied
      (List.prefix_refl _) hne).1⟩
  case case2 ch rest current hseparator separators next ih =>
    obtain ⟨hvalue, hgrown, hmade⟩ := hready.makeCurrent_true h hgrows hoccupied ⟨_, hpath⟩ rfl
    have hseparators : ∀ c ∈ separators, isSeparator c = true := fun c hc => List.mem_takeWhile_imp hc
    have hbehind := hmade.append hgrown hoccupied hseparators
    rw [makeEach_append_value]
    refine ⟨hvalue, ?_⟩
    by_cases hnext : next = []
    · have hwhole : current ++ separators = path := by
        rw [← hpath, ← List.takeWhile_append_dropWhile (p := isSeparator) (l := ch :: rest)]
        change _ = current ++ (separators ++ next)
        rw [hnext, List.append_nil]
      rw [hwhole] at hbehind
      rw [if_pos hnext, makeEach_singleton]
      exact ((hbehind.ready (List.prefix_refl _)).makeDirectory_true h hgrown hoccupied (List.prefix_refl _) hne).1
    · obtain ⟨c, hc, hfirst⟩ := exists_next hnext
      have hbefore : current ++ separators <+: path := by
        rw [← hpath, ← append_next current (ch :: rest), List.append_assoc]
        exact List.prefix_append _ _
      have hready' := (hbehind.ready hbefore).concat hc
      rw [if_neg hnext]
      exact ih hgrown ((append_next current _).trans hpath) (hfirst ▸ hready')
  case case3 ch rest current hseparator ih =>
    have hch : isSeparator ch = false := Bool.not_eq_true _ ▸ hseparator
    exact ih hgrows (by rw [← hpath, List.append_assoc, List.singleton_append]) (hready.concat hch)

end Way

section Correct

variable (h : Host FileSystem) (fs : FileSystem) (path : Path)

/-- A directory that the loop makes is the path, or its name ends in no separator. -/
theorem mkdir_grows_plain {p : Path} (hp : p = path ∨ Plain p) (fs' : FileSystem) (hcwd : fs'.cwd = fs.cwd) :
    Grows (fun key => key = fs.place path (hostNames path) ∨ ∃ dir name, key = dir ++ [name] ∧ Plain name)
      fs' (fs'.mkdir p).2 := by
  refine fs'.mkdir_grows p fun dir name hlast hplace => ?_
  obtain rfl | hplain := hp
  · rw [← hplace, place, place, start, start, hcwd]
    exact .inl rfl
  · exact .inr ⟨dir, name, rfl, hostNames_last hplain hlast⟩

theorem makeDirectories_grows : Grows (fun _ => True) fs (makeDirectories (disk h) path fs).state := by
  rw [makeDirectories_eq]
  exact makeEach_grows h fun p _ fs' _ => fs'.mkdir_grows p fun _ _ _ _ => trivial

theorem occupied_of_file {fs fs' : FileSystem} {path : Path}
    (hgrows : Grows (fun key => key = fs.place path (hostNames path) ∨ ∃ dir name, key = dir ++ [name] ∧ Plain name)
      fs fs')
    (hwalks : fs'.Walks path (hostNames path).dropLast)
    (hfile : fs'.entries (fs'.place path (hostNames path)) = some .file) : fs.Occupied path := by
  have hproper : ∀ front, front <+: hostNames path → front ≠ hostNames path →
      fs'.entries (fs.place path front) = some .directory := by
    intro front hfront hne
    rw [← hgrows.place]
    exact hwalks front (isPrefix_dropLast hfront hne)
  rw [hgrows.place] at hfile
  refine ⟨hgrows.file hfile, fun front hfront hne hthere => ?_, fun front name hfront hne hname => ?_⟩
  · have hkept := hgrows.kept _ _ hthere
    rw [hproper front hfront hne] at hkept
    cases hkept
  · have hdirectory := hproper _ hfront hne
    obtain hthere | ⟨-, heq | ⟨dir, name', heq, hplain⟩⟩ := hgrows.added _ _ hdirectory
    · exact hthere
    · rw [heq, hfile] at hdirectory
      cases hdirectory
    · have hdots : isDots name = false := by
        by_contra hdots
        exact hname (plain_of_isDots (Bool.not_eq_false _ ▸ hdots))
      rw [fs.place_concat, enter_of_not_dots hdots] at heq
      obtain rfl := List.singleton_inj.mp (List.append_inj' heq rfl).2
      exact absurd hplain hname

/-- How it can succeed without a directory there: the last `mkdir` has found a file. -/
theorem occupied_of_true (hvalue : (makeDirectories (disk h) path fs).value = true)
    (hnot : ¬(makeDirectories (disk h) path fs).state.Walks path (hostNames path)) : fs.Occupied path := by
  obtain ⟨fronts, hway, hfronts⟩ := way_spec path
  have hgrows := makeEach_grows h fun p hp => fs.mkdir_grows_plain path (hfronts p hp)
  rw [makeDirectories_eq, hway] at hvalue hnot
  obtain ⟨hbefore, hlast⟩ := (makeEach_append_value h fronts [path] fs).mp hvalue
  rw [makeEach_append_state h hbefore, makeEach_singleton] at hnot
  rw [makeEach_singleton] at hlast
  obtain ⟨hmade, hstate⟩ := makeDirectory_disk h path (makeEach (disk h) fronts fs).state
  obtain ⟨hne, hresult⟩ := hmade.mp hlast
  have hwalks := walks_of_mkdir hresult
  rw [hstate, if_neg hne] at hnot
  exact occupied_of_file hgrows hwalks ((mkdir_of_walks hwalks).2.resolve_left hnot).2

theorem Occupied.makeDirectories_true {fs : FileSystem} {path : Path} (hoccupied : fs.Occupied path) :
    (makeDirectories (disk h) path fs).value = true := by
  have hne : path ≠ [] := by
    rintro rfl
    exact hoccupied.hostNames_ne_nil pieces_nil
  have hstart : fs.Ready path (path.takeWhile isSeparator) := by
    have hmade := (made_nil fs path).append (Grows.refl (fun _ => True) fs) hoccupied
      (fun c hc => List.mem_takeWhile_imp (l := path) hc)
    exact hmade.ready (List.takeWhile_prefix _)
  rw [makeDirectories_eq]
  exact hstart.makeEach_true h (Grows.refl _ fs) hoccupied hne List.takeWhile_append_dropWhile

theorem Occupied.not_makesDirectories {fs : FileSystem} {path : Path} (hoccupied : fs.Occupied path) :
    ¬MakesDirectories h fs path := by
  intro hmakes
  have hgrows := fs.makeDirectories_grows h path
  have hlast := (hmakes.directories (hoccupied.makeDirectories_true h)).last
  rw [hgrows.place, hgrows.kept _ _ hoccupied.file] at hlast
  cases hlast

/-- What is there is never altered. And a path for which `makeDirectories` says that it
    succeeded is a directory with all that leads there, unless it is a file with nothing
    else in the way. -/
theorem makesDirectories_iff : MakesDirectories h fs path ↔ ¬fs.Occupied path := by
  constructor
  · exact fun hmakes hoccupied => hoccupied.not_makesDirectories h hmakes
  · intro hfree
    refine ⟨fun hvalue => ?_, (fs.makeDirectories_grows h path).kept⟩
    by_contra hnot
    exact hfree (fs.occupied_of_true h path hvalue hnot)

end Correct

/-- A root with nothing in it. -/
def bare : FileSystem where
  entries key := if key = [] then some .directory else none
  cwd := []
  root_directory := rfl
  cwd_directory := rfl
  parent_directory dir name hentry := absurd (if_neg (by simp)) hentry

/-- A host that only makes directories. -/
def mkdirHost : Host FileSystem where
  executablePath := [dot]
  stat _ _ := none
  mkdir := mkdir
  fopen fs _ _ := (false, fs)
  opendir _ _ := false
  remove fs _ := (false, fs)
  rename fs _ _ := (false, fs)
  rmdir fs _ := (false, fs)
  mkdir_unchanged := mkdir_unchanged

/-- In a directory that holds a file `a`, `makeDirectories("a")` succeeds and leaves the file. -/
theorem makeDirectories_takes_file :
    (makeDirectories (disk mkdirHost) [97] (bare.insert [] [97] .file rfl rfl)).value = true ∧
      (makeDirectories (disk mkdirHost) [97] (bare.insert [] [97] .file rfl rfl)).state.entries [[97]] = some .file ∧
      ¬MakesDirectories mkdirHost (bare.insert [] [97] .file rfl rfl) [97] := by
  have hnames : hostNames [97] = [[97]] := IsPiece.pieces_eq ⟨List.cons_ne_nil _ _, by simp [slash]⟩
  have hoccupied : (bare.insert [] [97] .file rfl rfl).Occupied [97] := by
    refine ⟨?_, fun front hfront hproper => ?_, fun front name hfront hproper => ?_⟩
    · rw [hnames]
      rfl
    · have hparents := isPrefix_dropLast hfront hproper
      rw [hnames, List.dropLast_singleton, List.prefix_nil] at hparents
      subst hparents
      simp [place, entries_start]
    · have hlength := (isPrefix_dropLast hfront hproper).length_le
      rw [hnames, List.dropLast_singleton, List.length_append, List.length_singleton, List.length_nil] at hlength
      omega
  have hkept := (bare.insert [] [97] .file rfl rfl).makeDirectories_grows mkdirHost [97]
  exact ⟨hoccupied.makeDirectories_true mkdirHost, hkept.kept _ _ rfl, hoccupied.not_makesDirectories mkdirHost⟩

end FileSystem

end HostArduino.fs
