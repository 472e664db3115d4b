import HostArduino.FS.Directories

namespace HostArduino.fs

open Lib

variable {σ : Type}

/-- The path has a `..` component. -/
def Climbs (path : Option Path) : Prop :=
  [dot, dot] ∈ components (path.getD [])

instance (path : Option Path) : Decidable (Climbs path) :=
  inferInstanceAs (Decidable ([dot, dot] ∈ components (path.getD [])))

theorem Climbs.sanitizePath_eq {path : Option Path} (hclimbs : Climbs path) :
    sanitizePath path = [] := by
  rw [fs.sanitizePath_eq]
  exact if_pos hclimbs

def Operation.Climbs : Operation → Prop
  | .openFile path _ | .existsPath path | .remove path | .mkdir path | .rmdir path =>
    fs.Climbs path
  | .rename pathFrom pathTo => fs.Climbs pathFrom ∨ fs.Climbs pathTo

instance : (op : Operation) → Decidable op.Climbs
  | .openFile path _ | .existsPath path | .remove path | .mkdir path | .rmdir path =>
    inferInstanceAs (Decidable (fs.Climbs path))
  | .rename pathFrom pathTo =>
    inferInstanceAs (Decidable (fs.Climbs pathFrom ∨ fs.Climbs pathTo))

/-- A computation that says no, and creates, removes and renames nothing. -/
def Declines (m : Traced σ Call Bool) (s : σ) : Prop :=
  (m s).value = false ∧ Traced.Makes Quiet m s

/-- An operation that fails, and creates, removes and renames nothing. -/
def Operation.Refused (h : Host σ) (fs : FS) (op : Operation) (s : σ) : Prop :=
  (op.run h fs s).value.1 = false ∧ Traced.Makes Quiet (op.run h fs) s

section Mounting

variable {h : Host σ} {fs : FS} {s : σ}

/-- What mounting finds: `present` where it needs no new directory, `failed` where it
    cannot be done. -/
def FS.mountAnswer (h : Host σ) (fs : FS) (s : σ) : MkdirResult :=
  if fs.mounted_ then .present
  else if fs.name_ = [] then .failed
  else survey h s (way (fs.rootPath h))

theorem ensureMounted_surveyed (h : Host σ) (fs : FS) (s : σ) :
    Surveyed (Prod.fst <$> fs.ensureMounted h) s (fs.mountAnswer h s) := by
  rw [FS.ensureMounted, FS.mountAnswer]
  cases fs.mounted_ with
  | true => exact surveyed_pure_true s
  | false =>
    rw [if_neg Bool.false_ne_true, if_neg Bool.false_ne_true, FS.begin]
    by_cases hname : fs.name_ = []
    · rw [if_pos hname, if_pos hname]
      exact surveyed_pure_false s
    · rw [if_neg hname, if_neg hname]
      simpa using makeDirectories_surveyed h s (fs.rootPath h)

theorem fst_onceMounted (act : Traced σ Call Bool) :
    Prod.fst <$> fs.onceMounted h false act =
      (Prod.fst <$> fs.ensureMounted h) >>= fun made => if made then act else pure false := by
  simp only [FS.onceMounted, map_bind, bind_map_left]
  refine congrArg (fs.ensureMounted h >>= ·) (funext fun mounted => ?_)
  cases mounted.1 <;> simp

/-- Declining takes a survey that finds nothing to create, and then either it fails or what
    comes next declines. -/
theorem Surveyed.declines_iff {m next : Traced σ Call Bool} {answer : MkdirResult}
    (hm : Surveyed m s answer) :
    Declines (m >>= fun made => if made then next else pure false) s ↔
      answer ≠ .created ∧ (answer = .present → Declines next s) := by
  cases answer with
  | created =>
    have hloud := hm.changes rfl
    refine ⟨fun hdeclines => absurd (Traced.makes_bind.mp hdeclines.2).1 hloud, ?_⟩
    exact fun hquiet => absurd rfl hquiet.1
  | present =>
    have hsettles : Traced.Settles Quiet m s true := hm.settles (by simp)
    rw [Declines, hsettles.bind_value, hsettles.makes_bind, if_pos rfl]
    exact ⟨fun hdeclines => ⟨nofun, fun _ => hdeclines⟩, fun hnext => hnext.2 rfl⟩
  | failed =>
    have hsettles : Traced.Settles Quiet m s false := hm.settles (by simp)
    rw [Declines, hsettles.bind_value, hsettles.makes_bind, if_neg Bool.false_ne_true]
    exact ⟨fun _ => ⟨nofun, nofun⟩, fun _ => ⟨rfl, Traced.makes_pure _⟩⟩

end Mounting

section Opening

variable {h : Host σ} {fs : FS} {s : σ} {mode : Option (List UInt8)}

/-- What opening the root finds when it makes the directory the root is in. -/
def FS.parentAnswer (h : Host σ) (fs : FS) (s : σ) (mode : Option (List UInt8)) : MkdirResult :=
  if modeWrites mode then survey h s (way (directoryName (fs.rootPath h))) else .present

theorem makeParent_surveyed (h : Host σ) (fs : FS) (s : σ) (mode : Option (List UInt8)) :
    Surveyed (FS.makeParent h (fs.rootPath h) mode) s (fs.parentAnswer h s mode) := by
  rw [FS.makeParent, FS.parentAnswer]
  cases modeWrites mode with
  | true => exact makeDirectories_surveyed h s _
  | false => exact surveyed_pure_true s

/-- Nothing can be opened at the path: it is no directory, and `fopen` fails. -/
def Unopenable (h : Host σ) (s : σ) (path : Path) (mode : Option (List UInt8)) : Prop :=
  (h.stat s path).any Stat.isDirectory = false ∧
    (h.fopen s path (mode.getD FILE_READ)).1 = false

theorem make_directory_toBool (path displayPath : Path) :
    ((File.make h path displayPath mode true >>= fun file => file.toBool h) s).value =
      (h.stat s path).any Stat.isDirectory := rfl

theorem make_file_toBool (path displayPath : Path) :
    ((File.make h path displayPath mode false >>= fun file => file.toBool h) s).value =
      (h.fopen s path (mode.getD FILE_READ)).1 := by
  rw [File.make, if_neg Bool.false_ne_true, Traced.bind_apply, Traced.bind_apply, Host.callFopen,
    Traced.call_apply]
  cases (h.fopen s path (mode.getD FILE_READ)).1 <;> rfl

theorem quiet_make_file {path displayPath : Path}
    (hclosed : (h.fopen s path (mode.getD FILE_READ)).1 = false) :
    Traced.Makes Quiet
      (File.make h path displayPath mode false >>= fun file => file.toBool h) s := by
  rw [File.make, if_neg Bool.false_ne_true, bind_assoc, Traced.makes_bind, Host.callFopen,
    Traced.call_apply, hclosed, Traced.makes_call]
  refine ⟨?_, Traced.makes_pure _⟩
  rw [hclosed]
  rfl

theorem openPath_declines_iff (path displayPath : Path) :
    Declines
        (isDirectoryPath h path >>= fun directory =>
          File.make h path displayPath mode directory >>= fun file => file.toBool h) s ↔
      Unopenable h s path mode := by
  have hstat : Traced.Settles Quiet (isDirectoryPath h path) s
      ((h.stat s path).any Stat.isDirectory) :=
    ⟨rfl, rfl, Traced.makes_bind.mpr ⟨Traced.makes_call.mpr rfl, Traced.makes_pure _⟩⟩
  rw [Declines, hstat.bind_value, hstat.makes_bind, Unopenable]
  cases hdirectory : (h.stat s path).any Stat.isDirectory with
  | true =>
    rw [make_directory_toBool, hdirectory]
    simp
  | false =>
    rw [make_file_toBool]
    exact ⟨fun hdeclines => ⟨rfl, hdeclines.1⟩,
      fun hclosed => ⟨hclosed.2, quiet_make_file hclosed.2⟩⟩

/-- A path that is given up is opened as the root, unless it starts with no slash. -/
theorem openMounted_declines_iff {path : Option Path} (hclean : sanitizePath path = []) :
    Declines (fs.openMounted h path mode >>= fun file => file.toBool h) s ↔
      path.any (fun path => path.head? ≠ some slash) = true ∨
        fs.parentAnswer h s mode ≠ .created ∧
          (fs.parentAnswer h s mode = .present → Unopenable h s (fs.rootPath h) mode) := by
  have hroot : fs.hostPath h [] = fs.rootPath h := if_pos rfl
  simp only [FS.openMounted, hclean, true_and, hroot]
  by_cases hrelative : path.any (fun path => path.head? ≠ some slash) = true
  · rw [if_pos hrelative]
    exact ⟨fun _ => Or.inl hrelative, fun _ => ⟨rfl, Traced.makes_pure _⟩⟩
  · rw [if_neg hrelative, or_iff_right hrelative]
    have hopen : Declines _ s ↔ Unopenable h s (fs.rootPath h) mode :=
      openPath_declines_iff (fs.rootPath h) (FS.displayPath [])
    rw [← hopen, ← (makeParent_surveyed h fs s mode).declines_iff, bind_assoc]
    refine iff_of_eq (congrArg (Declines · s) ?_)
    refine congrArg (FS.makeParent h (fs.rootPath h) mode >>= ·) (funext fun made => ?_)
    cases made with
    | true => simp
    | false => rfl

end Opening

/-- Under what condition on the state before it a mounted operation refuses a path that
    climbs. -/
def Operation.RefusedWhenMounted (h : Host σ) (fs : FS) (s : σ) : Operation → Prop
  | .openFile path mode =>
    path.any (fun path => path.head? ≠ some slash) = true ∨
      fs.parentAnswer h s mode ≠ .created ∧
        (fs.parentAnswer h s mode = .present → Unopenable h s (fs.rootPath h) mode)
  | .existsPath _ => h.stat s (fs.rootPath h) = none
  | .remove _ | .rename _ _ | .mkdir _ | .rmdir _ => True

section Operations

variable {h : Host σ} {fs : FS} {s : σ}

theorem run_openFile (path mode : Option (List UInt8)) :
    (Operation.openFile path mode).run h fs =
      fs.onceMounted h false (fs.openMounted h path mode >>= fun file => file.toBool h) := by
  simp only [Operation.run, FS.open_, FS.onceMounted, bind_assoc]
  refine congrArg (fs.ensureMounted h >>= ·) (funext fun mounted => ?_)
  cases mounted.1 with
  | true => simp
  | false => rfl

theorem pathExists_declines_iff (path : Path) :
    Declines (pathExists h path) s ↔ h.stat s path = none := by
  have hvalue : (pathExists h path s).value = (h.stat s path).isSome := rfl
  have hquiet : Traced.Makes Quiet (pathExists h path) s :=
    Traced.makes_bind.mpr ⟨Traced.makes_call.mpr rfl, Traced.makes_pure _⟩
  rw [Declines, hvalue, and_iff_left hquiet, Option.isSome_eq_false_iff, Option.isNone_iff_eq_none]

/-- Once mounted, a path that climbs is looked up as the root or not at all. -/
theorem exists_act_of_climbs (h : Host σ) (fs : FS) (s : σ) {op : Operation}
    (hclimbs : op.Climbs) :
    ∃ act : Traced σ Call Bool, op.run h fs = fs.onceMounted h false act ∧
      (Declines act s ↔ op.RefusedWhenMounted h fs s) := by
  have hgiveUp : Declines (pure false : Traced σ Call Bool) s ↔ True :=
    iff_true_intro ⟨rfl, Traced.makes_pure _⟩
  cases op with
  | openFile path mode =>
    exact ⟨_, run_openFile path mode, openMounted_declines_iff (Climbs.sanitizePath_eq hclimbs)⟩
  | existsPath path =>
    refine ⟨pathExists h (fs.rootPath h), ?_, pathExists_declines_iff _⟩
    have hroot : fs.hostPath h [] = fs.rootPath h := if_pos rfl
    rw [Operation.run, FS.exists_, Climbs.sanitizePath_eq hclimbs, hroot]
  | remove path =>
    refine ⟨pure false, ?_, hgiveUp⟩
    simp only [Operation.run, FS.remove, if_pos (Climbs.sanitizePath_eq hclimbs)]
  | rename pathFrom pathTo =>
    refine ⟨pure false, ?_, hgiveUp⟩
    have hclean : sanitizePath pathFrom = [] ∨ sanitizePath pathTo = [] :=
      hclimbs.imp Climbs.sanitizePath_eq Climbs.sanitizePath_eq
    simp only [Operation.run, FS.rename, if_pos hclean]
  | mkdir path =>
    refine ⟨pure false, ?_, hgiveUp⟩
    simp only [Operation.run, FS.mkdir, if_pos (Climbs.sanitizePath_eq hclimbs)]
  | rmdir path =>
    refine ⟨pure false, ?_, hgiveUp⟩
    simp only [Operation.run, FS.rmdir, if_pos (Climbs.sanitizePath_eq hclimbs)]

/-- A path that climbs is refused just where mounting creates nothing, and either mounting
    fails or the root is not what the operation takes the path for. -/
theorem climbing_refused_iff (op : Operation) (hclimbs : op.Climbs) :
    op.Refused h fs s ↔
      fs.mountAnswer h s ≠ .created ∧
        (fs.mountAnswer h s = .present → op.RefusedWhenMounted h fs s) := by
  obtain ⟨act, hrun, hact⟩ := exists_act_of_climbs h fs s hclimbs
  rw [← hact, ← (ensureMounted_surveyed h fs s).declines_iff, ← fst_onceMounted, ← hrun, Declines,
    Traced.map_apply, Traced.makes_map]
  rfl

end Operations

/-- A host on which the program is `/b/p` and there is a directory `/b/d` beside it; nothing
    else can be opened, and nothing can be changed. -/
def hostWithRoot : Host Unit where
  executablePath := [slash, 98, slash, 112]
  stat := fun _ path =>
    if path ∈ [[slash, 98], [slash, 98, slash, 100]] then some ⟨true, 4096⟩ else none
  mkdir := fun s path =>
    (if path ∈ [[slash, 98], [slash, 98, slash, 100]] then .present else .failed, s)
  fopen := fun s _ _ => (false, s)
  opendir := fun _ _ => true
  remove := fun s _ => (false, s)
  rename := fun s _ _ => (false, s)
  rmdir := fun s _ => (false, s)
  mkdir_unchanged := fun _ _ _ => rfl

theorem climbing_refused_iff_remove :
    (Operation.remove (some [dot, dot])).Refused hostWithRoot ⟨[100], true⟩ () :=
  (climbing_refused_iff (.remove (some [dot, dot])) (by decide)).mpr
    ⟨by decide, fun _ => trivial⟩

/-- Where the root is there, a path that climbs exists, and opens with a slash before it. -/
theorem climbing_accepted :
    (Operation.existsPath (some [dot, dot])).Climbs ∧
      ((Operation.existsPath (some [dot, dot])).run hostWithRoot ⟨[100], true⟩ ()).value.1 =
        true ∧
      (Operation.openFile (some [slash, dot, dot]) none).Climbs ∧
      ((Operation.openFile (some [slash, dot, dot]) none).run hostWithRoot
        ⟨[100], true⟩ ()).value.1 = true := by
  have hup : sanitizePath (some [dot, dot]) = [] := Climbs.sanitizePath_eq (by decide)
  have hrooted : sanitizePath (some [slash, dot, dot]) = [] := Climbs.sanitizePath_eq (by decide)
  refine ⟨by decide, ?_, by decide, ?_⟩
  · rw [Operation.run, FS.exists_, hup]
    rfl
  · rw [Operation.run, FS.open_, FS.openMounted, hrooted]
    rfl

end HostArduino.fs
