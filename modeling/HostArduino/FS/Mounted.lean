import HostArduino.FS.Volume

namespace HostArduino.fs

open Lib

variable {σ : Type}

/-- A call that is refused and changes nothing, or leaves another tree. -/
structure Storage.Effect (tree : σ → Volume) (s : σ) (succeeded : Bool) (s' : σ) (after : Option Volume) : Prop where
  succeeded : succeeded = after.isSome
  tree : tree s' = after.getD (tree s)

/-- The calls do with absolute paths what POSIX and C say of a tree of files that nothing
    else is done to and that has room for everything. -/
structure Storage.Posix (h : Storage σ) (tree : σ → Volume) : Prop where
  stat_none : ∀ s parts, (∀ part ∈ parts, Proper part) → (tree s).entries parts = none →
    h.stat s (absolute parts) = none
  stat_file : ∀ s parts content, (∀ part ∈ parts, Proper part) →
    (tree s).entries parts = some (.file content) → h.stat s (absolute parts) = some ⟨false, content.length⟩
  stat_directory : ∀ s parts, (∀ part ∈ parts, Proper part) → (tree s).entries parts = some .directory →
    ∃ size, h.stat s (absolute parts) = some ⟨true, size⟩
  mkdir : ∀ s parts, parts ≠ [] → (∀ part ∈ parts, Proper part) →
    Effect tree s ((h.mkdir s (absolute parts)).1 != .failed) (h.mkdir s (absolute parts)).2 ((tree s).mkdir parts)
  fopen : ∀ s parts (mode : Stdio.Mode), (∀ part ∈ parts, Proper part) →
    (tree s).entries parts ≠ some .directory →
    Effect tree s (h.fopen s (absolute parts) mode.text).1 (h.fopen s (absolute parts) mode.text).2
      (Volume.opened (tree s) mode parts)
  contents : ∀ s parts, (∀ part ∈ parts, Proper part) →
    h.contents s (absolute parts) = Volume.content (tree s) parts
  fclose : ∀ s parts content, (∀ part ∈ parts, Proper part) →
    tree (h.fclose s (absolute parts) content) = ((tree s).write parts content).getD (tree s)
  remove : ∀ s parts, (∀ part ∈ parts, Proper part) →
    Effect tree s (h.remove s (absolute parts)).1 (h.remove s (absolute parts)).2 ((tree s).remove parts)
  rename : ∀ s source target, (∀ part ∈ source, Proper part) → (∀ part ∈ target, Proper part) →
    Effect tree s (h.rename s (absolute source) (absolute target)).1 (h.rename s (absolute source) (absolute target)).2
      ((tree s).rename source target)
  rmdir : ∀ s parts, (∀ part ∈ parts, Proper part) →
    Effect tree s (h.rmdir s (absolute parts)).1 (h.rmdir s (absolute parts)).2 ((tree s).rmdir parts)

/-- The program is a file in this directory. -/
structure Installed (h : Storage σ) (dir : List Name) : Prop where
  executable : ∃ prog, Proper prog ∧ h.executablePath = absolute (dir ++ [prog])
  nonempty : dir ≠ []
  proper : ∀ part ∈ dir, Proper part

/-- A file system that has its directory, with the volume in it, or has none yet, where it
    would be made with nothing in it. -/
def Holds (t : Volume) (root : List Name) (mounted_ : Bool) (v : Volume) : Prop :=
  (t.entries root = some .directory ∧ t.sub root = v) ∨
    (t.entries root = none ∧ mounted_ = false ∧ v = .bare)

section Paths

variable {h : Storage σ} {dir : List Name} {fs : FS}

theorem Installed.rootPath (hinstalled : Installed h dir) (hname : Proper fs.name_) :
    fs.rootPath h.toHost = absolute (dir ++ [fs.name_]) := by
  obtain ⟨prog, hprog, hexecutable⟩ := hinstalled.executable
  have hintercalate : fs.name_ = [slash].intercalate [fs.name_] := by simp
  rw [FS.rootPath, hexecutable, if_neg (absolute_ne_nil (by simp)), directoryName_absolute hprog, hintercalate,
    joinPath_absolute hinstalled.proper hinstalled.nonempty (by simpa using hname) (by simp), ← hintercalate]

theorem Installed.root_proper (hinstalled : Installed h dir) (hname : Proper fs.name_) :
    ∀ part ∈ dir ++ [fs.name_], Proper part := by
  intro part hpart
  obtain hpart | hpart := List.mem_append.mp hpart
  · exact hinstalled.proper part hpart
  · exact List.mem_singleton.mp hpart ▸ hname

theorem Installed.target_proper (hinstalled : Installed h dir) (hname : Proper fs.name_) (path : Option Path) :
    ∀ part ∈ dir ++ [fs.name_] ++ target path, Proper part := by
  intro part hpart
  obtain hpart | hpart := List.mem_append.mp hpart
  · exact hinstalled.root_proper hname part hpart
  · exact proper_of_mem_target hpart

theorem Installed.joinPath_root (hinstalled : Installed h dir) (hname : Proper fs.name_) {path : Option Path}
    (htarget : target path ≠ []) :
    joinPath (fs.rootPath h.toHost) (sanitizePath path) = absolute (dir ++ [fs.name_] ++ target path) := by
  rw [hinstalled.rootPath hname, sanitizePath_target]
  exact joinPath_absolute (hinstalled.root_proper hname) (by simp) (fun _ => proper_of_mem_target) htarget

theorem Installed.hostPath (hinstalled : Installed h dir) (hname : Proper fs.name_) (path : Option Path) :
    fs.hostPath h.toHost (sanitizePath path) = absolute (dir ++ [fs.name_] ++ target path) := by
  rw [FS.hostPath]
  by_cases htarget : target path = []
  · rw [if_pos ((sanitizePath_eq_nil_iff path).mpr htarget), htarget, List.append_nil, hinstalled.rootPath hname]
  · rw [if_neg fun hclean => htarget ((sanitizePath_eq_nil_iff path).mp hclean), hinstalled.joinPath_root hname htarget]

end Paths

section Directories

variable {h : Storage σ} {tree : σ → Volume} {s : σ}

theorem makeDirectory_tree (hposix : h.Posix tree) {key : List Name} (hne : key ≠ [])
    (hproper : ∀ part ∈ key, Proper part) :
    Storage.Effect tree s (makeDirectory h.toHost (absolute key) s).value
      (makeDirectory h.toHost (absolute key) s).state ((tree s).mkdir key) := by
  rw [makeDirectory, if_neg (absolute_ne_nil hne)]
  exact hposix.mkdir s key hne hproper

/-- One directory after the other is made in the tree as well. -/
theorem makeEach_tree (hposix : h.Posix tree) {keys : List (List Name)} (hne : ∀ key ∈ keys, key ≠ [])
    (hproper : ∀ key ∈ keys, ∀ part ∈ key, Proper part) :
    (makeEach h.toHost (keys.map absolute) s).value = ((tree s).mkdirs keys).1 ∧
      tree (makeEach h.toHost (keys.map absolute) s).state = ((tree s).mkdirs keys).2 := by
  induction keys generalizing s with
  | nil => exact ⟨rfl, rfl⟩
  | cons key keys ih =>
    obtain ⟨hvalue, htree⟩ := makeDirectory_tree (s := s) hposix (hne key List.mem_cons_self)
      (hproper key List.mem_cons_self)
    have hrest := @ih (makeDirectory h.toHost (absolute key) s).state
      (fun other hother => hne other (List.mem_cons_of_mem _ hother))
      (fun other hother => hproper other (List.mem_cons_of_mem _ hother))
    rw [List.map_cons, makeEach, Traced.bind_apply, Tree.mkdirs]
    cases hmade : (tree s).mkdir key with
    | none =>
      rw [hmade] at hvalue htree
      simp only [hvalue]
      exact ⟨rfl, htree⟩
    | some t' =>
      rw [hmade] at hvalue htree
      rw [htree] at hrest
      simp only [hvalue]
      exact hrest

theorem makeDirectories_tree (hposix : h.Posix tree) (part : Name) (more : List Name)
    (hproper : ∀ name ∈ part :: more, Proper name) :
    (makeDirectories h.toHost (absolute (part :: more)) s).value =
        ((tree s).mkdirs (more.inits.map (part :: ·))).1 ∧
      tree (makeDirectories h.toHost (absolute (part :: more)) s).state =
        ((tree s).mkdirs (more.inits.map (part :: ·))).2 := by
  have hmem : part :: more ∈ more.inits.map (part :: ·) :=
    List.mem_map_of_mem ((List.mem_inits _ _).mpr (List.prefix_refl more))
  rw [makeDirectories_eq, way_absolute hproper, ← Tree.mkdirs_concat (.inr hmem)]
  refine makeEach_tree hposix (fun key hkey => ?_) fun key hkey name hname => hproper name ?_
  · obtain hkey | hkey := List.mem_append.mp hkey
    · obtain ⟨front, -, rfl⟩ := List.mem_map.mp hkey
      exact List.cons_ne_nil _ _
    · rw [List.mem_singleton.mp hkey]
      exact List.cons_ne_nil _ _
  · obtain hkey | hkey := List.mem_append.mp hkey
    · obtain ⟨front, hfront, rfl⟩ := List.mem_map.mp hkey
      exact (List.cons_prefix_cons.mpr ⟨rfl, (List.mem_inits _ _).mp hfront⟩).mem hname
    · rwa [List.mem_singleton.mp hkey] at hname

theorem there_of_mem_inits {t : Volume} {part : Name} {more : List Name} (hentry : t.entries (part :: more) ≠ none) :
    ∀ front ∈ more.inits.map (part :: ·), t.entries front ≠ none := by
  intro front hfront
  obtain ⟨front, hmem, rfl⟩ := List.mem_map.mp hfront
  have hprefix : part :: front <+: part :: more := List.cons_prefix_cons.mpr ⟨rfl, (List.mem_inits _ _).mp hmem⟩
  by_cases heq : part :: front = part :: more
  · rwa [heq]
  · rw [t.directory_of_isPrefix hprefix heq hentry]
    exact Option.some_ne_none _

/-- Where there is a directory, what is made below it is made in the volume there. -/
theorem makeDirectories_below (hposix : h.Posix tree) {root key : List Name} (hne : root ≠ [])
    (hroot : (tree s).entries root = some .directory) (hproper : ∀ part ∈ root ++ key, Proper part) :
    (makeDirectories h.toHost (absolute (root ++ key)) s).value =
        (((tree s).sub root).mkdirs key.inits).1 ∧
      Tree.Below root (tree s) (some (tree (makeDirectories h.toHost (absolute (root ++ key)) s).state))
        (some (((tree s).sub root).mkdirs key.inits).2) := by
  obtain ⟨part, more, rfl⟩ := List.exists_cons_of_ne_nil hne
  obtain ⟨hvalue, htree⟩ := makeDirectories_tree (s := s) hposix part (more ++ key) hproper
  have hthere : ∀ front ∈ more.inits.map (part :: ·), (tree s).entries front ≠ none :=
    there_of_mem_inits (by simp [hroot])
  have hroot' : ∀ front ∈ [part :: more], (tree s).entries front ≠ none := by
    intro front hfront
    rw [List.mem_singleton.mp hfront, hroot]
    exact Option.some_ne_none _
  have hinits : key.inits = [] :: key.inits.tail := by cases key <;> rfl
  have hsplit : (more ++ key).inits.map (part :: ·) =
      more.inits.map (part :: ·) ++ key.inits.tail.map (part :: more ++ ·) := by
    rw [List.inits_append, List.map_append, List.map_map]
    rfl
  have hbelow : _ ∧ Tree.Below (part :: more) (tree s) _ (some (Tree.mkdirs _ key.inits).2) :=
    Tree.mkdirs_below (by simp [hroot])
  rw [hinits, List.map_cons, List.append_nil, ← List.singleton_append, Tree.mkdirs_append_of_there hroot',
    ← hinits] at hbelow
  rw [hsplit, Tree.mkdirs_append_of_there hthere] at hvalue htree
  rw [List.cons_append, hvalue, htree]
  exact hbelow

end Directories

/-- The directory of a file system is there with the volume in it, and there is nothing else
    that has changed. -/
structure Mounts (root : List Name) (t t' : Volume) (v : Volume) : Prop where
  directory : t'.entries root = some .directory
  sub : t'.sub root = v
  outside : ∀ key, ¬root <+: key → t'.entries key = t.entries key

section Mounting

variable {h : Storage σ} {tree : σ → Volume} {s : σ} {dir : List Name} {fs : FS} {v : Volume}

/-- A directory that is made where there was none is a bare volume. -/
theorem mounts_mkdir {t t' : Volume} {root : List Name} (hfree : t.entries root = none)
    (hmade : t.mkdir root = some t') : Mounts root t t' .bare := by
  have hempty : t.Empty root := t.empty_of_ne_directory (by simp [hfree])
  unfold Tree.mkdir at hmade
  rw [if_neg (by simp [hfree])] at hmade
  split at hmade
  · cases hmade
    refine ⟨Function.update_self .., Tree.ext (funext fun key => ?_), fun key hkey => ?_⟩
    · simp only [Tree.sub, Tree.put, Tree.bare]
      split
      · rename_i hnil
        rw [hnil, List.append_nil, Function.update_self]
      · rename_i hne
        rw [Function.update_of_ne (by simpa using hne)]
        by_contra hentry
        obtain ⟨name, more, rfl⟩ := List.exists_cons_of_ne_nil hne
        have hfirst : t.entries (root ++ [name]) ≠ none := by
          by_cases hlast : more = []
          · rwa [hlast] at hentry
          · have hprefix : root ++ [name] <+: root ++ name :: more := by simp
            rw [t.directory_of_isPrefix hprefix (by simpa using hlast) hentry]
            exact Option.some_ne_none _
        exact hfirst (hempty name)
    · refine Function.update_of_ne ?_ _ _
      rintro rfl
      exact hkey (List.prefix_refl _)
  · cases hmade

theorem makeDirectories_root (hposix : h.Posix tree) (hinstalled : Installed h dir) (hname : Proper fs.name_)
    (hdir : (tree s).entries dir = some .directory) (hholds : Holds (tree s) (dir ++ [fs.name_]) fs.mounted_ v) :
    (makeDirectories h.toHost (absolute (dir ++ [fs.name_])) s).value = true ∧
      Mounts (dir ++ [fs.name_]) (tree s)
        (tree (makeDirectories h.toHost (absolute (dir ++ [fs.name_])) s).state) v := by
  have hproper := hinstalled.root_proper hname
  have hmkdir : ∃ t', (tree s).mkdir (dir ++ [fs.name_]) = some t' ∧ Mounts (dir ++ [fs.name_]) (tree s) t' v := by
    obtain ⟨hroot, hsub⟩ | ⟨hfree, -, rfl⟩ := hholds
    · exact ⟨tree s, if_pos (by simp [hroot]), hroot, hsub, fun _ _ => rfl⟩
    · have hhoused : (tree s).Housed (dir ++ [fs.name_]) := ⟨by simp, by rwa [List.dropLast_concat]⟩
      have hmade : (tree s).mkdir (dir ++ [fs.name_]) = _ := (if_neg (by simp [hfree])).trans (dif_pos hhoused)
      exact ⟨_, hmade, mounts_mkdir hfree hmade⟩
  obtain ⟨t', hmade, hmounts⟩ := hmkdir
  obtain ⟨part, more, rfl⟩ := List.exists_cons_of_ne_nil hinstalled.nonempty
  have hthere : ∀ front ∈ more.inits.map (part :: ·), (tree s).entries front ≠ none :=
    there_of_mem_inits (by simp [hdir])
  have hsplit : (more ++ [fs.name_]).inits.map (part :: ·) =
      more.inits.map (part :: ·) ++ [part :: more ++ [fs.name_]] := by
    rw [List.inits_append, List.map_append]
    rfl
  obtain ⟨hvalue, htree⟩ := makeDirectories_tree (s := s) hposix part (more ++ [fs.name_]) hproper
  rw [hsplit, Tree.mkdirs_append_of_there hthere] at hvalue htree
  simp only [Tree.mkdirs, hmade] at hvalue htree
  rw [List.cons_append] at hmounts ⊢
  rw [hvalue, htree]
  exact ⟨rfl, hmounts⟩

theorem ensureMounted_tree (hposix : h.Posix tree) (hinstalled : Installed h dir) (hname : Proper fs.name_)
    (hdir : (tree s).entries dir = some .directory) (hholds : Holds (tree s) (dir ++ [fs.name_]) fs.mounted_ v) :
    (fs.ensureMounted h.toHost s).value = (true, { fs with mounted_ := true }) ∧
      Mounts (dir ++ [fs.name_]) (tree s) (tree (fs.ensureMounted h.toHost s).state) v := by
  rw [FS.ensureMounted]
  cases hmounted : fs.mounted_ with
  | true =>
    obtain ⟨hroot, hsub⟩ | ⟨-, hnot, -⟩ := hholds
    · have hsame : { fs with mounted_ := true } = fs := by rw [← hmounted]
      rw [hsame]
      exact ⟨rfl, hroot, hsub, fun _ _ => rfl⟩
    · rw [hmounted] at hnot
      cases hnot
  | false =>
    obtain ⟨hmade, hmounts⟩ := makeDirectories_root hposix hinstalled hname hdir hholds
    rw [if_neg Bool.false_ne_true, FS.begin, if_neg hname.ne_nil, hinstalled.rootPath hname]
    simp only [Traced.bind_apply, Traced.pure_apply, hmade]
    exact ⟨trivial, hmounts⟩

end Mounting

/-- What is done to a mounted file system comes to a value, and to this volume there. -/
structure Acts {α : Type} (tree : σ → Volume) (root : List Name) (s : σ) (result : Traced.Result σ Call α)
    (value : α) (v' : Volume) : Prop where
  value : result.value = value
  below : Tree.Below root (tree s) (some (tree result.state)) (some v')
  top : v'.entries [] = (tree s).entries root

section Acting

variable {h : Storage σ} {tree : σ → Volume} {s s' : σ} {root key : List Name} {v : Volume}

theorem entries_top {t : Volume} (hsub : t.sub root = v) : v.entries [] = t.entries root := by
  rw [← hsub]
  exact congrArg t.entries (List.append_nil root)

theorem acts_still {α : Type} {result : Traced.Result σ Call α} {value : α} (hvalue : result.value = value)
    (hstate : result.state = s) (hsub : (tree s).sub root = v) : Acts tree root s result value v := by
  refine ⟨hvalue, ?_, entries_top hsub⟩
  rw [hstate]
  exact Tree.below_some hsub fun _ _ => rfl

/-- A call that does in the whole tree what is asked of the volume. -/
theorem Storage.Effect.acts {succeeded : Bool} {whole below : Option Volume}
    (heffect : Storage.Effect tree s succeeded s' whole) (hbelow : Tree.Below root (tree s) whole below)
    (hsub : (tree s).sub root = v) (htop : ∀ v', below = some v' → v'.entries [] = v.entries [])
    {result : Traced.Result σ Call Bool} (hvalue : result.value = succeeded) (hstate : result.state = s') :
    Acts tree root s result below.isSome (below.getD v) := by
  have hsome : whole.isSome = below.isSome := by
    rw [← hbelow.sub, Option.isSome_map]
  refine ⟨hvalue.trans (heffect.succeeded.trans hsome), ?_, ?_⟩
  · rw [hstate, heffect.tree, ← hsub]
    exact hbelow.getD
  · cases below with
    | none => exact entries_top hsub
    | some v' => exact (htop v' rfl).trans (entries_top hsub)

/-- One thing done after the other. -/
theorem Acts.then {α β : Type} {m : Traced σ Call α} {f : α → Traced σ Call β} {x : α} {y : β} {v₁ v₂ : Volume}
    (hfirst : Acts tree root s (m s) x v₁) (hsecond : Acts tree root (m s).state (f x (m s).state) y v₂) :
    Acts tree root s ((m >>= f) s) y v₂ := by
  obtain ⟨hvalue, hbelow, htop⟩ := hfirst
  have hentries := (entries_top (Option.some_inj.mp hbelow.sub)).symm
  rw [Traced.bind_apply, hvalue]
  exact ⟨hsecond.value, hsecond.below.trans (hbelow.outside _ rfl), (hsecond.top.trans hentries).trans htop⟩

/-- Something asked of the system, and then something done. -/
theorem Acts.asked {α β : Type} {m : Traced σ Call α} {f : α → Traced σ Call β} {x : α} {y : β}
    (hvalue : (m s).value = x) (hstate : (m s).state = s) (hrest : Acts tree root s (f x s) y v) :
    Acts tree root s ((m >>= f) s) y v := by
  rw [Traced.bind_apply, hvalue, hstate]
  exact ⟨hrest.value, hrest.below, hrest.top⟩

theorem Acts.sub {α : Type} {result : Traced.Result σ Call α} {value : α} (h : Acts tree root s result value v) :
    (tree result.state).sub root = v :=
  Option.some_inj.mp h.below.sub

theorem Acts.root_kept {α : Type} {result : Traced.Result σ Call α} {value : α} (h : Acts tree root s result value v) :
    (tree result.state).entries root = (tree s).entries root :=
  (entries_top h.sub).symm.trans h.top

theorem Acts.done {m : Traced σ Call Bool} {succeeded : Bool} (hacts : Acts tree root s (m s) succeeded v) :
    Acts tree root s ((m >>= fun succeeded => pure (StoreAnswer.done succeeded)) s) (.done succeeded) v :=
  hacts.then (acts_still rfl rfl hacts.sub)

theorem isDirectoryPath_value (hposix : h.Posix tree) (hproper : ∀ part ∈ key, Proper part) :
    (isDirectoryPath h.toHost (absolute key) s).value = decide ((tree s).entries key = some .directory) := by
  change (h.stat s (absolute key)).any Stat.isDirectory = _
  cases hentry : (tree s).entries key with
  | none =>
    rw [hposix.stat_none s key hproper hentry]
    rfl
  | some node =>
    cases node with
    | file content =>
      rw [hposix.stat_file s key content hproper hentry]
      rfl
    | directory =>
      obtain ⟨size, hstat⟩ := hposix.stat_directory s key hproper hentry
      rw [hstat]
      rfl

theorem pathExists_value (hposix : h.Posix tree) (hproper : ∀ part ∈ key, Proper part) :
    (pathExists h.toHost (absolute key) s).value = ((tree s).entries key).isSome := by
  change (h.stat s (absolute key)).isSome = _
  cases hentry : (tree s).entries key with
  | none =>
    rw [hposix.stat_none s key hproper hentry]
    rfl
  | some node =>
    cases node with
    | file content =>
      rw [hposix.stat_file s key content hproper hentry]
      rfl
    | directory =>
      obtain ⟨size, hstat⟩ := hposix.stat_directory s key hproper hentry
      rw [hstat]
      rfl

theorem makeDirectories_acts (hposix : h.Posix tree) (hne : root ≠ [])
    (hroot : (tree s).entries root = some .directory) (hsub : (tree s).sub root = v)
    (hproper : ∀ part ∈ root ++ key, Proper part) :
    Acts tree root s (makeDirectories h.toHost (absolute (root ++ key)) s) (v.mkdirs key.inits).1
      (v.mkdirs key.inits).2 := by
  obtain ⟨hvalue, hbelow⟩ := makeDirectories_below (s := s) hposix hne hroot hproper
  have htop := entries_top hsub
  rw [hsub] at hvalue hbelow
  exact ⟨hvalue, hbelow, (Tree.mkdirs_entries (by simp [htop, hroot])).trans htop⟩

/-- The directories that lead to a place below it. -/
theorem makeAbove_acts (hposix : h.Posix tree) (hne : root ≠ []) (hkey : key ≠ [])
    (hroot : (tree s).entries root = some .directory) (hsub : (tree s).sub root = v)
    (hproper : ∀ part ∈ root ++ key, Proper part) :
    Acts tree root s (makeDirectories h.toHost (directoryName (absolute (root ++ key))) s)
      (v.mkdirs key.dropLast.inits).1 (v.mkdirs key.dropLast.inits).2 := by
  obtain ⟨front, last, rfl⟩ := (List.eq_nil_or_concat' key).resolve_left hkey
  rw [← List.append_assoc, directoryName_absolute (hproper last (by simp)), List.dropLast_concat]
  rw [← List.append_assoc] at hproper
  exact makeDirectories_acts hposix hne hroot hsub fun part hpart => hproper part (List.mem_append_left _ hpart)

end Acting

end HostArduino.fs
