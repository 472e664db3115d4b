import HostArduino.FS.Volumes

namespace HostArduino.fs

open Lib

/-- What a file system without a directory starts with, or with one. -/
def Volume.found (t : Volume) (root : List Name) : Volume :=
  if t.entries root = none then .bare else t.sub root

section Partitions

variable {σ : Type} {ι : Type*} {h : Storage σ} {tree : σ → Volume} {dir : List Name}

theorem represents_unmounted (names : ι → Name) (s : σ) (hdir : (tree s).entries dir = some .directory)
    (hroots : ∀ i content, (tree s).entries (dir ++ [names i]) ≠ some (.file content)) :
    Represents tree dir names (tree s) (fun i => ⟨names i, false⟩, s)
      fun name => Volume.found (tree s) (dir ++ [name]) := by
  refine ⟨fun _ => rfl, hdir, fun i => ?_, fun _ _ => rfl⟩
  simp only [Volume.found]
  cases hentry : (tree s).entries (dir ++ [names i]) with
  | none => exact .inr ⟨hentry, rfl, if_pos rfl⟩
  | some node =>
    cases node with
    | file content => exact absurd hentry (hroots i content)
    | directory => exact .inl ⟨hentry, (if_neg (Option.some_ne_none _)).symm⟩

variable [DecidableEq ι]

end Partitions

/-! ### A host whose state is a tree -/

theorem hostNames_absolute {parts : List Name} (hproper : ∀ part ∈ parts, Proper part) :
    hostNames (absolute parts) = parts := by
  by_cases hne : parts = []
  · subst hne
    exact pieces_nil
  · rw [← slash_intercalate hne, hostNames, pieces_cons rfl]
    refine pieces_intercalate rfl fun part hpart => ⟨(hproper part hpart).ne_nil, fun ch hch => ?_⟩
    rw [beq_eq_false_iff_ne]
    rintro rfl
    exact (hproper part hpart).slash_free hch

noncomputable section

/-- A call that leaves the tree where it is refused. -/
def treeCall (t : Volume) (after : Option Volume) : Bool × Volume :=
  (after.isSome, after.getD t)

/-- `mkdir` tells whether there has been something. -/
def treeMkdir (t : Volume) (key : List Name) : MkdirResult × Volume :=
  if t.entries key ≠ none then (.present, t)
  else match t.mkdir key with
    | some t' => (.created, t')
    | none => (.failed, t)

theorem treeMkdir_unchanged (t : Volume) (key : List Name) (hresult : (treeMkdir t key).1 ≠ .created) :
    (treeMkdir t key).2 = t := by
  unfold treeMkdir at hresult ⊢
  split
  · rfl
  · cases hmade : t.mkdir key with
    | none => rfl
    | some t' => simp_all

def treeStorage (executablePath : Path) : Storage Volume where
  executablePath := executablePath
  stat t path := (t.entries (hostNames path)).map fun
    | .file content => ⟨false, content.length⟩
    | .directory => ⟨true, 0⟩
  mkdir t path := treeMkdir t (hostNames path)
  fopen t path mode :=
    match [Stdio.Mode.r, .w, .a, .rPlus, .wPlus, .aPlus].find? (fun known => known.text = mode) with
    | some mode => treeCall t (Volume.opened t mode (hostNames path))
    | none => (false, t)
  opendir t path := t.entries (hostNames path) = some .directory
  remove t path := treeCall t (t.remove (hostNames path))
  rename t pathFrom pathTo := treeCall t (t.rename (hostNames pathFrom) (hostNames pathTo))
  rmdir t path := treeCall t (t.rmdir (hostNames path))
  mkdir_unchanged t path := treeMkdir_unchanged t (hostNames path)
  contents t path := Volume.content t (hostNames path)
  fclose t path content := (t.write (hostNames path) content).getD t

theorem treeCall_effect (t : Volume) (after : Option Volume) :
    Storage.Effect id t (treeCall t after).1 (treeCall t after).2 after :=
  ⟨rfl, rfl⟩

theorem treeMkdir_effect (t : Volume) (key : List Name) :
    Storage.Effect id t ((treeMkdir t key).1 != .failed) (treeMkdir t key).2 (t.mkdir key) := by
  unfold treeMkdir
  split
  · rename_i hthere
    have hmkdir : t.mkdir key = some t := if_pos hthere
    rw [hmkdir]
    exact ⟨rfl, rfl⟩
  · cases t.mkdir key with
    | none => exact ⟨rfl, rfl⟩
    | some t' => exact ⟨rfl, rfl⟩

theorem treeStorage_posix (executablePath : Path) : (treeStorage executablePath).Posix id where
  stat_none t parts hproper hentry := by
    simp only [treeStorage, hostNames_absolute hproper]
    exact congrArg (Option.map _) hentry
  stat_file t parts content hproper hentry := by
    simp only [treeStorage, hostNames_absolute hproper]
    exact congrArg (Option.map _) hentry
  stat_directory t parts hproper hentry := by
    simp only [treeStorage, hostNames_absolute hproper]
    exact ⟨0, congrArg (Option.map _) hentry⟩
  mkdir t parts _ hproper := by
    simp only [treeStorage, hostNames_absolute hproper]
    exact treeMkdir_effect t parts
  fopen t parts mode hproper _ := by
    have hmode : [Stdio.Mode.r, .w, .a, .rPlus, .wPlus, .aPlus].find? (fun known => known.text = mode.text) =
        some mode := by
      cases mode <;> rfl
    simp only [treeStorage, hostNames_absolute hproper, hmode]
    exact treeCall_effect t _
  contents t parts hproper := by
    simp only [treeStorage, hostNames_absolute hproper]
    rfl
  fclose t parts content hproper := by
    simp only [treeStorage, hostNames_absolute hproper]
    rfl
  remove t parts hproper := by
    simp only [treeStorage, hostNames_absolute hproper]
    exact treeCall_effect t _
  rename t source target hsource htarget := by
    simp only [treeStorage, hostNames_absolute hsource, hostNames_absolute htarget]
    exact treeCall_effect t _
  rmdir t parts hproper := by
    simp only [treeStorage, hostNames_absolute hproper]
    exact treeCall_effect t _

end

/-! ### The file systems that there are -/

/-- What the headers declare. A file that includes one has an object of its own. -/
inductive Partition where
  | FFat
  | SPIFFS
  | SD
  | LittleFS
  deriving DecidableEq, Repr

def Partition.name : Partition → Name
  | .FFat => [70, 70, 97, 116]
  | .SPIFFS => [83, 80, 73, 70, 70, 83]
  | .SD => [83, 68]
  | .LittleFS => [76, 105, 116, 116, 108, 101, 70, 83]

theorem Partition.name_proper (partition : Partition) : Proper partition.name := by
  refine ⟨?_, ?_, ?_, ?_, ?_⟩ <;> cases partition <;> simp [name, dot, slash, backslash]

def bin : Name := [98, 105, 110]

theorem bin_proper : Proper bin := by
  refine ⟨?_, ?_, ?_, ?_, ?_⟩ <;> simp [bin, dot, slash, backslash]

/-- `/bin`, where the program is `/bin/sketch`. -/
def installedTree : Volume where
  entries key := if key = [] ∨ key = [bin] then some .directory else none
  parent_directory dir name hentry := by
    simp only [List.append_eq_nil_iff, List.cons_ne_nil, and_false, false_or, ne_eq, ite_eq_right_iff, not_forall,
      exists_prop] at hentry
    have hdir : dir ++ [name] = [] ++ [bin] := hentry.1
    exact if_pos (.inl (List.append_inj' hdir rfl).1)

def sketch : Name := [115, 107, 101, 116, 99, 104]

theorem treeStorage_installed : Installed (treeStorage (absolute [bin, sketch])) [bin] where
  executable := ⟨sketch, by refine ⟨?_, ?_, ?_, ?_, ?_⟩ <;> simp [sketch, dot, slash, backslash], rfl⟩
  nonempty := List.cons_ne_nil _ _
  proper part hpart := List.mem_singleton.mp hpart ▸ bin_proper

theorem installedTree_bin : installedTree.entries [bin] = some .directory := by
  simp [installedTree]

theorem installedTree_roots (i : Partition × Nat) (content : List UInt8) :
    installedTree.entries ([bin] ++ [i.1.name]) ≠ some (.file content) := by
  simp [installedTree]

end HostArduino.fs
