import HostArduino.FS.Mounted

namespace HostArduino.fs

open Lib

variable {σ : Type}

/-! ### A file that is used -/

section Using

variable {longBits : Nat} {appendAtEnd : Bool} {v v' : Volume} {key : List Name} {mode : Stdio.Mode}

theorem write_entries {content : List UInt8} (hwritten : v.write key content = some v') :
    v'.entries key = some (.file content) := by
  unfold Tree.write at hwritten
  split at hwritten
  · cases hwritten
    exact Function.update_self ..
  · cases hwritten

/-- The stream of a file that opens has what is in the file then. -/
theorem opened_entries (appendAtEnd : Bool) (hopened : Volume.opened v mode key = some v') :
    v'.entries key = some (.file (Stdio.Stream.fopen mode appendAtEnd (Volume.content v' key)).content) := by
  unfold Volume.opened at hopened
  split at hopened
  · rw [Volume.content, write_entries hopened]
    cases hmode : mode.truncates <;> simp [Stdio.Stream.fopen, hmode]
  · cases hopened
  · split at hopened
    · rw [Volume.content, write_entries hopened]
      simp [Stdio.Stream.fopen]
    · cases hopened

theorem opened_top (hopened : Volume.opened v mode key = some v') : v'.entries [] = v.entries [] := by
  unfold Volume.opened at hopened
  split at hopened
  · exact Tree.write_top hopened
  · cases hopened
  · split at hopened
    · exact Tree.write_top hopened
    · cases hopened

theorem opened_below {t : Volume} {root : List Name} (hkey : key ≠ []) :
    Tree.Below root t (Volume.opened t mode (root ++ key)) (Volume.opened (t.sub root) mode key) := by
  unfold Volume.opened
  have hentries : (t.sub root).entries key = t.entries (root ++ key) := rfl
  rw [hentries]
  split
  · exact Tree.write_below hkey
  · exact Tree.below_none
  · split
    · exact Tree.write_below hkey
    · exact Tree.below_none

theorem call_of_isOpen {o : OpenFile} (hopen : o.IsOpen) (call : FileCall) :
    (o.answer longBits call, (o.call longBits call).stream) = useStream longBits o.stream call := by
  have hhandle := hopen.handle
  have hdirectory := hopen.directory
  cases call with
  | write buffer room =>
    cases buffer with
    | none => rfl
    | some data => simp [OpenFile.answer, OpenFile.call, OpenFile.write, useStream, hhandle, hdirectory]
  | writeByte value room =>
    simp [OpenFile.answer, OpenFile.call, OpenFile.writeByte, OpenFile.write, useStream, hhandle, hdirectory]
  | read =>
    rcases hgetc : o.stream.fgetc with ⟨c, stream⟩
    cases c <;> simp [OpenFile.answer, OpenFile.call, OpenFile.read, useStream, hhandle, hdirectory, hgetc]
  | readBuffer buffer size =>
    cases buffer <;> simp [OpenFile.answer, OpenFile.call, OpenFile.readBuffer, useStream, hhandle, hdirectory]
  | peek =>
    rcases hgetc : o.stream.fgetc with ⟨c, stream⟩
    cases c <;> simp [OpenFile.answer, OpenFile.call, OpenFile.peek, useStream, hhandle, hdirectory, hgetc]
  | flush => simp [OpenFile.answer, OpenFile.call, OpenFile.flush, useStream, hhandle]
  | seek pos mode =>
    rcases hseek : o.stream.fseek (longMax longBits) (toLong longBits pos) mode with ⟨sought, stream⟩
    cases sought <;> simp [OpenFile.answer, OpenFile.call, OpenFile.seek, useStream, hhandle, hdirectory, hseek]

/-- A file that is open answers as its stream does. -/
theorem useFile_refines (longBits : Nat) (path : Path) :
    (useFile longBits).Refines (useStream longBits) fun o s =>
      o.IsOpen ∧ o.file.host_path_ = path ∧ o.stream = s := by
  intro o s ⟨hopen, hpath, hstream⟩ call
  subst hstream
  have hcall : (o.answer longBits call, _) = _ := call_of_isOpen hopen call
  obtain ⟨⟨size_, position_, hfile⟩, -⟩ := call_frame o longBits call
  refine ⟨congrArg Prod.fst hcall, call_isOpen hopen longBits call, ?_, congrArg Prod.snd hcall⟩
  change (o.call longBits call).file.host_path_ = path
  rwa [hfile]

/-- A file that is not open refuses them all. -/
theorem useFile_closed {o : OpenFile} (hclosed : o.file.handle_ = false) (calls : List FileCall) :
    (useFile longBits).feed o calls = (calls.map FileCall.refused, o) := by
  induction calls with
  | nil => rfl
  | cons call calls ih =>
    have hcall : useFile longBits o call = (call.refused, o) :=
      Prod.ext (call_closed hclosed call).1 (call_closed hclosed call).2
    rw [Mealy.feed_cons, hcall, ih]
    rfl

theorem useOpened_closed {σ : Type} (h : Storage σ) {file : File} (hclosed : file.handle_ = false)
    (calls : List FileCall) (s : σ) :
    useOpened h longBits appendAtEnd file mode calls s = ⟨Volume.refused file.told calls, s, []⟩ := by
  simp only [useOpened, useFile_closed (o := ⟨file, _⟩) hclosed, hclosed, Bool.false_eq_true, if_false]
  rfl

variable {h : Storage σ} {tree : σ → Volume} {s : σ} {root : List Name} {display : Path} {calls : List FileCall}

/-- A file that has opened is used, and what it holds then is in the volume. -/
theorem useOpened_acts (hposix : h.Posix tree) (hproper : ∀ part ∈ root ++ key, Proper part) (hkey : key ≠ [])
    (hsub : (tree s).sub root = v) {file : File} (hopen : file.handle_ = true) (hdirectory : file.directory_ = false)
    (hpath : file.host_path_ = absolute (root ++ key)) :
    let used := (useStream longBits).feed (Stdio.Stream.fopen mode appendAtEnd (Volume.content v key)) calls
    Acts tree root s (useOpened h longBits appendAtEnd file mode calls s) (.used file.told used.1)
      ((v.write key used.2.content).getD v) := by
  subst hsub
  have hcontents : h.contents s file.host_path_ = Volume.content ((tree s).sub root) key := by
    rw [hpath, hposix.contents s _ hproper]
    rfl
  obtain ⟨hanswers, hopen', hpath', hstream⟩ :=
    (useFile_refines longBits file.host_path_).feed
      (s := ⟨file, Stdio.Stream.fopen mode appendAtEnd (Volume.content ((tree s).sub root) key)⟩)
      ⟨⟨hopen, hdirectory⟩, rfl, rfl⟩ calls
  intro used
  have hwrite : Tree.Below root (tree s) ((tree s).write (root ++ key) used.2.content)
      (((tree s).sub root).write key used.2.content) := Tree.write_below hkey
  simp only [useOpened, hcontents, hanswers, hopen'.handle, if_true, hpath', hstream]
  refine ⟨rfl, ?_, ?_⟩
  · rw [hpath, hposix.fclose s _ _ hproper]
    exact hwrite.getD
  · cases hwritten : ((tree s).sub root).write key used.2.content with
    | none => exact entries_top rfl
    | some v' => exact (Tree.write_top hwritten).trans (entries_top rfl)

/-- The record of a file that is no directory, when it has opened or has not. -/
def File.plain (hostPath displayPath : Path) (size : Option Nat) : File where
  handle_ := size.isSome
  host_path_ := hostPath
  display_path_ := displayPath
  name_ := baseName displayPath
  directory_ := false
  size_ := size.getD 0
  position_ := 0
  dir_ := false

theorem make_file (h : Host σ) (path display : Path) (mode : List UInt8) (s : σ) :
    (File.make h path display (some mode) false s).value =
        File.plain path display
          (if (h.fopen s path mode).1 then some (((h.stat (h.fopen s path mode).2 path).map Stat.size).getD 0) else none) ∧
      (File.make h path display (some mode) false s).state = (h.fopen s path mode).2 := by
  rcases hfopen : h.fopen s path mode with ⟨opened, s'⟩
  have hcall : h.callFopen path mode s = ⟨opened, s', [.fopen path mode opened]⟩ := by
    rw [Host.callFopen, Traced.call_apply, hfopen]
  rw [File.make, if_neg Bool.false_ne_true, Traced.bind_apply, Option.getD_some, hcall]
  cases opened with
  | false => exact ⟨rfl, rfl⟩
  | true =>
    refine ⟨?_, rfl⟩
    change File.mk _ _ _ _ _ ((h.stat s' path).elim 0 Stat.size) _ _ = _
    cases h.stat s' path <;> rfl

/-- `fopen`, and the record that a `File` keeps of how it went. -/
theorem make_file_acts (appendAtEnd : Bool) (hposix : h.Posix tree) (hproper : ∀ part ∈ root ++ key, Proper part) (hkey : key ≠ [])
    (hsub : (tree s).sub root = v) (hfile : v.entries key ≠ some .directory) :
    Acts tree root s (File.make h.toHost (absolute (root ++ key)) display (some mode.text) false s)
      (File.plain (absolute (root ++ key)) display <| (Volume.opened v mode key).map fun v' =>
        (Stdio.Stream.fopen mode appendAtEnd (Volume.content v' key)).content.length)
      ((Volume.opened v mode key).getD v) := by
  subst hsub
  have hopened : Tree.Below root (tree s) (Volume.opened (tree s) mode (root ++ key))
      (Volume.opened ((tree s).sub root) mode key) := opened_below hkey
  obtain ⟨hsucceeded, htree⟩ := hposix.fopen s (root ++ key) mode hproper hfile
  obtain ⟨hvalue, hstate⟩ := make_file h.toHost (absolute (root ++ key)) display mode.text s
  refine ⟨?_, ?_, ?_⟩
  · rw [hvalue, hsucceeded, ← hopened.sub]
    cases hresult : Volume.opened (tree s) mode (root ++ key) with
    | none => rfl
    | some t' =>
      have hentry := opened_entries appendAtEnd hresult
      rw [hresult, Option.getD_some] at htree
      rw [← htree] at hentry
      rw [hposix.stat_file _ _ _ hproper hentry, htree]
      rfl
  · rw [hstate, htree]
    exact hopened.getD
  · cases hresult : Volume.opened ((tree s).sub root) mode key with
    | none => exact entries_top rfl
    | some v' => exact (opened_top hresult).trans (entries_top rfl)

/-- `File` at a path in a mounted file system, used and closed. -/
theorem make_acts (hposix : h.Posix tree) (hproper : ∀ part ∈ root ++ key, Proper part)
    (hroot : (tree s).entries root = some .directory) (hsub : (tree s).sub root = v) :
    let used := Volume.useAt longBits appendAtEnd v display mode calls key
    Acts tree root s
      ((isDirectoryPath h.toHost (absolute (root ++ key)) >>= fun directory =>
        File.make h.toHost (absolute (root ++ key)) display (some mode.text) directory >>= fun file =>
          useOpened h longBits appendAtEnd file mode calls) s) used.1 used.2 := by
  have hentry : (tree s).entries (root ++ key) = v.entries key := by
    rw [← hsub]
    rfl
  have hdirectory : (isDirectoryPath h.toHost (absolute (root ++ key)) s).value =
      decide (v.entries key = some .directory) := by
    rw [isDirectoryPath_value hposix hproper, hentry]
  intro used
  refine .asked hdirectory rfl ?_
  by_cases hdir : v.entries key = some .directory
  · have hused : used = (Volume.refused ⟨some .directory, display, 0⟩ calls, v) := if_pos hdir
    rw [decide_eq_true hdir, hused]
    refine .asked rfl rfl ?_
    rw [useOpened_closed h rfl]
    exact acts_still rfl rfl hsub
  · have hkey : key ≠ [] := by
      rintro rfl
      rw [entries_top hsub, hroot] at hdir
      exact hdir rfl
    have hused : used = Volume.useFileAt longBits appendAtEnd v display calls mode key (Volume.opened v mode key) :=
      if_neg hdir
    rw [decide_eq_false hdir, hused]
    have hmade : Acts tree root s (File.make h.toHost (absolute (root ++ key)) display (some mode.text) false s) _ _ :=
      make_file_acts appendAtEnd hposix hproper hkey hsub hdir
    refine hmade.then ?_
    cases hopened : Volume.opened v mode key with
    | none =>
      rw [hopened] at hmade
      rw [useOpened_closed h rfl]
      exact acts_still rfl rfl hmade.sub
    | some v' =>
      rw [hopened] at hmade
      exact useOpened_acts hposix hproper hkey hmade.sub rfl rfl rfl

end Using

/-! ### A file system that is used -/

/-- What a use of a file system comes to: an answer and a volume, and nothing else that has
    changed. -/
structure Performs (tree : σ → Volume) (root : List Name) (s : σ) (fs : FS)
    (result : Traced.Result σ Call (StoreAnswer × FS)) (expected : StoreAnswer × Volume) : Prop where
  answer : result.value.1 = expected.1
  name : result.value.2.name_ = fs.name_
  holds : Holds (tree result.state) root result.value.2.mounted_ expected.2
  outside : ∀ key, ¬root <+: key → (tree result.state).entries key = (tree s).entries key
  kept : (tree s).entries root ≠ none → (tree result.state).entries root ≠ none

section Performing

variable {h : Storage σ} {tree : σ → Volume} {s : σ} {dir : List Name} {fs : FS} {v v' : Volume}
  {longBits : Nat} {appendAtEnd : Bool}

theorem makeParent_acts {key : List Name} {mode : Stdio.Mode} (hposix : h.Posix tree)
    (hinstalled : Installed h dir) (hname : Proper fs.name_)
    (hproper : ∀ part ∈ dir ++ [fs.name_] ++ key, Proper part)
    (hroot : (tree s).entries (dir ++ [fs.name_]) = some .directory) (hsub : (tree s).sub (dir ++ [fs.name_]) = v) :
    Acts tree (dir ++ [fs.name_]) s
      (FS.makeParent h.toHost (absolute (dir ++ [fs.name_] ++ key)) (some mode.text) s)
      (if mode.writable then v.mkdirs key.dropLast.inits else (true, v)).1
      (if mode.writable then v.mkdirs key.dropLast.inits else (true, v)).2 := by
  have hwrites : modeWrites (some mode.text) = mode.writable := by cases mode <;> rfl
  rw [FS.makeParent, hwrites]
  cases mode.writable with
  | false => exact acts_still rfl rfl hsub
  | true =>
    simp only [if_true]
    by_cases hne : key = []
    · subst hne
      -- The root itself: there is the directory that it is in.
      have htop : v.mkdirs ([] : List Name).dropLast.inits = (true, v) := by
        have hthere : v.entries [] ≠ none := by simp [entries_top hsub, hroot]
        have hmkdir : v.mkdir [] = some v := if_pos hthere
        simp only [List.dropLast_nil, List.inits, Tree.mkdirs, hmkdir]
      have hdir : (tree s).entries dir ≠ none := by
        rw [(tree s).parent_directory dir fs.name_ (by simp [hroot])]
        exact Option.some_ne_none _
      obtain ⟨part, more, rfl⟩ := List.exists_cons_of_ne_nil hinstalled.nonempty
      obtain ⟨hvalue, htree⟩ := makeDirectories_tree (s := s) hposix _ _ hinstalled.proper
      rw [← List.append_nil (more.inits.map _), Tree.mkdirs_append_of_there (there_of_mem_inits hdir)] at hvalue htree
      rw [List.append_nil, directoryName_absolute hname, htop]
      refine ⟨hvalue, ?_, entries_top hsub⟩
      rw [htree]
      exact Tree.below_some hsub fun _ _ => rfl
    · exact makeAbove_acts hposix (by simp) hne hroot hsub hproper

/-- Opening, using and closing a file in a mounted file system. -/
theorem use_acts {path : Option Path} {mode : Stdio.Mode} {calls : List FileCall} (hposix : h.Posix tree)
    (hinstalled : Installed h dir) (hname : Proper fs.name_)
    (hroot : (tree s).entries (dir ++ [fs.name_]) = some .directory) (hsub : (tree s).sub (dir ++ [fs.name_]) = v) :
    Acts tree (dir ++ [fs.name_]) s
      ((fs.openMounted h.toHost path (some mode.text) >>= fun file =>
        useOpened h longBits appendAtEnd file mode calls) s)
      (Volume.use longBits appendAtEnd v path mode calls).1 (Volume.use longBits appendAtEnd v path mode calls).2 := by
  have hproper := hinstalled.target_proper hname path
  rw [FS.openMounted, Volume.use]
  simp only [sanitizePath_eq_nil_iff, hinstalled.hostPath hname]
  by_cases hgiven : target path = [] ∧ path.any (fun path => path.head? ≠ some slash) = true
  · rw [if_pos hgiven, if_pos hgiven, pure_bind, useOpened_closed h rfl]
    exact acts_still rfl rfl hsub
  · rw [if_neg hgiven, if_neg hgiven, bind_assoc]
    have hparent : Acts tree (dir ++ [fs.name_]) s
        (FS.makeParent h.toHost (absolute (dir ++ [fs.name_] ++ target path)) (some mode.text) s) _ _ :=
      makeParent_acts hposix hinstalled hname hproper hroot hsub
    refine hparent.then ?_
    generalize (if mode.writable = true then v.mkdirs (target path).dropLast.inits else (true, v)) = made at *
    obtain ⟨made, v'⟩ := made
    cases made with
    | false =>
      rw [if_neg Bool.false_ne_true, if_neg Bool.false_ne_true, pure_bind, useOpened_closed h rfl]
      exact acts_still rfl rfl hparent.sub
    | true =>
      rw [if_pos rfl, if_pos rfl, bind_assoc, sanitizePath_target]
      exact make_acts hposix hproper (hparent.root_kept.trans hroot) hparent.sub

/-- What is done once a file system is mounted. -/
theorem performs_onceMounted {α : Type} {refusal : α} {act : Traced σ Call α} {f : α → Traced σ Call StoreAnswer}
    {expected : StoreAnswer × Volume} (hposix : h.Posix tree) (hinstalled : Installed h dir)
    (hname : Proper fs.name_) (hdir : (tree s).entries dir = some .directory)
    (hholds : Holds (tree s) (dir ++ [fs.name_]) fs.mounted_ v)
    (hacts : ∀ s', (tree s').entries (dir ++ [fs.name_]) = some .directory →
      (tree s').sub (dir ++ [fs.name_]) = v →
        Acts tree (dir ++ [fs.name_]) s' ((act >>= f) s') expected.1 expected.2) :
    Performs tree (dir ++ [fs.name_]) s fs
      ((FS.onceMounted h.toHost fs refusal act >>= fun opened =>
        f opened.1 >>= fun answer => pure (answer, opened.2)) s) expected := by
  obtain ⟨hvalue, hmounts⟩ := ensureMounted_tree hposix hinstalled hname hdir hholds
  have hperformed := hacts _ hmounts.directory hmounts.sub
  have hthere := hperformed.root_kept.trans hmounts.directory
  have hbind : (FS.onceMounted h.toHost fs refusal act >>= fun opened =>
      f opened.1 >>= fun answer => pure (answer, opened.2)) =
        FS.ensureMounted h.toHost fs >>= fun mounted =>
          if mounted.1 then (act >>= f) >>= fun answer => pure (answer, mounted.2)
          else f refusal >>= fun answer => pure (answer, mounted.2) := by
    rw [FS.onceMounted, bind_assoc]
    refine congrArg _ (funext fun mounted => ?_)
    split
    · simp only [bind_assoc, pure_bind]
    · simp only [pure_bind]
  rw [hbind, Traced.bind_apply, hvalue]
  exact
    { answer := hperformed.value
      name := rfl
      holds := .inl ⟨hthere, hperformed.sub⟩
      outside := fun key hkey => (hperformed.below.outside _ rfl key hkey).trans (hmounts.outside key hkey)
      kept := fun _ hnone => Option.some_ne_none _ (hthere.symm.trans hnone) }

/-- A call that says no more than whether it succeeded. -/
theorem performs_finish {act : Traced σ Call Bool} {succeeded : Bool} (hposix : h.Posix tree)
    (hinstalled : Installed h dir) (hname : Proper fs.name_) (hdir : (tree s).entries dir = some .directory)
    (hholds : Holds (tree s) (dir ++ [fs.name_]) fs.mounted_ v)
    (hacts : ∀ s', (tree s').entries (dir ++ [fs.name_]) = some .directory →
      (tree s').sub (dir ++ [fs.name_]) = v → Acts tree (dir ++ [fs.name_]) s' (act s') succeeded v') :
    Performs tree (dir ++ [fs.name_]) s fs (FS.finish (FS.onceMounted h.toHost fs false act) s)
      (.done succeeded, v') :=
  performs_onceMounted (f := fun succeeded => pure (.done succeeded)) hposix hinstalled hname hdir hholds
    fun s' hroot hsub => (hacts s' hroot hsub).done

theorem exists_acts {path : Option Path} (hposix : h.Posix tree) (hinstalled : Installed h dir)
    (hname : Proper fs.name_) (hsub : (tree s).sub (dir ++ [fs.name_]) = v) :
    Acts tree (dir ++ [fs.name_]) s (pathExists h.toHost (fs.hostPath h.toHost (sanitizePath path)) s)
      (v.entries (target path)).isSome v := by
  rw [hinstalled.hostPath hname]
  refine acts_still ?_ rfl hsub
  rw [pathExists_value hposix (hinstalled.target_proper hname path), ← hsub]
  rfl

/-- What may be done to a path that names something, as `remove` and `rmdir` do. -/
theorem taken_acts (path : Option Path) (act : Path → Traced σ Call Bool)
    (taken : Volume → List Name → Option Volume) (hinstalled : Installed h dir) (hname : Proper fs.name_)
    (hsub : (tree s).sub (dir ++ [fs.name_]) = v)
    (heffect : ∀ key, (∀ part ∈ key, Proper part) →
      Storage.Effect tree s (act (absolute key) s).value (act (absolute key) s).state (taken (tree s) key))
    (hbelow : ∀ root key, key ≠ [] → Tree.Below root (tree s) (taken (tree s) (root ++ key)) (taken ((tree s).sub root) key))
    (htop : ∀ key v', taken v key = some v' → v'.entries [] = v.entries []) :
    let after := if target path = [] then none else taken v (target path)
    Acts tree (dir ++ [fs.name_]) s
      ((if sanitizePath path = [] then pure false
        else act (joinPath (fs.rootPath h.toHost) (sanitizePath path)) : Traced σ Call Bool) s)
      after.isSome (after.getD v) := by
  simp only [sanitizePath_eq_nil_iff]
  by_cases htarget : target path = []
  · rw [if_pos htarget, if_pos htarget]
    exact acts_still rfl rfl hsub
  · rw [if_neg htarget, if_neg htarget, hinstalled.joinPath_root hname htarget]
    have hplace := hbelow (dir ++ [fs.name_]) (target path) htarget
    rw [hsub] at hplace
    exact (heffect _ (hinstalled.target_proper hname path)).acts hplace hsub (htop _) rfl rfl

theorem mkdir_acts {path : Option Path} (hposix : h.Posix tree) (hinstalled : Installed h dir)
    (hname : Proper fs.name_) (hroot : (tree s).entries (dir ++ [fs.name_]) = some .directory)
    (hsub : (tree s).sub (dir ++ [fs.name_]) = v) :
    let made := if target path = [] then (false, v) else v.mkdirs (target path).inits
    Acts tree (dir ++ [fs.name_]) s
      ((if sanitizePath path = [] then pure false
        else makeDirectories h.toHost (joinPath (fs.rootPath h.toHost) (sanitizePath path)) : Traced σ Call Bool) s)
      made.1 made.2 := by
  simp only [sanitizePath_eq_nil_iff]
  by_cases htarget : target path = []
  · rw [if_pos htarget, if_pos htarget]
    exact acts_still rfl rfl hsub
  · rw [if_neg htarget, if_neg htarget, hinstalled.joinPath_root hname htarget]
    exact makeDirectories_acts hposix (by simp) hroot hsub (hinstalled.target_proper hname path)

theorem rename_acts {pathFrom pathTo : Option Path} (hposix : h.Posix tree) (hinstalled : Installed h dir)
    (hname : Proper fs.name_) (hroot : (tree s).entries (dir ++ [fs.name_]) = some .directory)
    (hsub : (tree s).sub (dir ++ [fs.name_]) = v) (hfrom : target pathFrom ≠ []) (hto : target pathTo ≠ []) :
    let made := v.mkdirs (target pathTo).dropLast.inits
    let after := if made.1 then made.2.rename (target pathFrom) (target pathTo) else none
    Acts tree (dir ++ [fs.name_]) s
      ((makeDirectories h.toHost (directoryName (joinPath (fs.rootPath h.toHost) (sanitizePath pathTo))) >>= fun made =>
        if made then
          h.callRename (joinPath (fs.rootPath h.toHost) (sanitizePath pathFrom))
            (joinPath (fs.rootPath h.toHost) (sanitizePath pathTo))
        else pure false) s)
      after.isSome (after.getD made.2) := by
  have hproper := hinstalled.target_proper hname pathTo
  rw [hinstalled.joinPath_root hname hfrom, hinstalled.joinPath_root hname hto]
  have hmade : Acts tree (dir ++ [fs.name_]) s _ _ _ := makeAbove_acts hposix (by simp) hto hroot hsub hproper
  refine hmade.then ?_
  generalize v.mkdirs (target pathTo).dropLast.inits = made at *
  obtain ⟨made, v'⟩ := made
  cases made with
  | false => exact acts_still rfl rfl hmade.sub
  | true =>
    have hsub' := hmade.sub
    generalize (makeDirectories h.toHost _ s).state = s' at hsub' ⊢
    have heffect := hposix.rename s' _ _ (hinstalled.target_proper hname pathFrom) hproper
    have hbelow : Tree.Below (dir ++ [fs.name_]) (tree s') _ (Tree.rename _ (target pathFrom) _) :=
      Tree.rename_below hto
    rw [hsub'] at hbelow
    exact heffect.acts hbelow hsub' (fun v' => Tree.rename_top) rfl rfl

theorem Volume.perform_mkdir (v : Volume) (path : Option Path) :
    Volume.perform longBits appendAtEnd v (.mkdir path) =
      let made := if target path = [] then (false, v) else v.mkdirs (target path).inits
      (.done made.1, made.2) := by
  rw [Volume.perform]
  split <;> rfl

theorem Volume.renamed_eq (v : Volume) (source target : List Name) :
    Volume.renamed v source target =
      let made := v.mkdirs target.dropLast.inits
      let after := if made.1 then made.2.rename source target else none
      (.done after.isSome, after.getD made.2) := by
  simp only [Volume.renamed]
  split <;> rfl

/-- A file system does what a volume does. -/
theorem perform_performs (longBits : Nat) (appendAtEnd : Bool) (hposix : h.Posix tree)
    (hinstalled : Installed h dir) (hname : Proper fs.name_) (hdir : (tree s).entries dir = some .directory) (hholds : Holds (tree s) (dir ++ [fs.name_]) fs.mounted_ v)
    (call : StoreCall) :
    Performs tree (dir ++ [fs.name_]) s fs (fs.perform h longBits appendAtEnd call s)
      (Volume.perform longBits appendAtEnd v call) := by
  cases call with
  | begin =>
    obtain ⟨hmade, hmounts⟩ := makeDirectories_root hposix hinstalled hname hdir hholds
    rw [FS.perform, FS.finish, FS.begin, if_neg hname.ne_nil, hinstalled.rootPath hname]
    simp only [Traced.bind_apply, Traced.pure_apply, hmade]
    exact ⟨rfl, rfl, .inl ⟨hmounts.directory, hmounts.sub⟩, hmounts.outside, fun _ => by simp [hmounts.directory]⟩
  | end_ =>
    refine ⟨rfl, rfl, ?_, fun _ _ => rfl, id⟩
    obtain hthere | ⟨hfree, -, hbare⟩ := hholds
    · exact .inl hthere
    · exact .inr ⟨hfree, rfl, hbare⟩
  | use path mode calls =>
    exact performs_onceMounted hposix hinstalled hname hdir hholds fun s' hroot hsub =>
      use_acts hposix hinstalled hname hroot hsub
  | existsPath path =>
    exact performs_finish hposix hinstalled hname hdir hholds fun s' _ hsub =>
      exists_acts hposix hinstalled hname hsub
  | remove path =>
    exact performs_finish hposix hinstalled hname hdir hholds fun s' _ hsub =>
      taken_acts path h.callRemove (fun t key => t.remove key) hinstalled hname hsub (hposix.remove s')
        (fun _ _ => Tree.remove_below) fun _ _ => Tree.remove_top
  | rmdir path =>
    exact performs_finish hposix hinstalled hname hdir hholds fun s' _ hsub =>
      taken_acts path h.callRmdir (fun t key => t.rmdir key) hinstalled hname hsub (hposix.rmdir s')
        (fun _ _ => Tree.rmdir_below) fun _ _ => Tree.rmdir_top
  | mkdir path =>
    rw [Volume.perform_mkdir]
    exact performs_finish hposix hinstalled hname hdir hholds fun s' hroot hsub =>
      mkdir_acts hposix hinstalled hname hroot hsub
  | rename pathFrom pathTo =>
    rw [Volume.perform]
    by_cases hgiven : target pathFrom = [] ∨ target pathTo = []
    · rw [if_pos hgiven]
      refine performs_finish hposix hinstalled hname hdir hholds fun s' _ hsub => ?_
      simp only [sanitizePath_eq_nil_iff, if_pos hgiven]
      exact acts_still rfl rfl hsub
    · obtain ⟨hfrom, hto⟩ := not_or.mp hgiven
      rw [if_neg hgiven, Volume.renamed_eq]
      refine performs_finish hposix hinstalled hname hdir hholds fun s' hroot hsub => ?_
      simp only [sanitizePath_eq_nil_iff, if_neg hgiven]
      exact rename_acts hposix hinstalled hname hroot hsub hfrom hto

end Performing

/-! ### The file systems of a program -/

/-- Each file system is the volume of its name, below the directory of the program, and
    outside of these there is what there was. -/
structure Represents {ι : Type*} (tree : σ → Volume) (dir : List Name) (names : ι → Name) (before : Volume)
    (st : (ι → FS) × σ) (vs : Name → Volume) : Prop where
  named : ∀ i, (st.1 i).name_ = names i
  directory : (tree st.2).entries dir = some .directory
  holds : ∀ i, Holds (tree st.2) (dir ++ [names i]) (st.1 i).mounted_ (vs (names i))
  outside : ∀ key, (∀ i, ¬dir ++ [names i] <+: key) → (tree st.2).entries key = before.entries key

section Machine

variable {ι : Type*} [DecidableEq ι] {h : Storage σ} {tree : σ → Volume} {dir : List Name} {names : ι → Name}
  {before : Volume} {longBits : Nat} {appendAtEnd : Bool}

theorem Holds.of_below {t t' : Volume} {root : List Name} {mounted_ : Bool} {v : Volume}
    (hbelow : ∀ key, t'.entries (root ++ key) = t.entries (root ++ key)) (hholds : Holds t root mounted_ v) :
    Holds t' root mounted_ v := by
  have hroot : t'.entries root = t.entries root := by simpa using hbelow []
  have hsub : t'.sub root = t.sub root := Tree.ext (funext hbelow)
  rwa [Holds, hroot, hsub]

/-- Another file system of the same name finds the volume as this one leaves it. -/
theorem Holds.again {t t' : Volume} {root : List Name} {mounted_ mounted_' : Bool} {v v' : Volume}
    (hholds : Holds t root mounted_ v) (hkept : t.entries root ≠ none → t'.entries root ≠ none)
    (hholds' : Holds t' root mounted_' v') : Holds t' root mounted_ v' := by
  obtain hthere | ⟨hfree, -, hbare⟩ := hholds'
  · exact .inl hthere
  · obtain ⟨hroot, -⟩ | ⟨-, hmounted, -⟩ := hholds
    · exact absurd hfree (hkept (by simp [hroot]))
    · exact .inr ⟨hfree, hmounted, hbare⟩

/-- Two directories in one are apart. -/
theorem not_prefix_of_ne {name other : Name} (hne : name ≠ other) (key : List Name) :
    ¬dir ++ [name] <+: dir ++ [other] ++ key := by
  rw [List.append_assoc, List.prefix_append_right_inj, List.singleton_append, List.cons_prefix_cons]
  exact fun hboth => hne hboth.1

theorem storeMachine_refines (longBits : Nat) (appendAtEnd : Bool) (before : Volume) (hposix : h.Posix tree)
    (hinstalled : Installed h dir) (hproper : ∀ i, Proper (names i)) :
    (storeMachine h longBits appendAtEnd).Refines (Volume.machine longBits appendAtEnd names)
      (Represents tree dir names before) := by
  rintro ⟨fss, s⟩ vs ⟨hnamed, hdirectory, hholds, houtside⟩ ⟨i, call⟩
  have hname : Proper (fss i).name_ := (hnamed i).symm ▸ hproper i
  have hroot : dir ++ [(fss i).name_] = dir ++ [names i] := congrArg (dir ++ [·]) (hnamed i)
  obtain ⟨hanswer, hname', hholds', hothers, hkept⟩ :=
    perform_performs longBits appendAtEnd hposix hinstalled hname hdirectory
      (hroot.symm ▸ hholds i) call
  rw [hroot] at hholds' hothers hkept
  refine ⟨hanswer, fun j => ?_, ?_, fun j => ?_, fun key hkey => ?_⟩
  · by_cases hij : j = i
    · subst hij
      simp only [storeMachine, Function.update_self]
      exact hname'.trans (hnamed j)
    · simp only [storeMachine, Function.update_of_ne hij]
      exact hnamed j
  · exact (hothers dir fun hlong => by simpa using hlong.length_le).trans hdirectory
  · by_cases hij : j = i
    · subst hij
      simp only [storeMachine, Volume.machine, Function.update_self]
      exact hholds'
    · simp only [storeMachine, Volume.machine, Function.update_of_ne hij]
      by_cases hsame : names j = names i
      · rw [hsame, Function.update_self]
        exact (hsame ▸ hholds j).again hkept hholds'
      · rw [Function.update_of_ne hsame]
        exact (hholds j).of_below fun key => hothers _ (not_prefix_of_ne (Ne.symm hsame) key)
  · exact (hothers key (hkey i)).trans (houtside key hkey)

end Machine

end HostArduino.fs
