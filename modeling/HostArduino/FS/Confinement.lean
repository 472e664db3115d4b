import HostArduino.FS.Directories

namespace HostArduino.fs

open Lib

variable {σ : Type}

/-- A path that another one passes through: it ends before a separator of the other, or
    where the other ends. -/
def LeadsTo (path goal : Path) : Prop :=
  ∃ rest, path ++ rest = goal ∧ rest.head?.all isSeparator = true

theorem LeadsTo.refl (path : Path) : LeadsTo path path :=
  ⟨[], List.append_nil path, rfl⟩

theorem LeadsTo.trans {path middle goal : Path} (hfirst : LeadsTo path middle)
    (hsecond : LeadsTo middle goal) : LeadsTo path goal := by
  obtain ⟨first, rfl, hfirst⟩ := hfirst
  obtain ⟨second, rfl, hsecond⟩ := hsecond
  refine ⟨first ++ second, (List.append_assoc path first second).symm, ?_⟩
  cases first with
  | nil => exact hsecond
  | cons ch first => exact hfirst

theorem leadsTo_of_mem_wayFrom {path rest current d : Path} (hpath : current ++ rest = path)
    (hd : d ∈ wayFrom path rest current) : LeadsTo d path := by
  have hcurrent : ∀ {current : Path}, d ∈ (if current = [] then [] else [current]) →
      d = current := by
    intro current hmem
    by_cases hnil : current = []
    · simp [hnil] at hmem
    · simpa [hnil] using hmem
  fun_induction wayFrom path rest current
  case case1 current =>
    obtain hmem | hmem := List.mem_append.mp hd
    · rw [hcurrent hmem]
      exact ⟨[], hpath, rfl⟩
    · rw [List.mem_singleton.mp hmem]
      exact LeadsTo.refl path
  case case2 ch rest current hseparator separators next ih =>
    obtain hmem | hmem := List.mem_append.mp hd
    · rw [hcurrent hmem]
      exact ⟨ch :: rest, hpath, by simpa using hseparator⟩
    · by_cases hnext : next = []
      · rw [if_pos hnext] at hmem
        rw [List.mem_singleton.mp hmem]
        exact LeadsTo.refl path
      · rw [if_neg hnext] at hmem
        refine ih ?_ hmem
        rw [← hpath, List.append_assoc, List.take_append_drop, List.append_assoc,
          List.takeWhile_append_dropWhile]
  case case3 ch rest current hseparator ih =>
    refine ih ?_ hd
    rw [← hpath, List.append_assoc, List.singleton_append]

theorem leadsTo_of_mem_way {path d : Path} (hd : d ∈ way path) : LeadsTo d path :=
  leadsTo_of_mem_wayFrom List.takeWhile_append_dropWhile hd

theorem directoryName_leadsTo {path : Path} (hseparator : path.any isSeparator = true) :
    LeadsTo (directoryName path) path := by
  rw [directoryName, if_pos hseparator]
  have hsplit : path = (path.reverse.dropWhile fun ch => !isSeparator ch).reverse ++
      (path.reverse.takeWhile fun ch => !isSeparator ch).reverse := by
    rw [← List.reverse_append, List.takeWhile_append_dropWhile, List.reverse_reverse]
  cases htail : path.reverse.dropWhile fun ch => !isSeparator ch with
  | nil =>
    obtain ⟨ch, hmem, hch⟩ := List.any_eq_true.mp hseparator
    have hnone := List.dropWhile_eq_nil_iff.mp htail ch (List.mem_reverse.mpr hmem)
    simp [hch] at hnone
  | cons ch tail =>
    have hch : isSeparator ch = true := by simpa using stops_of_dropWhile_eq_cons htail
    rw [htail] at hsplit
    refine ⟨ch :: (path.reverse.takeWhile fun ch => !isSeparator ch).reverse, ?_, by simpa using hch⟩
    conv_rhs => rw [hsplit]
    simp

/-- The file system's own directory, or what a sanitary path leads to from there. -/
def Confined (root path : Path) : Prop :=
  path = root ∨ ∃ below, Sanitary below ∧ path = joinPath root below

/-- A directory that has to be there before a confined path is. -/
def OnTheWay (root path : Path) : Prop :=
  ∃ goal, Confined root goal ∧ (LeadsTo path goal ∨ path = directoryName goal)

/-- A call that names confined paths only, or makes a directory on the way to one. -/
def Within (root : Path) : Call → Prop
  | .stat path | .opendir path => Confined root path
  | .fopen path _ _ | .remove path _ | .rmdir path _ => Confined root path
  | .rename pathFrom pathTo _ => Confined root pathFrom ∧ Confined root pathTo
  | .mkdir path _ => OnTheWay root path

theorem confined_joinPath {root : Path} {path : Option Path} (hclean : sanitizePath path ≠ []) :
    Confined root (joinPath root (sanitizePath path)) := by
  obtain hnil | hsanitary := sanitizePath_sanitary path
  · exact absurd hnil hclean
  · exact Or.inr ⟨_, hsanitary, rfl⟩

theorem confined_hostPath (h : Host σ) (fs : FS) (path : Option Path) :
    Confined (fs.rootPath h) (fs.hostPath h (sanitizePath path)) := by
  rw [FS.hostPath]
  by_cases hclean : sanitizePath path = []
  · rw [if_pos hclean]
    exact Or.inl rfl
  · rw [if_neg hclean]
    exact confined_joinPath hclean

section Calls

variable {h : Host σ} {root path : Path} {s : σ}

theorem within_makeDirectories (hpath : Confined root path) :
    Traced.Makes (Within root) (makeDirectories h path) s := by
  rw [makeDirectories_eq]
  exact makes_makeEach fun d hd _ => ⟨path, hpath, Or.inl (leadsTo_of_mem_way hd)⟩

/-- The directory of a confined path leads to it, or is the working directory. -/
theorem within_makeDirectories_directoryName (hpath : Confined root path) :
    Traced.Makes (Within root) (makeDirectories h (directoryName path)) s := by
  rw [makeDirectories_eq]
  refine makes_makeEach fun d hd _ => ⟨path, hpath, ?_⟩
  by_cases hseparator : path.any isSeparator = true
  · exact Or.inl ((leadsTo_of_mem_way hd).trans (directoryName_leadsTo hseparator))
  · have hname : directoryName path = [dot] := by
      rw [directoryName, if_neg hseparator]
    have hway : way [dot] = [[dot], [dot]] := by
      simp [way, wayFrom, isSeparator, dot, slash, backslash]
    rw [hname, hway] at hd
    rw [hname]
    exact Or.inr (by simpa using hd)

theorem within_callStat (hpath : Confined root path) :
    Traced.Makes (Within root) (h.callStat path) s :=
  Traced.makes_call.mpr hpath

theorem within_isDirectoryPath (hpath : Confined root path) :
    Traced.Makes (Within root) (isDirectoryPath h path) s :=
  Traced.makes_bind.mpr ⟨within_callStat hpath, Traced.makes_pure _⟩

theorem within_make {displayPath : Path} {mode : Option (List UInt8)} {directory : Bool}
    (hpath : Confined root path) :
    Traced.Makes (Within root) (File.make h path displayPath mode directory) s := by
  rw [File.make]
  cases directory with
  | true => exact Traced.makes_bind.mpr ⟨Traced.makes_call.mpr hpath, Traced.makes_pure _⟩
  | false =>
    refine Traced.makes_bind.mpr ⟨Traced.makes_call.mpr hpath, ?_⟩
    cases (h.callFopen path (mode.getD FILE_READ) s).value with
    | false => exact Traced.makes_pure _
    | true =>
      have hsize : Traced.Makes (Within root) (fileSize h path)
          (h.callFopen path (mode.getD FILE_READ) s).state :=
        Traced.makes_bind.mpr ⟨within_callStat hpath, Traced.makes_pure _⟩
      exact Traced.makes_bind.mpr ⟨hsize, Traced.makes_pure _⟩

end Calls

section Operations

variable {h : Host σ} {fs : FS} {s : σ}

theorem within_onceMounted {α : Type} {refusal : α} {act : Traced σ Call α}
    (hact : ∀ s, Traced.Makes (Within (fs.rootPath h)) act s) :
    Traced.Makes (Within (fs.rootPath h)) (fs.onceMounted h refusal act) s := by
  rw [FS.onceMounted, Traced.makes_bind]
  constructor
  · rw [FS.ensureMounted]
    cases fs.mounted_ with
    | true => exact Traced.makes_pure _
    | false =>
      rw [if_neg Bool.false_ne_true, FS.begin]
      by_cases hname : fs.name_ = []
      · rw [if_pos hname]
        exact Traced.makes_pure _
      · rw [if_neg hname]
        exact Traced.makes_bind.mpr ⟨within_makeDirectories (Or.inl rfl), Traced.makes_pure _⟩
  · cases (fs.ensureMounted h s).value.1 with
    | true => exact Traced.makes_bind.mpr ⟨hact _, Traced.makes_pure _⟩
    | false => exact Traced.makes_pure _

/-- A path that is not given up is passed on below the root. -/
theorem within_unless_given_up {path : Option Path} {act : Path → Traced σ Call Bool}
    (hact : ∀ hostPath s, Confined (fs.rootPath h) hostPath →
      Traced.Makes (Within (fs.rootPath h)) (act hostPath) s) :
    Traced.Makes (Within (fs.rootPath h))
      (if sanitizePath path = [] then pure false
        else act (joinPath (fs.rootPath h) (sanitizePath path))) s := by
  by_cases hclean : sanitizePath path = []
  · rw [if_pos hclean]
    exact Traced.makes_pure false
  · rw [if_neg hclean]
    exact hact _ s (confined_joinPath hclean)

theorem within_openMounted (path mode : Option (List UInt8)) :
    Traced.Makes (Within (fs.rootPath h)) (fs.openMounted h path mode) s := by
  have hpath := confined_hostPath h fs path
  simp only [FS.openMounted]
  split
  · exact Traced.makes_pure _
  · refine Traced.makes_bind.mpr ⟨?_, ?_⟩
    · rw [FS.makeParent]
      split
      · exact within_makeDirectories_directoryName hpath
      · exact Traced.makes_pure _
    · split
      · exact Traced.makes_bind.mpr ⟨within_isDirectoryPath hpath, within_make hpath⟩
      · exact Traced.makes_pure _

/-- The `File` that `open` yields is closed, or it is at a confined path. -/
theorem confined_openMounted (path mode : Option (List UInt8)) :
    (fs.openMounted h path mode s).value = File.default ∨
      Confined (fs.rootPath h) (fs.openMounted h path mode s).value.host_path_ := by
  have hpath := confined_hostPath h fs path
  simp only [FS.openMounted]
  split
  · exact Or.inl rfl
  · rw [Traced.bind_apply]
    dsimp only
    split
    · right
      rw [Traced.bind_apply, (File.madeFrom_make h _ _ mode _ _).host_path]
      exact hpath
    · exact Or.inl rfl

theorem within_toBool {file : File}
    (hfile : file = File.default ∨ Confined (fs.rootPath h) file.host_path_) :
    Traced.Makes (Within (fs.rootPath h)) (file.toBool h) s := by
  rw [File.toBool]
  split
  case isTrue hdirectory =>
    obtain rfl | hconfined := hfile
    · cases hdirectory
    · exact within_isDirectoryPath hconfined
  case isFalse => exact Traced.makes_pure _

theorem onceMounted_value {α : Type} (refusal : α) (act : Traced σ Call α) :
    (fs.onceMounted h refusal act s).value.1 =
      if (fs.ensureMounted h s).value.1 then (act (fs.ensureMounted h s).state).value
      else refusal := by
  rw [FS.onceMounted, Traced.bind_apply]
  cases (fs.ensureMounted h s).value.1 <;> rfl

/-- No operation names a path outside the file system, on any host and in any state. -/
theorem within_run (op : Operation) :
    Traced.Makes (Within (fs.rootPath h)) (op.run h fs) s := by
  cases op with
  | openFile path mode =>
    refine Traced.makes_bind.mpr ⟨within_onceMounted fun s => within_openMounted path mode, ?_⟩
    refine Traced.makes_bind.mpr ⟨within_toBool ?_, Traced.makes_pure _⟩
    rw [FS.open_, onceMounted_value]
    split
    · exact confined_openMounted path mode
    · exact Or.inl rfl
  | existsPath path =>
    refine within_onceMounted fun s => ?_
    exact Traced.makes_bind.mpr
      ⟨within_callStat (confined_hostPath h fs path), Traced.makes_pure _⟩
  | remove path =>
    refine within_onceMounted fun s => within_unless_given_up ?_
    exact fun hostPath s hpath => Traced.makes_call.mpr hpath
  | rename pathFrom pathTo =>
    refine within_onceMounted fun s => ?_
    dsimp only
    split
    case isTrue => exact Traced.makes_pure _
    case isFalse hclean =>
      obtain ⟨hfrom, hto⟩ := not_or.mp hclean
      refine Traced.makes_bind.mpr
        ⟨within_makeDirectories_directoryName (confined_joinPath hto), ?_⟩
      split
      · exact Traced.makes_call.mpr ⟨confined_joinPath hfrom, confined_joinPath hto⟩
      · exact Traced.makes_pure _
  | mkdir path =>
    refine within_onceMounted fun s => within_unless_given_up ?_
    exact fun hostPath s hpath => within_makeDirectories hpath
  | rmdir path =>
    refine within_onceMounted fun s => within_unless_given_up ?_
    exact fun hostPath s hpath => Traced.makes_call.mpr hpath

end Operations

/-- Whatever the path, a sanitized one has only proper components, it is what is left of
    the path's own, and it is sanitized already; and no operation of a file system names
    anything but its root and what such a path leads to below it. -/
theorem paths_confined (path : Option Path) (h : Host σ) (fs : FS) (op : Operation) (s : σ) :
    (sanitizePath path = [] ∨ Sanitary (sanitizePath path)) ∧
      (sanitizePath path =
        if [dot, dot] ∈ components (path.getD []) then []
        else [slash].intercalate (names (path.getD []))) ∧
      sanitizePath (some (slash :: sanitizePath path)) = sanitizePath path ∧
      Traced.Makes (Within (fs.rootPath h)) (op.run h fs) s :=
  ⟨sanitizePath_sanitary path, sanitizePath_eq path, sanitizePath_slash_cons path,
    within_run op⟩

end HostArduino.fs
