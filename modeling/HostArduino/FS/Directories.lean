import HostArduino.FS.FS

namespace HostArduino.fs

open Lib

variable {σ : Type}

def wayFrom (path : Path) : Path → Path → List Path
  | [], current => (if current = [] then [] else [current]) ++ [path]
  | ch :: rest, current =>
    if isSeparator ch then
      let separators := (ch :: rest).takeWhile isSeparator
      let next := (ch :: rest).dropWhile isSeparator
      (if current = [] then [] else [current]) ++
        if next = [] then [path]
        else wayFrom path (next.drop 1) (current ++ separators ++ next.take 1)
    else wayFrom path rest (current ++ [ch])
termination_by rest => rest.length
decreasing_by
  · exact length_drop_dropWhile_lt ch rest
  · exact Nat.lt_succ_self rest.length

/-- The directories that lead to a path, the outermost first, and the path itself. -/
def way (path : Path) : List Path :=
  wayFrom path (path.dropWhile isSeparator) (path.takeWhile isSeparator)

/-- Makes directories one after the other, up to the first that cannot be made. -/
def makeEach (h : Host σ) : List Path → Traced σ Call Bool
  | [] => pure true
  | path :: paths => do
    let made ← makeDirectory h path
    if made then makeEach h paths else pure false

theorem makeEach_append (h : Host σ) (ds es : List Path) :
    makeEach h (ds ++ es) =
      makeEach h ds >>= fun made => if made then makeEach h es else pure false := by
  induction ds with
  | nil => simp [makeEach]
  | cons d ds ih =>
    rw [List.cons_append, makeEach, makeEach, bind_assoc, ih]
    refine congrArg (makeDirectory h d >>= ·) (funext fun made => ?_)
    cases made <;> simp

theorem makeEach_singleton (h : Host σ) (path : Path) :
    makeEach h [path] = makeDirectory h path :=
  Traced.bind_ite_pure (makeDirectory h path)

theorem makeEach_current (h : Host σ) (current : Path) :
    makeEach h (if current = [] then [] else [current]) = makeCurrent h current := by
  by_cases hcurrent : current = []
  · rw [if_pos hcurrent, makeCurrent, if_pos hcurrent, makeEach]
  · rw [if_neg hcurrent, makeCurrent, if_neg hcurrent, makeEach_singleton]

theorem makeDirectoriesFrom_eq (h : Host σ) (path rest current : Path) :
    makeDirectoriesFrom h path rest current = makeEach h (wayFrom path rest current) := by
  fun_induction wayFrom path rest current
  case case1 current =>
    rw [makeDirectoriesFrom, makeEach_append, makeEach_current, makeEach_singleton]
  case case2 ch rest current hseparator separators next ih =>
    rw [makeDirectoriesFrom, if_pos hseparator, makeEach_append, makeEach_current]
    simp only [ih, apply_ite (makeEach h), makeEach_singleton, next, separators]
  case case3 ch rest current hseparator ih =>
    rw [makeDirectoriesFrom, if_neg hseparator, ih]

/-- `makeDirectories` makes the directories on the way, in order, and then the path. -/
theorem makeDirectories_eq (h : Host σ) (path : Path) :
    makeDirectories h path = makeEach h (way path) := by
  by_cases hpath : path = []
  · subst hpath
    rw [makeDirectories, if_pos rfl, way, List.dropWhile_nil, List.takeWhile_nil, wayFrom,
      if_pos rfl, List.nil_append, makeEach_singleton, makeDirectory, if_pos rfl]
  · rw [makeDirectories, if_neg hpath, makeDirectoriesFrom_eq]
    rfl

theorem makes_makeDirectory {P : Call → Prop} {h : Host σ} {path : Path} {s : σ}
    (hcall : ∀ result, P (.mkdir path result)) : Traced.Makes P (makeDirectory h path) s := by
  rw [makeDirectory]
  by_cases hpath : path = []
  · rw [if_pos hpath]
    exact Traced.makes_pure false
  · rw [if_neg hpath, Traced.makes_bind]
    exact ⟨Traced.makes_call.mpr (hcall _), Traced.makes_pure _⟩

theorem makes_makeEach {P : Call → Prop} {h : Host σ} {paths : List Path} {s : σ}
    (hcalls : ∀ path ∈ paths, ∀ result, P (.mkdir path result)) :
    Traced.Makes P (makeEach h paths) s := by
  induction paths generalizing s with
  | nil => exact Traced.makes_pure true
  | cons path paths ih =>
    have hrest := fun other hother => hcalls other (List.mem_cons_of_mem path hother)
    rw [makeEach, Traced.makes_bind]
    refine ⟨makes_makeDirectory (hcalls path List.mem_cons_self), ?_⟩
    cases (makeDirectory h path s).value with
    | false => exact Traced.makes_pure false
    | true => exact ih hrest

/-- A call that leaves the host's files and directories as they are. -/
def Quiet (call : Call) : Prop :=
  call.changes = false

/-- What `mkdir` says of a path; it is not asked about an empty one. -/
def mkdirAnswer (h : Host σ) (s : σ) (path : Path) : MkdirResult :=
  if path = [] then .failed else (h.mkdir s path).1

/-- What `mkdir` says of the first path where it does not find a directory already;
    `present` where it finds them all. -/
def survey (h : Host σ) (s : σ) : List Path → MkdirResult
  | [] => .present
  | path :: paths =>
    if mkdirAnswer h s path = .present then survey h s paths else mkdirAnswer h s path

/-- What a computation that makes directories does after a survey of them: `present` and it
    succeeds, `failed` and it fails, in both cases leaving the host as it is; `created` and
    it does not leave it so. -/
structure Surveyed (m : Traced σ Call Bool) (s : σ) (answer : MkdirResult) : Prop where
  settles : answer ≠ .created → Traced.Settles Quiet m s (answer == .present)
  changes : answer = .created → ¬ Traced.Makes Quiet m s

theorem surveyed_pure_true (s : σ) : Surveyed (pure true) s .present :=
  ⟨fun _ => Traced.Settles.pure true, nofun⟩

theorem surveyed_pure_false (s : σ) : Surveyed (pure false) s .failed :=
  ⟨fun _ => Traced.Settles.pure false, nofun⟩

/-- What comes second counts only where the first finds all that it needs. -/
theorem Surveyed.bind {m next : Traced σ Call Bool} {s : σ} {first second : MkdirResult}
    (hm : Surveyed m s first) (hnext : Surveyed next s second) :
    Surveyed (m >>= fun made => if made then next else pure false) s
      (if first = .present then second else first) := by
  by_cases hpresent : first = .present
  · subst hpresent
    have hfirst : Traced.Settles Quiet m s true := hm.settles (by simp)
    rw [if_pos rfl]
    constructor
    · exact fun hsecond => hfirst.bind (hnext.settles hsecond)
    · exact fun hsecond hquiet => hnext.changes hsecond (hfirst.makes_bind.mp hquiet)
  · rw [if_neg hpresent]
    constructor
    · intro hfirst
      have hsettles := hm.settles hfirst
      rw [beq_eq_false_iff_ne.mpr hpresent] at hsettles ⊢
      exact hsettles.bind (Traced.Settles.pure false)
    · exact fun hfirst hquiet => hm.changes hfirst (Traced.makes_bind.mp hquiet).1

theorem surveyed_callMkdir {h : Host σ} {s : σ} {path : Path} :
    Surveyed (h.callMkdir path >>= fun result => pure (result != .failed)) s
      (h.mkdir s path).1 := by
  constructor
  · intro hanswer
    have hcall : Traced.Settles Quiet (h.callMkdir path) s (h.mkdir s path).1 := by
      refine ⟨rfl, h.mkdir_unchanged s path hanswer, Traced.makes_call.mpr ?_⟩
      simpa [Quiet, Call.changes] using hanswer
    refine hcall.bind ⟨?_, rfl, Traced.makes_pure _⟩
    cases hresult : (h.mkdir s path).1 with
    | created => exact absurd hresult hanswer
    | present => rfl
    | failed => rfl
  · intro hanswer
    rw [Traced.makes_bind, Host.callMkdir, Traced.makes_call]
    simp [Quiet, Call.changes, hanswer]

theorem makeDirectory_surveyed (h : Host σ) (s : σ) (path : Path) :
    Surveyed (makeDirectory h path) s (mkdirAnswer h s path) := by
  rw [makeDirectory, mkdirAnswer]
  by_cases hpath : path = []
  · rw [if_pos hpath, if_pos hpath]
    exact surveyed_pure_false s
  · rw [if_neg hpath, if_neg hpath]
    exact surveyed_callMkdir

theorem makeEach_surveyed (h : Host σ) (s : σ) (paths : List Path) :
    Surveyed (makeEach h paths) s (survey h s paths) := by
  induction paths with
  | nil => exact surveyed_pure_true s
  | cons path paths ih =>
    rw [makeEach, survey]
    exact (makeDirectory_surveyed h s path).bind ih

theorem makeDirectories_surveyed (h : Host σ) (s : σ) (path : Path) :
    Surveyed (makeDirectories h path) s (survey h s (way path)) := by
  rw [makeDirectories_eq]
  exact makeEach_surveyed h s (way path)

end HostArduino.fs
