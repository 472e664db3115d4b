import HostArduino.Lib.Pieces

namespace HostArduino.fs

open Lib

/-- The bytes of a path, those of a C string before its NUL. -/
abbrev Path := List UInt8

def slash : UInt8 := 47

def backslash : UInt8 := 92

def dot : UInt8 := 46

def isSeparator (ch : UInt8) : Bool :=
  ch == slash || ch == backslash

def directoryName (path : Path) : Path :=
  if path.any isSeparator then
    ((path.reverse.dropWhile fun ch => !isSeparator ch).drop 1).reverse
  else [dot]

def baseName (path : Path) : Path :=
  (path.reverse.takeWhile fun ch => !isSeparator ch).reverse

def joinPath (base name : Path) : Path :=
  if base = [] then name
  else if name = [] then base
  else if base.getLast?.any isSeparator then base ++ name
  else base ++ [slash] ++ name

/-- The loop of `sanitizePath` over what is left of the input. -/
def sanitizeFrom : Path → Path → Path
  | [], out => out
  | ch :: rest, out =>
    let start := (ch :: rest).dropWhile isSeparator
    let part := start.takeWhile fun ch => !isSeparator ch
    let next := start.dropWhile fun ch => !isSeparator ch
    if part = [] ∨ part = [dot] then sanitizeFrom next out
    else if part = [dot, dot] then []
    else sanitizeFrom next (if out = [] then part else joinPath out part)
termination_by rest => rest.length
decreasing_by
  all_goals exact length_dropWhile_lt isSeparator (List.cons_ne_nil ch rest)

def sanitizePath (path : Option Path) : Path :=
  sanitizeFrom ((path.getD []).dropWhile isSeparator) []

/-- What stands between the separators of a path, the empty stretches too. -/
def components (path : Path) : List Path :=
  path.splitOnP isSeparator

/-- The components that name something: those that are neither empty nor `.`. -/
def names (path : Path) : List Path :=
  (components path).filter fun component => component ≠ [] ∧ component ≠ [dot]

/-- A component that stays where it is: a sanitized path is made of these. -/
structure Proper (component : Path) : Prop where
  ne_nil : component ≠ []
  ne_dot : component ≠ [dot]
  ne_dotdot : component ≠ [dot, dot]
  slash_free : slash ∉ component
  backslash_free : backslash ∉ component

theorem isSeparator_slash : isSeparator slash = true := rfl

theorem Proper.isPiece {component : Path} (hproper : Proper component) :
    IsPiece isSeparator component := by
  refine ⟨hproper.ne_nil, ?_⟩
  intro ch hch
  have hslash : ch ≠ slash := fun h => hproper.slash_free (h ▸ hch)
  have hbackslash : ch ≠ backslash := fun h => hproper.backslash_free (h ▸ hch)
  simp [isSeparator, hslash, hbackslash]

theorem names_eq_filter_pieces (path : Path) :
    names path = (pieces isSeparator path).filter (· ≠ [dot]) := by
  rw [names, pieces, List.filter_filter]
  refine List.filter_congr ?_
  intro component _
  cases component <;> simp

theorem dotdot_mem_components {path : Path} :
    [dot, dot] ∈ components path ↔ [dot, dot] ∈ pieces isSeparator path := by
  rw [mem_pieces, components]
  simp

theorem proper_of_mem_names {path component : Path} (hsafe : [dot, dot] ∉ components path)
    (hmem : component ∈ names path) : Proper component := by
  obtain ⟨hcomponent, hkeep⟩ := List.mem_filter.mp hmem
  obtain ⟨hne, hdot⟩ := of_decide_eq_true hkeep
  have hfree := separator_free_of_mem_splitOnP hcomponent
  refine ⟨hne, hdot, fun h => hsafe (h ▸ hcomponent), ?_, ?_⟩
  · intro hslash
    exact absurd (hfree slash hslash) (by decide)
  · intro hbackslash
    exact absurd (hfree backslash hbackslash) (by decide)

/-- A part is joined to what is out already by one slash. -/
theorem joinPath_intercalate {done : List Path} {part : Path}
    (hdone : ∀ piece ∈ done, IsPiece isSeparator piece) (hpart : part ≠ []) :
    (if [slash].intercalate done = [] then part else joinPath ([slash].intercalate done) part) =
      [slash].intercalate (done ++ [part]) := by
  by_cases hnil : done = []
  · subst hnil
    simp
  · have hne := intercalate_ne_nil (x := slash) hdone hnil
    have hlast : ([slash].intercalate done).getLast?.any isSeparator = false := by
      cases hlast : ([slash].intercalate done).getLast? with
      | none => rfl
      | some ch =>
        have hch := getLast?_intercalate hdone hlast
        simpa using hch
    rw [if_neg hne, joinPath, if_neg hne, if_neg hpart, hlast, intercalate_concat hnil]
    simp

/-- What a pass of the loop takes off the rest is at most one piece. -/
theorem pieces_scan (rest part next : Path)
    (hpart : part = (rest.dropWhile isSeparator).takeWhile fun ch => !isSeparator ch)
    (hnext : next = (rest.dropWhile isSeparator).dropWhile fun ch => !isSeparator ch) :
    pieces isSeparator rest = (if part = [] then [] else [part]) ++ pieces isSeparator next := by
  rw [← pieces_dropWhile isSeparator rest]
  by_cases hnil : part = []
  · have hsplit : part ++ next = rest.dropWhile isSeparator := by
      rw [hpart, hnext, List.takeWhile_append_dropWhile]
    rw [if_pos hnil, List.nil_append, ← hsplit, hnil, List.nil_append]
  · rw [if_neg hnil, List.singleton_append, hpart, hnext]
    exact pieces_eq_cons (hpart ▸ hnil)

/-- The loop adds what it keeps of the rest to the parts it has joined already, unless
    it meets a `..`. -/
theorem sanitizeFrom_eq (rest out : Path) (done : List Path)
    (hdone : ∀ piece ∈ done, IsPiece isSeparator piece) (hout : out = [slash].intercalate done) :
    sanitizeFrom rest out =
      if [dot, dot] ∈ pieces isSeparator rest then []
      else [slash].intercalate (done ++ (pieces isSeparator rest).filter (· ≠ [dot])) := by
  fun_induction sanitizeFrom rest out generalizing done
  case case1 out =>
    simp [hout]
  case case2 ch rest out start part next hskip ih =>
    have hscan := pieces_scan (ch :: rest) part next rfl rfl
    rw [ih done hdone hout, hscan]
    obtain hpart | hpart := hskip
    · rw [if_pos hpart, List.nil_append]
    · simp [hpart]
  case case3 ch rest out start part hskip hdotdot =>
    have hscan := pieces_scan (ch :: rest) part _ rfl rfl
    rw [hscan, hdotdot]
    simp
  case case4 ch rest out start part next hskip hdotdot ih =>
    obtain ⟨hpart, hdot⟩ := not_or.mp hskip
    have hscan := pieces_scan (ch :: rest) part next rfl rfl
    rw [if_neg hpart, List.singleton_append] at hscan
    have hmem := List.mem_cons_self (a := part) (l := pieces isSeparator next)
    rw [← hscan] at hmem
    have hgrown : ∀ piece ∈ done ++ [part], IsPiece isSeparator piece := by
      intro piece hpiece
      obtain hpiece | hpiece := List.mem_append.mp hpiece
      · exact hdone piece hpiece
      · exact List.mem_singleton.mp hpiece ▸ isPiece_of_mem_pieces hmem
    have hjoined : (if out = [] then part else joinPath out part) =
        [slash].intercalate (done ++ [part]) := by
      rw [hout]
      exact joinPath_intercalate hdone hpart
    have hnext := ih (done ++ [part]) hgrown hjoined
    rw [dite_eq_ite] at hnext
    rw [hnext, hscan, List.filter_cons_of_pos (by simpa using hdot)]
    simp [Ne.symm hdotdot]

/-- `sanitizePath` gives up on a path with a `..` in it, and joins the names of any other. -/
theorem sanitizePath_eq (path : Option Path) :
    sanitizePath path =
      if [dot, dot] ∈ components (path.getD []) then []
      else [slash].intercalate (names (path.getD [])) := by
  have hloop := sanitizeFrom_eq ((path.getD []).dropWhile isSeparator) [] [] (by simp) rfl
  rw [pieces_dropWhile] at hloop
  rw [sanitizePath, hloop, names_eq_filter_pieces, List.nil_append]
  simp only [dotdot_mem_components]

/-- A path that leads nowhere but down: proper components, one slash between any two. -/
def Sanitary (path : Path) : Prop :=
  ∃ parts : List Path, parts ≠ [] ∧ path = [slash].intercalate parts ∧ ∀ part ∈ parts, Proper part

theorem sanitizePath_sanitary (path : Option Path) :
    sanitizePath path = [] ∨ Sanitary (sanitizePath path) := by
  rw [sanitizePath_eq]
  by_cases hdotdot : [dot, dot] ∈ components (path.getD [])
  · exact Or.inl (if_pos hdotdot)
  · rw [if_neg hdotdot]
    by_cases hnames : names (path.getD []) = []
    · exact Or.inl (by rw [hnames, List.intercalate_nil])
    · exact Or.inr ⟨_, hnames, rfl, fun _ => proper_of_mem_names hdotdot⟩

/-- A sanitary path is kept as it is, with or without a slash before it. -/
theorem Sanitary.sanitizePath_eq {path : Path} (hpath : Sanitary path) :
    sanitizePath (some (slash :: path)) = path := by
  obtain ⟨parts, hne, rfl, hparts⟩ := hpath
  have hpieces : pieces isSeparator (slash :: [slash].intercalate parts) = parts := by
    rw [pieces_cons isSeparator_slash]
    exact pieces_intercalate isSeparator_slash fun part hpart => (hparts part hpart).isPiece
  have hsafe : [dot, dot] ∉ components (slash :: [slash].intercalate parts) := by
    rw [dotdot_mem_components, hpieces]
    exact fun hmem => (hparts _ hmem).ne_dotdot rfl
  have hnames : names (slash :: [slash].intercalate parts) = parts := by
    rw [names_eq_filter_pieces, hpieces]
    exact List.filter_eq_self.mpr fun part hpart => by simpa using (hparts part hpart).ne_dot
  rw [fs.sanitizePath_eq, Option.getD_some, if_neg hsafe, hnames]

theorem sanitizePath_slash_cons (path : Option Path) :
    sanitizePath (some (slash :: sanitizePath path)) = sanitizePath path := by
  obtain hnil | hsanitary := sanitizePath_sanitary path
  · rw [hnil, sanitizePath_eq]
    decide
  · exact hsanitary.sanitizePath_eq

end HostArduino.fs
