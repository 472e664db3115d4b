import HostArduino.FS.Copy
import HostArduino.Lib.Descriptors

namespace HostArduino.fs

open Lib

/-- A `File` with the numbers of the streams that `handle_` and `dir_` point to, where they
    are not null. -/
structure FileSlot where
  object : FileObject
  handle : Nat
  dir : Nat

namespace FileSlot

def stream (f : FileSlot) : Option Nat :=
  if f.object.file.handle_ then some f.handle else none

def directory (f : FileSlot) : Option Nat :=
  if f.object.file.dir_ then some f.dir else none

def default : FileSlot where
  object := { file := .default, stream := .fopen .r false [], entries := [] }
  handle := 0
  dir := 0

/-- What a move leaves of the other file. -/
def moved (f : FileSlot) : FileSlot :=
  { f with
    object := { f.object with
      file := { f.object.file with
        handle_ := false, dir_ := false, directory_ := false, size_ := 0, position_ := 0 } } }

end FileSlot

/-- The files of a program by name, the file system they are opened in, and the streams that
    are open. -/
structure Streams (ι σ : Type) where
  files : ι → Option FileSlot
  root : FS
  system : σ
  table : Descriptors

/-- What happens to files. An event that may open a stream says which one the system would
    give out and what would be behind it. -/
inductive FileEvent (ι : Type) where
  | construct (n : ι)
  | openFile (n : ι) (path mode : Option (List UInt8)) (stream : Stdio.Stream)
      (entries : List { name : Name // name ≠ [] }) (fd : Nat)
  | openNextFile (d n : ι) (mode : Option (List UInt8)) (stream : Stdio.Stream)
      (entries : List { name : Name // name ≠ [] }) (fd : Nat)
  | copyConstruct (src dst : ι) (found : Option (List UInt8)) (fd : Nat)
  | moveConstruct (src dst : ι)
  | copyAssign (dst src : ι) (found : Option (List UInt8)) (fd : Nat)
  | moveAssign (dst src : ι)
  | call (n : ι) (c : FileCall)
  | close (n : ι)
  | destroy (n : ι)

section Streams

variable {ι σ : Type} [DecidableEq ι] (h : Host σ) (longBits : Nat)

namespace Streams

def none (root : FS) (system : σ) : Streams ι σ where
  files _ := .none
  root
  system
  table := .none

def place (s : Streams ι σ) (n : ι) (f : Option FileSlot) (table : Descriptors) : Streams ι σ :=
  { s with files := Function.update s.files n f, table }

/-- `close`, by what it does to the streams. -/
def closing (table : Descriptors) (f : FileSlot) : Descriptors :=
  (table.closeAny f.stream).closeAny f.directory

/-- A file that was just opened under a new name. -/
def opening (s : Streams ι σ) (n : ι) (object : FileObject) (fd : Nat) : Option (Streams ι σ) :=
  let f : FileSlot := { object, handle := fd, dir := fd }
  if (s.files n).isNone ∧ fd ∉ s.table.opened then
    some (s.place n (some f) ((s.table.openAny f.stream).openAny f.directory))
  else .none

def step (s : Streams ι σ) : FileEvent ι → Option (Streams ι σ)
  | .construct n => if (s.files n).isNone then some (s.place n (some .default) s.table) else .none
  | .openFile n path mode stream entries fd =>
    let opened := s.root.open_ h path mode s.system
    { s with root := opened.value.2, system := opened.state }.opening n
      { file := opened.value.1, stream, entries } fd
  | .openNextFile d n mode stream entries fd =>
    match s.files d with
    | .none => .none
    | some f =>
      let opened := f.object.openNextFile h mode s.system
      { s.place d (some { f with object := opened.value.2 }) s.table with system := opened.state }.opening n
        { file := opened.value.1, stream, entries } fd
  | .copyConstruct src dst found fd =>
    match s.files src with
    | .none => .none
    | some f => s.opening dst (f.object.copyConstruct longBits found) fd
  | .moveConstruct src dst =>
    match s.files src with
    | .none => .none
    | some f =>
      if (s.files dst).isNone then some ((s.place dst (some f) s.table).place src (some f.moved) s.table)
      else .none
  | .copyAssign dst src found fd =>
    match s.files dst, s.files src with
    | some g, some f =>
      if dst = src then some s
      else
        ({ s with table := closing s.table g }.place dst .none (closing s.table g)).opening dst
          (FileObject.copyAssign longBits g.object f.object found) fd
    | _, _ => .none
  | .moveAssign dst src =>
    match s.files dst, s.files src with
    | some g, some f =>
      if dst = src then some s
      else some ((s.place dst (some f) (closing s.table g)).place src (some f.moved) (closing s.table g))
    | _, _ => .none
  | .call n c =>
    match s.files n with
    | .none => .none
    | some f =>
      some (s.place n (some { f with object := { f.object with toOpenFile := f.object.call longBits c } }) s.table)
  | .close n =>
    match s.files n with
    | .none => .none
    | some f => some (s.place n (some { f with object := f.object.close }) (closing s.table f))
  | .destroy n =>
    match s.files n with
    | .none => .none
    | some f => some (s.place n .none (closing s.table f))

def machine : EventMachine (Streams ι σ) (FileEvent ι) where
  step := step h longBits

/-- Which file holds which stream, by its name and which of its two pointers it is. -/
def own (s : Streams ι σ) (b : ι × Bool) : Option Nat :=
  (s.files b.1).bind fun f => if b.2 then f.directory else f.stream

end Streams

/-- A file has at most one of the two kinds of stream. -/
def FileObject.Single (o : FileObject) : Prop :=
  o.file.handle_ = true → o.file.dir_ = false

theorem single_make (hostPath displayPath : Path) (mode : Option (List UInt8)) (directory : Bool) (system : σ) :
    (File.make h hostPath displayPath mode directory system).value.handle_ = true →
      (File.make h hostPath displayPath mode directory system).value.dir_ = false := by
  rw [File.make]
  cases directory with
  | true => exact fun hhandle => absurd hhandle Bool.false_ne_true
  | false =>
    rw [if_neg Bool.false_ne_true, Traced.bind_apply]
    cases (h.callFopen hostPath (mode.getD FILE_READ) system).value with
    | false => exact fun hhandle => absurd hhandle Bool.false_ne_true
    | true => exact fun _ => rfl

theorem single_open (root : FS) (path mode : Option (List UInt8)) (system : σ) :
    (root.open_ h path mode system).value.1.handle_ = true → (root.open_ h path mode system).value.1.dir_ = false := by
  have hdefault : File.default.handle_ = true → File.default.dir_ = false := nofun
  simp only [FS.open_, FS.onceMounted, Traced.bind_apply]
  split
  · simp only [Traced.bind_apply, Traced.pure_apply, FS.openMounted]
    split
    · exact hdefault
    · simp only [Traced.bind_apply]
      split
      · simp only [Traced.bind_apply]
        exact single_make h _ _ _ _ _
      · exact hdefault
  · exact hdefault

theorem single_openNextFile (o : FileObject) (mode : Option (List UInt8)) (system : σ) :
    (o.openNextFile h mode system).value.1.handle_ = true →
      (o.openNextFile h mode system).value.1.dir_ = false := by
  have hdefault : File.default.handle_ = true → File.default.dir_ = false := nofun
  unfold FileObject.openNextFile
  split
  · exact hdefault
  · split
    · exact hdefault
    · simp only
      split
      · exact hdefault
      · simp only [Traced.bind_apply, Traced.pure_apply]
        exact single_make h _ _ _ _ _

/-- `openNextFile` leaves the streams of the directory as they are. -/
theorem file_openNextFile (o : FileObject) (mode : Option (List UInt8)) (system : σ) :
    (o.openNextFile h mode system).value.2.file = o.file := by
  unfold FileObject.openNextFile
  split
  · rfl
  · split
    · rfl
    · simp only
      split <;> rfl

theorem single_reopen {o : FileObject} (hdir : o.file.dir_ = false) (handle : Bool) (found : Option (List UInt8)) :
    (FileObject.reopen longBits o handle found).Single := by
  unfold FileObject.reopen
  split
  · cases found with
    | none => exact fun _ => hdir
    | some content => exact fun _ => hdir
  · exact fun _ => hdir

namespace Streams

variable {h} {longBits} {s s' : Streams ι σ}

/-- What is put under a name shows for its two pointers alone. -/
theorem own_place (n : ι) (f : Option FileSlot) (table : Descriptors) (b : ι × Bool) :
    (s.place n f table).own b = Function.update
      (Function.update s.own (n, false) (f.bind FileSlot.stream)) (n, true) (f.bind FileSlot.directory) b := by
  obtain ⟨m, pointer⟩ := b
  by_cases hm : m = n
  · subst hm
    have hfile : (s.place m f table).own (m, pointer) =
        f.bind fun f => if pointer then f.directory else f.stream := by
      simp only [own, place, Function.update_self]
    rw [hfile]
    cases pointer with
    | true => rw [Function.update_self]; rfl
    | false => rw [Function.update_of_ne (by simp), Function.update_self]; rfl
  · have hsame : (s.place n f table).own (m, pointer) = s.own (m, pointer) := by
      simp only [own, place, Function.update_of_ne hm]
    rw [hsame, Function.update_of_ne (by simp [hm]), Function.update_of_ne (by simp [hm])]

/-- Every stream that is open has one file that holds it. -/
def Sound (s : Streams ι σ) : Prop :=
  Owned s.own s.table

omit [DecidableEq ι] in
theorem sound_none {root : FS} {system : σ} : (none root system : Streams ι σ).Sound :=
  Owned.none.congr fun _ => rfl

omit [DecidableEq ι] in
theorem Sound.environment (hs : s.Sound) (root : FS) (system : σ) : { s with root, system }.Sound :=
  hs

/-- A file that keeps both its streams may change otherwise. -/
theorem Sound.keep (hs : s.Sound) {n : ι} {f g : FileSlot} (hf : s.files n = some f)
    (hstream : g.stream = f.stream) (hdirectory : g.directory = f.directory) :
    (s.place n (some g) s.table).Sound := by
  refine Owned.congr hs fun b => ?_
  rw [own_place, Option.bind_some, Option.bind_some, hstream, hdirectory]
  have hfalse : s.own (n, false) = f.stream := by simp [own, hf]
  have htrue : s.own (n, true) = f.directory := by simp [own, hf]
  rw [← hfalse, Function.update_eq_self, ← htrue, Function.update_eq_self]

/-- A file that gives up both its streams has them closed. -/
theorem Sound.closing (hs : s.Sound) {n : ι} {f : FileSlot} (hf : s.files n = some f) {g : Option FileSlot}
    (hstream : g.bind FileSlot.stream = .none) (hdirectory : g.bind FileSlot.directory = .none) :
    (s.place n g (closing s.table f)).Sound := by
  have hfalse : s.own (n, false) = f.stream := by simp [own, hf]
  have htrue : Function.update s.own (n, false) .none (n, true) = f.directory := by
    rw [Function.update_of_ne (by simp)]
    simp [own, hf]
  have hfirst := Owned.release hs (n, false)
  rw [hfalse] at hfirst
  have hsecond := hfirst.release (n, true)
  rw [htrue] at hsecond
  refine hsecond.congr fun b => ?_
  rw [own_place, hstream, hdirectory]

theorem Sound.opening (hs : s.Sound) {n : ι} {object : FileObject} (hsingle : object.Single) {fd : Nat}
    (hstep : s.opening n object fd = some s') : s'.Sound := by
  unfold Streams.opening at hstep
  split at hstep
  · rename_i henabled
    obtain ⟨hnew, hclosed⟩ := henabled
    obtain rfl := Option.some.inj hstep
    have hnone : ∀ pointer, s.own (n, pointer) = .none := by
      intro pointer
      simp [own, Option.isNone_iff_eq_none.mp hnew]
    have hfresh : s.table.Fresh (if object.file.handle_ then some fd else .none) := by
      rintro m hm
      split at hm
      · exact Option.some.inj hm ▸ hclosed
      · cases hm
    have hfirst := Owned.acquire hs (hnone false) hfresh
    have hnone' : Function.update s.own (n, false) (if object.file.handle_ then some fd else .none) (n, true) =
        .none := by
      rw [Function.update_of_ne (by simp), hnone]
    have hfresh' : (s.table.openAny (if object.file.handle_ then some fd else .none)).Fresh
        (if object.file.dir_ then some fd else .none) := by
      rintro m hm
      split at hm
      · rename_i hdir
        cases hhandle : object.file.handle_ with
        | true => rw [hsingle hhandle] at hdir; cases hdir
        | false => exact Option.some.inj hm ▸ hclosed
      · cases hm
    exact (hfirst.acquire hnone' hfresh').congr (own_place n (some _) _)
  · cases hstep

/-- Both streams of one file become those of another that has none. -/
theorem Sound.move (hs : s.Sound) {src dst : ι} (hne : dst ≠ src) {f : FileSlot} (hf : s.files src = some f)
    (hstream : s.own (dst, false) = .none) (hdirectory : s.own (dst, true) = .none) :
    ((s.place dst (some f) s.table).place src (some f.moved) s.table).Sound := by
  have hfalse : s.own (src, false) = f.stream := by simp [own, hf]
  have htrue : s.own (src, true) = f.directory := by simp [own, hf]
  have hfirst := Owned.hand (b := (src, false)) hs hstream
  have hsecond := Owned.hand (b := (src, true)) (c := (dst, true)) hfirst (by simpa [hne] using hdirectory)
  refine hsecond.congr fun ⟨m, pointer⟩ => ?_
  by_cases hsrc : m = src
  · subst hsrc
    have hmoved : ((s.place dst (some f) s.table).place m (some f.moved) s.table).own (m, pointer) = .none := by
      cases pointer <;> simp [own, place, FileSlot.moved, FileSlot.stream, FileSlot.directory]
    rw [hmoved]
    cases pointer <;> simp [Ne.symm hne]
  · have hkept : ((s.place dst (some f) s.table).place src (some f.moved) s.table).own (m, pointer) =
        (s.place dst (some f) s.table).own (m, pointer) := by
      simp [own, place, hsrc]
    rw [hkept, own_place]
    cases pointer <;> simp [Function.update_apply, hsrc, hfalse, htrue, Ne.symm hne]

omit [DecidableEq ι] in
theorem own_of_none {n : ι} (hn : s.files n = .none) (pointer : Bool) : s.own (n, pointer) = .none := by
  simp [own, hn]

theorem files_place (n : ι) (f : Option FileSlot) (table : Descriptors) (m : ι) :
    (s.place n f table).files m = if m = n then f else s.files m :=
  Function.update_apply ..

theorem Sound.step (hs : s.Sound) {e : FileEvent ι} (hstep : s.step h longBits e = some s') : s'.Sound := by
  cases e with
  | construct n =>
    simp only [Streams.step] at hstep
    split at hstep
    · rename_i hnew
      obtain rfl := Option.some.inj hstep
      refine Owned.congr hs fun b => ?_
      rw [own_place, Option.bind_some, Option.bind_some]
      have hnone := own_of_none (s := s) (Option.isNone_iff_eq_none.mp hnew)
      have hstream : FileSlot.default.stream = s.own (n, false) := (hnone false).symm
      have hdirectory : FileSlot.default.directory = s.own (n, true) := (hnone true).symm
      rw [hstream, Function.update_eq_self, hdirectory, Function.update_eq_self]
    · cases hstep
  | openFile n path mode stream entries fd =>
    have hsingle : FileObject.Single { file := (s.root.open_ h path mode s.system).value.1, stream, entries } :=
      single_open h s.root path mode s.system
    exact (hs.environment _ _).opening hsingle hstep
  | openNextFile d n mode stream entries fd =>
    simp only [Streams.step] at hstep
    split at hstep
    · cases hstep
    · rename_i f hf
      have hfile := file_openNextFile h f.object mode s.system
      have hkept := hs.keep hf (g := { f with object := (f.object.openNextFile h mode s.system).value.2 })
        (by simp only [FileSlot.stream, hfile]) (by simp only [FileSlot.directory, hfile])
      have hsingle : FileObject.Single
          { file := (f.object.openNextFile h mode s.system).value.1, stream, entries } :=
        single_openNextFile h f.object mode s.system
      exact (hkept.environment _ _).opening hsingle hstep
  | copyConstruct src dst found fd =>
    simp only [Streams.step] at hstep
    split at hstep
    · cases hstep
    · exact hs.opening (single_reopen longBits rfl _ _) hstep
  | moveConstruct src dst =>
    simp only [Streams.step] at hstep
    split at hstep
    · cases hstep
    · rename_i f hf
      split at hstep
      · rename_i hnew
        obtain rfl := Option.some.inj hstep
        have hnone := Option.isNone_iff_eq_none.mp hnew
        refine hs.move ?_ hf (own_of_none hnone false) (own_of_none hnone true)
        rintro rfl
        rw [hf] at hnone
        cases hnone
      · cases hstep
  | copyAssign dst src found fd =>
    simp only [Streams.step] at hstep
    split at hstep
    · rename_i g f hg hf
      split at hstep
      · obtain rfl := Option.some.inj hstep
        exact hs
      · have hclosed := hs.closing hg (g := .none) rfl rfl
        exact Sound.opening hclosed (single_reopen longBits rfl _ _) hstep
    · cases hstep
  | moveAssign dst src =>
    simp only [Streams.step] at hstep
    split at hstep
    · rename_i g f hg hf
      split at hstep
      · obtain rfl := Option.some.inj hstep
        exact hs
      · rename_i hne
        obtain rfl := Option.some.inj hstep
        have hclosed := hs.closing hg (g := .none) rfl rfl
        have hdst : (s.place dst .none (Streams.closing s.table g)).files dst = .none := by
          rw [files_place, if_pos rfl]
        have hsrc : (s.place dst .none (Streams.closing s.table g)).files src = some f := by
          rw [files_place, if_neg (Ne.symm hne), hf]
        have hmoved := Sound.move hclosed hne hsrc (own_of_none hdst false) (own_of_none hdst true)
        simpa [place] using hmoved
    · cases hstep
  | call n c =>
    simp only [Streams.step] at hstep
    split at hstep
    · cases hstep
    · rename_i f hf
      obtain rfl := Option.some.inj hstep
      obtain ⟨⟨_, _, hfile⟩, -⟩ := call_frame f.object.toOpenFile longBits c
      refine hs.keep hf ?_ ?_
      · simp only [FileSlot.stream, hfile]
      · simp only [FileSlot.directory, hfile]
  | close n =>
    simp only [Streams.step] at hstep
    split at hstep
    · cases hstep
    · rename_i f hf
      obtain rfl := Option.some.inj hstep
      exact hs.closing hf rfl rfl
  | destroy n =>
    simp only [Streams.step] at hstep
    split at hstep
    · cases hstep
    · rename_i f hf
      obtain rfl := Option.some.inj hstep
      exact hs.closing hf rfl rfl

end Streams

/-- However files are opened, copied, moved, assigned, to themselves too, used, closed and
    destroyed next to each other, no stream is closed that is not open, every open one is
    held by one pointer of one file, and all that a pointer holds is open. So none is left
    open once all files are gone. -/
theorem file_streams_owned {root : FS} {system : σ} {events : List (FileEvent ι)} :
    ∀ s ∈ (Streams.machine h longBits).visited (.none root system : Streams ι σ) events,
      s.table.misused = false ∧ (∀ fd, fd ∈ s.table.opened ↔ ∃! b, s.own b = some fd) ∧
        ((∀ n, s.files n = none) → s.table.opened = ∅) := by
  intro s hs
  have hsound : s.Sound := Lib.EventMachine.visited_invariant (P := Streams.Sound)
    (fun _ _ _ hbefore hstep => hbefore.step hstep) Streams.sound_none s hs
  refine ⟨hsound.misused, fun fd => ?_, fun hgone => hsound.opened_eq_empty fun b => ?_⟩
  · rw [hsound.opened]
    exact ⟨fun ⟨b, hb⟩ => ⟨b, hb, fun c hc => hsound.unique c b fd hc hb⟩, fun ⟨b, hb, _⟩ => ⟨b, hb⟩⟩
  · exact Streams.own_of_none (hgone b.1) b.2

end Streams

/-- A file is opened, copied, and the copy moved over it, before both go. -/
def copiedAndMoved : List (FileEvent Bool) :=
  [.openFile true (some [slash, 97]) none (.fopen .r false [65]) [] 3, .copyConstruct true false (some [65]) 4,
    .moveAssign true false, .destroy true, .destroy false]

theorem file_streams_owned_moved :
    ∃ s ∈ (Streams.machine openHost 64).visited (.none ⟨[97], true⟩ ()) copiedAndMoved,
      s.table.misused = false ∧ s.table.opened = ∅ := by
  have hruns : ((Streams.machine openHost 64).run (.none ⟨[97], true⟩ ()) copiedAndMoved).isSome = true := by
    decide +kernel
  have hgone : ∀ n, (((Streams.machine openHost 64).run (.none ⟨[97], true⟩ ()) copiedAndMoved).bind
      fun s => s.files n).isNone = true := by
    decide +kernel
  obtain ⟨s, hs⟩ := Option.isSome_iff_exists.mp hruns
  rw [hs] at hgone
  have hmem := EventMachine.mem_visited_iff.mpr ⟨_, List.prefix_refl _, hs⟩
  have howned := file_streams_owned openHost 64 s hmem
  exact ⟨s, hmem, howned.1, howned.2.2 fun n => Option.isNone_iff_eq_none.mp (hgone n)⟩

end HostArduino.fs
