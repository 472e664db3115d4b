import HostArduino.Lib.EventMachine
import HostArduino.Runtime.InfoFile

namespace HostArduino.runtime

open http Lib

/-- Where `runLauncher` stands: before `std::remove`, before `startDetachedChild`, in its
    polling loop, or at its end. -/
inductive Launcher where
  | removing
  | starting
  | polling
  | exited (code : Nat)
  deriving DecidableEq, Repr

/-- Where the child stands in `startServer`: not there, started, listening on a port, in
    `writeInfoFile` with so many bytes in the file, behind it, or refused a socket. -/
inductive Child where
  | absent
  | started
  | listening (port : UInt16)
  | writing (port : UInt16) (bytes : Nat)
  | serving (port : UInt16)
  | failed
  deriving DecidableEq, Repr

/-- The port the child listens on. -/
def Child.port : Child → Option UInt16
  | .listening port | .writing port _ | .serving port => some port
  | .absent | .started | .failed => none

/-- A port as the integer that is written and printed. -/
def portNumber (port : UInt16) : Int :=
  port.toNat

/-- The launcher with the content it has read last and what it has printed, the child it
    starts, and the info file between them. -/
structure Launch where
  info : Option Text
  launcher : Launcher
  content : Text
  printed : Option Int
  child : Child
  pid : Int

/-- The file may be there from an earlier start. -/
def Launch.initial (stale : Option Text) (pid : Int) : Launch where
  info := stale
  launcher := .removing
  content := []
  printed := none
  child := .absent
  pid

/-- The steps of the two processes, in any order; the child's file takes its bytes in as
    many pieces as the system likes, or not all of them. -/
inductive LaunchEvent where
  | remove (ok : Bool)
  | startChild (ok : Bool)
  | poll
  | deadline
  | socketFails
  | listen (port : UInt16)
  | openInfo (ok : Bool)
  | writeInfo (bytes : Nat)
  | closeInfo
  deriving DecidableEq, Repr

namespace Launch

/-- One round of the polling loop. -/
def poll (st : Launch) : Launch :=
  match readInfoFile st.info with
  | some content =>
    if 0 < parsePort content then
      { st with content, printed := some (parsePort content), launcher := .exited 0 }
    else { st with content }
  | none => st

def step (st : Launch) : LaunchEvent → Option Launch
  | .remove ok =>
    -- Whether it was removed is not asked.
    if st.launcher = .removing then
      some { st with info := if ok then none else st.info, launcher := .starting }
    else none
  | .startChild ok =>
    if st.launcher = .starting then
      if ok then some { st with launcher := .polling, child := .started }
      else some { st with launcher := .exited 1 }
    else none
  | .poll => if st.launcher = .polling then some st.poll else none
  | .deadline => if st.launcher = .polling then some { st with launcher := .exited 1 } else none
  | .socketFails => if st.child = .started then some { st with child := .failed } else none
  | .listen port =>
    -- The system picks a port, and 0 is none.
    if st.child = .started ∧ port ≠ 0 then some { st with child := .listening port } else none
  | .openInfo ok =>
    match st.child with
    | .listening port =>
      if ok then some { st with info := some [], child := .writing port 0 }
      else some { st with child := .serving port }
    | _ => none
  | .writeInfo bytes =>
    match st.child with
    | .writing port before =>
      some
        { st with
          info := some ((infoText st.pid (portNumber port)).take (before + bytes))
          child := .writing port (before + bytes) }
    | _ => none
  | .closeInfo =>
    match st.child with
    | .writing port _ => some { st with child := .serving port }
    | _ => none

def machine : Lib.EventMachine Launch LaunchEvent where
  step := step

section Sound

variable {stale : Option Text} {kept : Prop} {st st' : Launch} {e : LaunchEvent}

/-- The file is not there, or it is the one from before that could not be removed. -/
def Untouched (stale : Option Text) (kept : Prop) (info : Option Text) : Prop :=
  info = none ∨ kept ∧ info = stale

/-- What the file is, by how far the child has come. -/
def Holds (stale : Option Text) (kept : Prop) (st : Launch) : Prop :=
  match st.child with
  | .writing port bytes => st.info = some ((infoText st.pid (portNumber port)).take bytes)
  | .serving port =>
    Untouched stale kept st.info ∨ ∃ bytes, st.info = some ((infoText st.pid (portNumber port)).take bytes)
  | .absent | .started | .listening _ | .failed => Untouched stale kept st.info

/-- Where a content that the launcher took came from. -/
def Origin (stale : Option Text) (kept : Prop) (st : Launch) : Prop :=
  (∃ port, st.child.port = some port ∧ st.content <+: infoText st.pid (portNumber port)) ∨
    kept ∧ stale = some st.content

/-- A file the child could not remove stays as it was until the child opens it; from then on
    it is some first part of what the child writes; and the port printed was read from it. -/
structure Sound (stale : Option Text) (kept : Prop) (st : Launch) : Prop where
  early : st.launcher = .removing ∨ st.launcher = .starting → st.child = .absent
  stale_info : st.launcher = .removing → st.info = stale
  info : st.launcher ≠ .removing → Holds stale kept st
  port : ∀ port, st.child.port = some port → port ≠ 0
  printed : ∀ printed, st.printed = some printed →
    st.launcher = .exited 0 ∧ printed = parsePort st.content ∧
      (readInfoFile (some st.content) = some st.content ∧ 0 < printed) ∧ Origin stale kept st
  code : st.launcher = .exited 0 → st.printed.isSome

theorem sound_initial (stale : Option Text) (kept : Prop) (pid : Int) :
    Sound stale kept (.initial stale pid) where
  early _ := rfl
  stale_info _ := rfl
  info hlauncher := absurd rfl hlauncher
  port _ hport := absurd hport nofun
  printed _ hprinted := absurd hprinted nofun
  code hlauncher := absurd hlauncher nofun

theorem readInfoFile_eq_some {file : Option Text} {content : Text} (h : readInfoFile file = some content) :
    file = some content :=
  (Option.filter_eq_some_iff.mp h).1

/-- Whatever the launcher finds in the file comes from the child or from before. -/
theorem Sound.origin (h : Sound stale kept st) (hlauncher : st.launcher ≠ .removing) {content : Text}
    (hread : readInfoFile st.info = some content) : Origin stale kept { st with content } := by
  have hinfo := readInfoFile_eq_some hread
  have huntouched : Untouched stale kept st.info → Origin stale kept { st with content } := by
    rintro (hnone | ⟨hkept, hstale⟩)
    · rw [hnone] at hinfo
      cases hinfo
    · exact .inr ⟨hkept, hstale.symm.trans hinfo⟩
  have hpart : ∀ port bytes, st.child.port = some port →
      st.info = some ((infoText st.pid (portNumber port)).take bytes) → Origin stale kept { st with content } := by
    intro port bytes hport htake
    obtain rfl := Option.some.inj (hinfo.symm.trans htake)
    exact .inl ⟨port, hport, List.take_prefix _ _⟩
  have hholds := h.info hlauncher
  unfold Holds at hholds
  split at hholds
  · rename_i port bytes hchild
    exact hpart port bytes (by rw [hchild]; rfl) hholds
  · rename_i port hchild
    obtain hsame | ⟨bytes, htake⟩ := hholds
    · exact huntouched hsame
    · exact hpart port bytes (by rw [hchild]; rfl) htake
  all_goals exact huntouched hholds

theorem Sound.printed_eq_none (h : Sound stale kept st) (hrunning : st.launcher ≠ .exited 0) :
    st.printed = none := by
  cases hprinted : st.printed with
  | none => rfl
  | some printed => exact absurd (h.printed printed hprinted).1 hrunning

/-- A step of the child that keeps its port, if it has one, and writes its own text. -/
theorem Sound.child_step (h : Sound stale kept st) {info : Option Text} {child : Child}
    (hstarted : st.child ≠ .absent)
    (hport : ∀ port, st.child.port = some port → child.port = some port)
    (hnonzero : ∀ port, child.port = some port → port ≠ 0)
    (hholds : Holds stale kept st → Holds stale kept { st with info, child }) :
    Sound stale kept { st with info, child } where
  early hlauncher := absurd (h.early hlauncher) hstarted
  stale_info hlauncher := absurd (h.early (.inl hlauncher)) hstarted
  info hlauncher := hholds (h.info hlauncher)
  port := hnonzero
  printed := by
    intro printed hprinted
    obtain ⟨hexited, hvalue, hfound, horigin⟩ := h.printed printed hprinted
    refine ⟨hexited, hvalue, hfound, horigin.imp_left ?_⟩
    rintro ⟨port, hchild, hpre⟩
    exact ⟨port, hport port hchild, hpre⟩
  code := h.code

/-- A step in which the child goes on with the port it has. -/
theorem Sound.goes_on (h : Sound stale kept st) {info : Option Text} {child : Child} {port : UInt16}
    (hbefore : st.child.port = some port) (hafter : child.port = some port)
    (hholds : Holds stale kept st → Holds stale kept { st with info, child }) :
    Sound stale kept { st with info, child } := by
  refine h.child_step ?_ ?_ ?_ hholds
  · intro habsent
    rw [habsent] at hbefore
    cases hbefore
  · rw [hbefore, hafter]
    exact fun _ heq => heq
  · rw [hafter, ← hbefore]
    exact h.port

theorem Sound.poll (h : Sound stale kept st) (hpolling : st.launcher = .polling) :
    Sound stale kept st.poll := by
  have hrunning : st.launcher ≠ .removing := by simp [hpolling]
  have hnone : st.printed = none := h.printed_eq_none (by simp [hpolling])
  unfold Launch.poll
  split
  · rename_i content hread
    have horigin := h.origin hrunning hread
    split
    · rename_i hpositive
      refine ⟨by simp, by simp, fun _ => h.info hrunning, h.port, ?_, by simp⟩
      rintro printed ⟨⟩
      exact ⟨rfl, rfl, ⟨readInfoFile_eq_some hread ▸ hread, hpositive⟩, horigin⟩
    · exact ⟨h.early, h.stale_info, fun _ => h.info hrunning, h.port, by simp [hnone], by simp [hpolling]⟩
  · exact h

theorem Sound.step (h : Sound stale kept st) (hguard : e = .remove false → kept)
    (hstep : st.step e = some st') : Sound stale kept st' := by
  cases e with
  | remove ok =>
    simp only [Launch.step] at hstep
    split at hstep
    · rename_i hlauncher
      cases hstep
      have hchild := h.early (.inl hlauncher)
      have hnone := h.printed_eq_none (by simp [hlauncher])
      refine ⟨fun _ => hchild, by simp, fun _ => ?_, h.port, by simp [hnone], by simp⟩
      simp only [Holds, hchild]
      cases ok with
      | true => exact .inl rfl
      | false => exact .inr ⟨hguard rfl, h.stale_info hlauncher⟩
    · cases hstep
  | startChild ok =>
    simp only [Launch.step] at hstep
    split at hstep
    · rename_i hlauncher
      have hchild := h.early (.inr hlauncher)
      have hinfo := h.info (by simp [hlauncher])
      have hnone := h.printed_eq_none (by simp [hlauncher])
      split at hstep
      · cases hstep
        simp only [Holds, hchild] at hinfo
        exact ⟨by simp, by simp, fun _ => hinfo, fun _ hport => absurd hport nofun, by simp [hnone], by simp⟩
      · cases hstep
        exact ⟨by simp, by simp, fun _ => hinfo, h.port, by simp [hnone], by simp⟩
    · cases hstep
  | poll =>
    simp only [Launch.step] at hstep
    split at hstep
    · rename_i hpolling
      cases hstep
      exact h.poll hpolling
    · cases hstep
  | deadline =>
    simp only [Launch.step] at hstep
    split at hstep
    · rename_i hpolling
      cases hstep
      have hnone := h.printed_eq_none (by simp [hpolling])
      exact ⟨by simp, by simp, fun _ => h.info (by simp [hpolling]), h.port, by simp [hnone], by simp⟩
    · cases hstep
  | socketFails =>
    simp only [Launch.step] at hstep
    split at hstep
    · rename_i hchild
      cases hstep
      refine h.child_step (by simp [hchild]) (by simp [hchild, Child.port]) (by simp [Child.port]) ?_
      simp only [Holds, hchild]
      exact id
    · cases hstep
  | listen port =>
    simp only [Launch.step] at hstep
    split at hstep
    · rename_i henabled
      obtain ⟨hchild, hport⟩ := henabled
      cases hstep
      refine h.child_step (by simp [hchild]) (by simp [hchild, Child.port])
        (by simpa [Child.port] using hport) ?_
      simp only [Holds, hchild]
      exact id
    · cases hstep
  | openInfo ok =>
    simp only [Launch.step] at hstep
    split at hstep
    · rename_i port hchild
      have hbefore : st.child.port = some port := congrArg Child.port hchild
      split at hstep
      · cases hstep
        exact h.goes_on hbefore rfl fun _ => rfl
      · cases hstep
        refine h.goes_on hbefore rfl ?_
        simp only [Holds, hchild]
        exact .inl
    · cases hstep
  | writeInfo bytes =>
    simp only [Launch.step] at hstep
    split at hstep
    · rename_i port before hchild
      cases hstep
      exact h.goes_on (congrArg Child.port hchild) rfl fun _ => rfl
    · cases hstep
  | closeInfo =>
    simp only [Launch.step] at hstep
    split at hstep
    · rename_i port bytes hchild
      cases hstep
      refine h.goes_on (congrArg Child.port hchild) rfl ?_
      simp only [Holds, hchild]
      exact fun htake => .inr ⟨bytes, htake⟩
    · cases hstep

end Sound

theorem portNumber_bounds {port : UInt16} (hport : port ≠ 0) :
    1 ≤ portNumber port ∧ portNumber port ≤ 65535 := by
  have hne : port.toNat ≠ 0 := fun hzero => hport (UInt16.toNat_inj.mp hzero)
  have hlt := port.toNat_lt
  unfold portNumber
  omega

/-- Once the file is whole, the next poll ends with its port. -/
theorem poll_whole {st : Launch} {port : UInt16} (hport : port ≠ 0)
    (hinfo : st.info = some (infoText st.pid (portNumber port))) :
    st.poll.printed = some (portNumber port) ∧ st.poll.launcher = .exited 0 := by
  obtain ⟨hpositive, hlimit⟩ := portNumber_bounds hport
  have hwhole : ¬Torn st.pid (portNumber port) (infoText st.pid (portNumber port)) := by
    rw [infoText_eq]
    exact not_torn
  have hdigit : hasDigit st.pid (infoText st.pid (portNumber port)) = true := by
    rw [infoText_eq, hasDigit_iff]
    intro hnil
    have hlength := congrArg List.length hnil
    simp [ascii] at hlength
  obtain ⟨hnone, -⟩ | ⟨-, hread, hpos, hvalue⟩ :=
    seen_spec hpositive hlimit (List.prefix_refl (infoText st.pid (portNumber port)))
  · rw [hdigit] at hnone
    cases hnone
  · have hparse := hvalue.mpr hwhole
    simp only [poll, hinfo, hread, if_pos hpos]
    exact ⟨congrArg some hparse, trivial⟩

end Launch

/-- However the launcher's polls interleave with the child's steps, and in whatever pieces
    the child's file is written, a port is printed only with the exit code 0. It is that on
    which the child listens by then, unless the content read ends among its digits; or it
    is that of an older file, whose removal has failed. And a poll that finds the whole
    file prints the child's port. -/
theorem launcher_prints {stale : Option Text} {pid : Int} {events : List LaunchEvent} :
    ∀ st ∈ Launch.machine.visited (.initial stale pid) events,
      (∀ printed, st.printed = some printed → st.launcher = .exited 0 ∧
        ((∃ port, st.child.port = some port ∧
            (printed = portNumber port ↔ ¬Torn st.pid (portNumber port) st.content)) ∨
          .remove false ∈ events ∧ stale = some st.content ∧ printed = parsePort st.content)) ∧
        (st.launcher = .exited 0 → st.printed.isSome) ∧
        ∀ port, st.child.port = some port → st.info = some (infoText st.pid (portNumber port)) →
          st.launcher = .polling → ∃ st', Launch.machine.step st .poll = some st' ∧
            st'.printed = some (portNumber port) ∧ st'.launcher = .exited 0 := by
  intro st hst
  have h : Launch.Sound stale (.remove false ∈ events) st := by
    refine Lib.EventMachine.visited_of_meets (P := Launch.Sound stale (.remove false ∈ events))
      (G := fun _ e => e = .remove false → .remove false ∈ events)
      (fun _ _ _ hsound hguard hstep => hsound.step hguard hstep) (Launch.sound_initial _ _ _) ?_ st hst
    refine Lib.EventMachine.meets_of_forall (G := fun _ (e : LaunchEvent) =>
      e = .remove false → .remove false ∈ events) ?_ _
    rintro e he - rfl
    exact he
  refine ⟨fun printed hprinted => ?_, h.code, fun port hport hinfo hpolling => ?_⟩
  · obtain ⟨hexited, hvalue, ⟨hread, hpos⟩, ⟨port, hport, hpre⟩ | ⟨hkept, hstale⟩⟩ :=
      h.printed printed hprinted
    · obtain ⟨hpositive, hlimit⟩ := Launch.portNumber_bounds (h.port port hport)
      refine ⟨hexited, .inl ⟨port, hport, ?_⟩⟩
      obtain ⟨-, hzero⟩ | ⟨-, -, -, hexact⟩ := seen_spec hpositive hlimit hpre
      · have hparse := hzero _ hread
        omega
      · rw [hvalue]
        exact hexact
    · exact ⟨hexited, .inr ⟨hkept, hstale, hvalue⟩⟩
  · obtain ⟨hprinted, hexited⟩ := Launch.poll_whole (h.port port hport) hinfo
    exact ⟨st.poll, if_pos hpolling, hprinted, hexited⟩

/-- The file from before is removed, a poll finds none, and the next one the child's. -/
theorem launcher_prints_child :
    ∃ st ∈ Launch.machine.visited (.initial (some (infoText 6 4000)) 7)
        [.remove true, .startChild true, .poll, .listen 8080, .openInfo true,
          .writeInfo (infoText 7 (portNumber 8080)).length],
      ∃ st', Launch.machine.step st .poll = some st' ∧ st'.printed = some (portNumber 8080) ∧
        st'.launcher = .exited 0 := by
  refine ⟨?launch, ?mem, (launcher_prints _ ?mem).2.2 8080 ?port ?info ?polling⟩
  case mem =>
    refine Lib.EventMachine.mem_visited_iff.mpr ⟨_, List.prefix_refl _, ?_⟩
    rfl
  case port => rfl
  case info =>
    change some ((infoText 7 (portNumber 8080)).take (0 + _)) = _
    rw [Nat.zero_add, List.take_length]
    rfl
  case polling => rfl

end HostArduino.runtime
