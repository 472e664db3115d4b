import HostArduino.FS.Partitions

namespace HostArduino.fs

open Lib

/-! ### What leaves a file alone -/

/-- A use that only reads at a place, or is about another one, and moves nothing that the place
    is below. -/
def StoreCall.Spares (key : List Name) : StoreCall → Prop
  | .begin | .end_ | .existsPath _ | .mkdir _ => True
  | .use path mode _ => mode = .r ∨ target path ≠ key
  | .remove path | .rmdir path => target path ≠ key
  | .rename pathFrom pathTo => ¬target pathFrom <+: key ∧ target pathTo ≠ key

section Stream

variable {longBits : Nat} {s : Stdio.Stream}

theorem useStream_reading (longBits : Nat) (hmode : s.mode = .r) (call : FileCall) :
    (useStream longBits s call).2.mode = .r ∧ (useStream longBits s call).2.content = s.content := by
  have hwrite (data : List UInt8) (room : Nat) :
      (s.fwrite data room).2.mode = .r ∧ (s.fwrite data room).2.content = s.content := by
    have hnothing : s.accepted data room = 0 := by simp [Stdio.Stream.accepted, hmode, Stdio.Mode.writable]
    exact ⟨(Stdio.Stream.fwrite_mode s data room).trans hmode, (Stdio.Stream.fwrite_nothing hnothing).1⟩
  cases call with
  | write buffer room =>
    cases buffer with
    | none => exact ⟨hmode, rfl⟩
    | some data => exact hwrite data room
  | writeByte value room => exact hwrite [value] room
  | read => exact ⟨hmode, rfl⟩
  | readBuffer buffer size => cases buffer <;> exact ⟨hmode, rfl⟩
  | peek =>
    simp only [useStream]
    split <;> exact ⟨hmode, rfl⟩
  | flush => exact ⟨hmode, rfl⟩
  | seek pos mode =>
    have hmoves := Stdio.Stream.fseek_moves (s := s) (longMax longBits) (toLong longBits pos) mode
    exact ⟨hmoves.mode.trans hmode, hmoves.content⟩

/-- A file that is open to be read stays as it is. -/
theorem useStream_feed_reading (hmode : s.mode = .r) (calls : List FileCall) :
    ((useStream longBits).feed s calls).2.content = s.content := by
  induction calls generalizing s with
  | nil => rfl
  | cons call calls ih =>
    obtain ⟨hmode', hcontent⟩ := useStream_reading longBits hmode call
    rw [Mealy.feed_cons]
    exact (ih hmode').trans hcontent

/-- Buffers that are written one after the other, with room for so much of each. -/
def writes (buffers : List (List UInt8 × Nat)) : List FileCall :=
  buffers.map fun (data, room) => .write (some data) room

def written (buffers : List (List UInt8 × Nat)) : List UInt8 :=
  buffers.flatMap fun (data, room) => data.take room

theorem overwrite_end (content data : List UInt8) : Stdio.overwrite content content.length data = content ++ data := by
  simp [Stdio.overwrite]

theorem fwrite_end (hmode : s.mode = .w) (hplace : s.position = s.content.length) (data : List UInt8) (room : Nat) :
    (s.fwrite data room).2.content = s.content ++ data.take room ∧
      (s.fwrite data room).2.position = (s.fwrite data room).2.content.length := by
  have haccepted : s.accepted data room = min data.length room := by
    simp [Stdio.Stream.accepted, hmode, Stdio.Mode.writable]
  have happend : s.mode.append = false := by rw [hmode]; rfl
  have htake : data.take room = data.take (s.accepted data room) := by
    rw [haccepted, Nat.min_comm]
    exact List.take_eq_take_min
  by_cases hnothing : s.accepted data room = 0
  · obtain ⟨hcontent, hposition⟩ := Stdio.Stream.fwrite_nothing hnothing
    rw [hcontent, hposition, htake, hnothing, List.take_zero, List.append_nil]
    exact ⟨rfl, hplace⟩
  · have hcontent : (s.fwrite data room).2.content = s.content ++ data.take room := by
      simp only [Stdio.Stream.fwrite, if_neg hnothing, happend, Bool.false_eq_true, if_false, hplace, htake]
      exact overwrite_end _ _
    refine ⟨hcontent, ?_⟩
    rw [(Stdio.Stream.fwrite_something hnothing).1, happend, hcontent, List.length_append, htake,
      List.length_take_of_le (Stdio.Stream.accepted_le data room), hplace]
    rfl

/-- What a file that starts empty holds then. -/
theorem useStream_writes (hmode : s.mode = .w) (hplace : s.position = s.content.length)
    (buffers : List (List UInt8 × Nat)) :
    ((useStream longBits).feed s (writes buffers)).2.content = s.content ++ written buffers := by
  induction buffers generalizing s with
  | nil => exact (List.append_nil _).symm
  | cons buffer buffers ih =>
    obtain ⟨data, room⟩ := buffer
    obtain ⟨hcontent, hposition⟩ := fwrite_end hmode hplace data room
    have hrest := ih (s := (s.fwrite data room).2) ((Stdio.Stream.fwrite_mode s data room).trans hmode) hposition
    rw [hcontent, List.append_assoc] at hrest
    exact hrest

end Stream

section Frame

variable {longBits : Nat} {appendAtEnd : Bool} {v : Volume} {key : List Name} {content : List UInt8}

theorem opened_other {mode : Stdio.Mode} {other : List Name} {v' : Volume} (hopened : Volume.opened v mode other = some v')
    (hother : key ≠ other) : v'.entries key = v.entries key := by
  unfold Volume.opened at hopened
  split at hopened
  · exact Tree.write_other hopened hother
  · cases hopened
  · split at hopened
    · exact Tree.write_other hopened hother
    · cases hopened

theorem getD_other {after : Option Volume} (hsome : ∀ v', after = some v' → v'.entries key = v.entries key) :
    (after.getD v).entries key = v.entries key := by
  cases after with
  | none => rfl
  | some v' => exact hsome v' rfl

theorem useAt_other {display : Path} {mode : Stdio.Mode} {calls : List FileCall} {other : List Name}
    (hother : key ≠ other) :
    (Volume.useAt longBits appendAtEnd v display mode calls other).2.entries key = v.entries key := by
  rw [Volume.useAt]
  split
  · rfl
  · cases hopened : Volume.opened v mode other with
    | none => rfl
    | some v' =>
      exact (getD_other fun _ hwritten => Tree.write_other hwritten hother).trans (opened_other hopened hother)

theorem opened_reading {v' : Volume} (hthere : v.entries key = some (.file content))
    (hopened : Volume.opened v .r key = some v') : v'.entries key = some (.file content) := by
  simp only [Volume.opened, hthere] at hopened
  exact write_entries hopened

/-- What has been read is put back as it is. -/
theorem useAt_reading {display : Path} {calls : List FileCall} (hthere : v.entries key = some (.file content)) :
    (Volume.useAt longBits appendAtEnd v display .r calls key).2.entries key = some (.file content) := by
  rw [Volume.useAt, if_neg (by simp [hthere])]
  cases hopened : Volume.opened v .r key with
  | none => exact hthere
  | some v' =>
    have hthere' := opened_reading hthere hopened
    have hcontent : Volume.content v' key = content := by simp [Volume.content, hthere']
    have hread : ((useStream longBits).feed (Stdio.Stream.fopen .r appendAtEnd content) calls).2.content = content :=
      useStream_feed_reading rfl calls
    simp only [Volume.useFileAt, hcontent, hread]
    cases hwritten : v'.write key content with
    | none => exact hthere'
    | some v'' => exact write_entries hwritten

theorem use_spares {path : Option Path} {mode : Stdio.Mode} {calls : List FileCall}
    (hspares : mode = .r ∨ target path ≠ key) (hthere : v.entries key = some (.file content)) :
    (Volume.use longBits appendAtEnd v path mode calls).2.entries key = some (.file content) := by
  rw [Volume.use]
  split
  · exact hthere
  · have hmade : (if mode.writable then v.mkdirs (target path).dropLast.inits else (true, v)).2.entries key =
        some (.file content) := by
      split
      · exact (Tree.mkdirs_entries (by simp [hthere])).trans hthere
      · exact hthere
    generalize (if mode.writable then v.mkdirs (target path).dropLast.inits else (true, v)) = made at hmade
    dsimp only
    split
    · by_cases htarget : target path = key
      · obtain rfl := hspares.resolve_right (not_not_intro htarget)
        rw [htarget]
        exact useAt_reading hmade
      · exact (useAt_other (Ne.symm htarget)).trans hmade
    · exact hmade

/-- A file is kept by what does not name it. -/
theorem perform_spares {call : StoreCall} (hspares : call.Spares key) (hthere : v.entries key = some (.file content)) :
    (Volume.perform longBits appendAtEnd v call).2.entries key = some (.file content) := by
  have hne : v.entries key ≠ none := by simp [hthere]
  cases call with
  | begin => exact hthere
  | end_ => exact hthere
  | use path mode calls => exact use_spares hspares hthere
  | existsPath path => exact hthere
  | remove path =>
    refine (getD_other fun v' hremoved => ?_).trans hthere
    split at hremoved
    · cases hremoved
    · exact Tree.remove_other hremoved (Ne.symm hspares)
  | rmdir path =>
    refine (getD_other fun v' hremoved => ?_).trans hthere
    split at hremoved
    · cases hremoved
    · exact Tree.rmdir_other hremoved (Ne.symm hspares)
  | mkdir path =>
    rw [Volume.perform_mkdir]
    dsimp only
    split
    · exact hthere
    · exact (Tree.mkdirs_entries hne).trans hthere
  | rename pathFrom pathTo =>
    rw [Volume.perform]
    split
    · exact hthere
    · rw [Volume.renamed_eq]
      have hmade : (v.mkdirs (target pathTo).dropLast.inits).2.entries key = some (.file content) :=
        (Tree.mkdirs_entries hne).trans hthere
      refine (getD_other fun v' hrenamed => ?_).trans hmade
      split at hrenamed
      · exact Tree.rename_other hrenamed hspares.1 hspares.2 (by simp [hmade])
      · cases hrenamed

theorem feed_spares {ι : Type*} {names : ι → Name} {vs : Name → Volume} {name : Name} {ops : List (ι × StoreCall)}
    (hspares : ∀ op ∈ ops, names op.1 = name → op.2.Spares key)
    (hthere : (vs name).entries key = some (.file content)) :
    (((Volume.machine longBits appendAtEnd names).feed vs ops).2 name).entries key = some (.file content) := by
  induction ops generalizing vs with
  | nil => exact hthere
  | cons op ops ih =>
    obtain ⟨i, call⟩ := op
    refine ih (fun op hop => hspares op (List.mem_cons_of_mem _ hop)) ?_
    by_cases hname : names i = name
    · subst hname
      simp only [Function.update_self]
      exact perform_spares (hspares (i, call) List.mem_cons_self rfl) hthere
    · simp only [Function.update_of_ne (Ne.symm hname)]
      exact hthere

end Frame

/-! ### What a file is read for -/

section ReadBack

variable {longBits : Nat} {appendAtEnd : Bool} {v : Volume} {path : Option Path}

theorem write_ne_nil {key : List Name} {content : List UInt8} {v' : Volume} (hwritten : v.write key content = some v') :
    key ≠ [] := by
  unfold Tree.write at hwritten
  split at hwritten
  · rename_i hfile
    exact hfile.1.1
  · cases hwritten

theorem write_isSome {key : List Name} {content : List UInt8} (content' : List UInt8) (hkey : key ≠ [])
    (hthere : v.entries key = some (.file content)) : ∃ v', v.write key content' = some v' := by
  have hfile : v.Housed key ∧ v.entries key ≠ some .directory :=
    ⟨v.housed_of_ne_none hkey (by simp [hthere]), by simp [hthere]⟩
  exact ⟨_, dif_pos hfile⟩

theorem opened_ne_nil {mode : Stdio.Mode} {key : List Name} {v' : Volume} (hopened : Volume.opened v mode key = some v') :
    key ≠ [] := by
  unfold Volume.opened at hopened
  split at hopened
  · exact write_ne_nil hopened
  · cases hopened
  · split at hopened
    · exact write_ne_nil hopened
    · cases hopened

theorem refused_ne {kind : Option Kind} {display : Path} {calls : List FileCall} {opened : Opened}
    {answers : List FileAnswer} (hnot : kind ≠ some .file) (hkind : opened.kind = some .file) :
    Volume.refused ⟨kind, display, 0⟩ calls ≠ .used opened answers := by
  intro hsame
  obtain ⟨hopened, -⟩ := StoreAnswer.used.inj hsame
  rw [← hopened] at hkind
  exact hnot hkind

theorem useAt_writes {key : List Name} {display : Path} {buffers : List (List UInt8 × Nat)} {opened : Opened}
    {answers : List FileAnswer}
    (hused : (Volume.useAt longBits appendAtEnd v display .w (writes buffers) key).1 = .used opened answers)
    (hkind : opened.kind = some .file) :
    key ≠ [] ∧ (Volume.useAt longBits appendAtEnd v display .w (writes buffers) key).2.entries key =
      some (.file (written buffers)) := by
  rw [Volume.useAt] at hused ⊢
  split at hused
  · exact absurd hused (refused_ne (by simp) hkind)
  · rename_i hfile
    rw [if_neg hfile]
    cases hopened : Volume.opened v .w key with
    | none =>
      rw [hopened] at hused
      exact absurd hused (refused_ne (by simp) hkind)
    | some v' =>
      have hkey := opened_ne_nil hopened
      have hcontent : ((useStream longBits).feed (Stdio.Stream.fopen .w appendAtEnd (Volume.content v' key))
          (writes buffers)).2.content = written buffers :=
        useStream_writes rfl rfl buffers
      have hentry := opened_entries appendAtEnd hopened
      obtain ⟨v'', hwritten⟩ := write_isSome (written buffers) hkey hentry
      refine ⟨hkey, ?_⟩
      simp only [Volume.useFileAt, hcontent, hwritten]
      exact write_entries hwritten

/-- A file that could be opened to be written holds what was written. -/
theorem use_writes {buffers : List (List UInt8 × Nat)} {opened : Opened} {answers : List FileAnswer}
    (hused : (Volume.use longBits appendAtEnd v path .w (writes buffers)).1 = .used opened answers)
    (hkind : opened.kind = some .file) :
    target path ≠ [] ∧ (Volume.use longBits appendAtEnd v path .w (writes buffers)).2.entries (target path) =
      some (.file (written buffers)) := by
  rw [Volume.use] at hused ⊢
  split at hused
  · exact absurd hused (refused_ne (by simp) hkind)
  · rename_i hgiven
    rw [if_neg hgiven]
    simp only [Stdio.Mode.writable, if_true] at hused ⊢
    split at hused
    · rename_i hmade
      rw [if_pos hmade]
      exact useAt_writes hused hkind
    · exact absurd hused (refused_ne (by simp) hkind)

theorem use_reads {content : List UInt8} (size : Nat) (hkey : target path ≠ [])
    (hthere : v.entries (target path) = some (.file content)) :
    (Volume.use longBits appendAtEnd v path .r [.readBuffer true size]).1 =
      .used ⟨some .file, FS.displayPath (sanitizePath path), content.length⟩ [.data (content.take size)] := by
  obtain ⟨v', hwritten⟩ := write_isSome content hkey hthere
  have hopened : Volume.opened v .r (target path) = some v' := by
    simp only [Volume.opened, hthere]
    exact hwritten
  have hcontent : Volume.content v' (target path) = content := by
    simp [Volume.content, write_entries hwritten]
  rw [Volume.use, if_neg fun hgiven => hkey hgiven.1]
  simp only [Stdio.Mode.writable, Bool.false_eq_true, if_false, if_true]
  rw [Volume.useAt, if_neg (by simp [hthere]), hopened, sanitizePath_target]
  simp only [Volume.useFileAt, hcontent]
  rfl

variable {σ : Type} {ι : Type*} [DecidableEq ι] {h : Storage σ} {tree : σ → Volume} {dir : List Name}

/-- What has been written into a file is what is read from it, however the path is spelled and
    whichever of the file systems with that name it is read through, as long as nothing
    between has been about the file. -/
theorem written_is_read (longBits : Nat) (appendAtEnd : Bool) (hposix : h.Posix tree)
    (hinstalled : Installed h dir) (names : ι → Name) (hproper : ∀ i, Proper (names i)) (s : σ)
    (hdir : (tree s).entries dir = some .directory)
    (hroots : ∀ i content, (tree s).entries (dir ++ [names i]) ≠ some (.file content))
    (earlier between : List (ι × StoreCall)) (i j : ι) (path path' : Option Path)
    (buffers : List (List UInt8 × Nat)) (size : Nat) (hsame : names j = names i) (htarget : target path' = target path)
    (hspares : ∀ op ∈ between, names op.1 = names i → op.2.Spares (target path)) :
    let machine := storeMachine h longBits appendAtEnd
    let st := (machine.feed (fun i => ⟨names i, false⟩, s) earlier).2
    let written_ := machine st (i, .use path .w (writes buffers))
    let later := (machine.feed written_.2 between).2
    (∃ opened answers, written_.1 = .used opened answers ∧ opened.kind = some .file) →
      (machine later (j, .use path' .r [.readBuffer true size])).1 =
        .used ⟨some .file, FS.displayPath (sanitizePath path'), (written buffers).length⟩
          [.data ((written buffers).take size)] := by
  intro machine st written_ later ⟨opened, answers, hwritten, hkind⟩
  have hrefines := storeMachine_refines longBits appendAtEnd (tree s) hposix hinstalled hproper
  obtain ⟨-, hst⟩ := hrefines.feed (represents_unmounted names s hdir hroots) earlier
  obtain ⟨hanswer, hwritten'⟩ := hrefines _ _ hst (i, .use path .w (writes buffers))
  obtain ⟨-, hlater⟩ := hrefines.feed hwritten' between
  obtain ⟨hread, -⟩ := hrefines _ _ hlater (j, .use path' .r [.readBuffer true size])
  obtain ⟨hkey, hentry⟩ := use_writes (hanswer.symm.trans hwritten) hkind
  refine hread.trans ?_
  simp only [Volume.machine, hsame]
  rw [← htarget] at hkey
  refine use_reads size hkey ?_
  rw [htarget]
  refine feed_spares hspares ?_
  simp only [Function.update_self]
  exact hentry

end ReadBack

/-- In a directory with nothing in it a file can be written. -/
theorem bare_opens : ∃ opened answers,
    (Volume.use 64 false .bare (some [97]) .w (writes [([7, 8], 2)])).1 = .used opened answers ∧
      opened.kind = some .file := by
  have htarget : target (some [97]) = [[97]] := by decide
  have hmkdir : (Tree.bare : Volume).mkdir [] = some .bare := if_pos (by simp [Tree.bare])
  have hhoused : (Tree.bare : Volume).Housed [[97]] := ⟨by simp, by simp [Tree.bare]⟩
  have hfree : (Tree.bare : Volume).entries [[97]] = none := by simp [Tree.bare]
  have hwritten : (Tree.bare : Volume).write [[97]] [] = _ := dif_pos ⟨hhoused, by simp [hfree]⟩
  obtain ⟨v', hopened⟩ : ∃ v', Volume.opened .bare .w [[97]] = some v' := by
    simp only [Volume.opened, hfree, Stdio.Mode.truncates, Bool.true_or, if_true]
    exact ⟨_, hwritten⟩
  rw [Volume.use, htarget, if_neg (by simp)]
  simp only [Stdio.Mode.writable, if_true, List.dropLast_singleton, List.inits, Tree.mkdirs, hmkdir]
  rw [Volume.useAt, if_neg (by simp [hfree]), hopened]
  exact ⟨_, _, rfl, rfl⟩

theorem written_is_read_elsewhere :
    let machine := storeMachine (treeStorage (absolute [bin, sketch])) 64 false
    let st := (machine.feed (fun i : Partition × Nat => ⟨i.1.name, false⟩, installedTree) []).2
    let written_ := machine st ((.LittleFS, 0), .use (some [97]) .w (writes [([7, 8], 2)]))
    let later := (machine.feed written_.2 [((.SD, 0), .remove (some [97])), ((.LittleFS, 0), .end_)]).2
    (machine later ((.LittleFS, 1), .use (some [slash, 97]) .r [.readBuffer true 9])).1 =
      .used ⟨some .file, FS.displayPath (sanitizePath (some [slash, 97])), (written [([7, 8], 2)]).length⟩
        [.data ((written [([7, 8], 2)]).take 9)] := by
  have hproper : ∀ i : Partition × Nat, Proper i.1.name := fun i => i.1.name_proper
  have hspares : ∀ op ∈ [((Partition.SD, 0), StoreCall.remove (some [97])), ((.LittleFS, 0), .end_)],
      op.1.1.name = Partition.LittleFS.name → op.2.Spares (target (some [97])) := by
    simp [StoreCall.Spares, Partition.name]
  have htarget : target (some [slash, 97]) = target (some [97]) := by decide
  obtain ⟨opened, answers, hused, hkind⟩ := bare_opens
  have hrefines := storeMachine_refines 64 false installedTree (treeStorage_posix (absolute [bin, sketch]))
    treeStorage_installed hproper
  have hstart : Represents id _ _ installedTree _ _ :=
    represents_unmounted (fun i : Partition × Nat => i.1.name) installedTree installedTree_bin installedTree_roots
  obtain ⟨-, hst⟩ := hrefines.feed hstart []
  obtain ⟨hanswer, -⟩ := hrefines _ _ hst ((.LittleFS, 0), .use (some [97]) .w (writes [([7, 8], 2)]))
  have hfound : Volume.found installedTree ([bin] ++ [Partition.LittleFS.name]) = .bare :=
    if_pos (by simp [installedTree])
  have hwritten : _ = StoreAnswer.used opened answers := hanswer.trans <| by
    simp only [Volume.machine, Mealy.feed, id, hfound]
    exact hused
  have hread := written_is_read 64 false (treeStorage_posix _) treeStorage_installed (fun i => i.1.name) hproper
    installedTree installedTree_bin installedTree_roots [] [((.SD, 0), .remove (some [97])), ((.LittleFS, 0), .end_)]
    (.LittleFS, 0) (.LittleFS, 1) (some [97]) (some [slash, 97]) [([7, 8], 2)] 9 rfl htarget hspares
  dsimp only at hread ⊢
  exact hread ⟨opened, answers, hwritten, hkind⟩

end HostArduino.fs
