import Mathlib.Data.List.Infix
import Mathlib.Logic.Function.Basic

namespace Lib

universe u v

inductive Node (α : Type v) where
  | file (content : α)
  | directory
  deriving DecidableEq, Repr

/-- Files and directories, each at its place, and nothing outside of a directory. -/
@[ext]
structure Tree (ν : Type u) (α : Type v) where
  entries : List ν → Option (Node α)
  parent_directory : ∀ dir name, entries (dir ++ [name]) ≠ none → entries dir = some .directory

namespace Tree

variable {ν : Type u} {α : Type v}

/-- A directory with nothing in it. -/
def bare : Tree ν α where
  entries key := if key = [] then some .directory else none
  parent_directory dir name hentry := absurd (if_neg (by simp)) hentry

/-- What is below a place. -/
def sub (t : Tree ν α) (root : List ν) : Tree ν α where
  entries key := t.entries (root ++ key)
  parent_directory dir name hentry :=
    t.parent_directory (root ++ dir) name (by rwa [List.append_assoc])

variable (t : Tree ν α)

/-- There is a directory for the place to be in. -/
def Housed (key : List ν) : Prop :=
  key ≠ [] ∧ t.entries key.dropLast = some .directory

/-- There is nothing in the place, as in a directory. -/
def Empty (key : List ν) : Prop :=
  ∀ name, t.entries (key ++ [name]) = none

theorem housed_of_ne_none {key : List ν} (hkey : key ≠ []) (hentry : t.entries key ≠ none) : t.Housed key := by
  refine ⟨hkey, t.parent_directory key.dropLast (key.getLast hkey) ?_⟩
  rwa [List.dropLast_append_getLast hkey]

theorem empty_of_ne_directory {key : List ν} (hentry : t.entries key ≠ some .directory) : t.Empty key := by
  intro name
  by_contra hname
  exact hentry (t.parent_directory key name hname)

/-- On the way to whatever is there, there are directories. -/
theorem directory_of_isPrefix {front key : List ν} (hfront : front <+: key) (hproper : front ≠ key)
    (hentry : t.entries key ≠ none) : t.entries front = some .directory := by
  obtain ⟨back, rfl⟩ := hfront
  induction back using List.reverseRecOn with
  | nil => exact absurd (List.append_nil front).symm hproper
  | append_singleton back name ih =>
    rw [← List.append_assoc] at hentry
    have hparent := t.parent_directory (front ++ back) name hentry
    by_cases hback : back = []
    · rwa [hback, List.append_nil] at hparent
    · exact ih (by simp [hback]) (by simp [hparent])

variable [DecidableEq ν]

theorem update_parent {key : List ν} {node : Option (Node α)} (hhoused : t.Housed key)
    (hempty : node ≠ some .directory → t.Empty key) (dir : List ν) (name : ν)
    (hentry : Function.update t.entries key node (dir ++ [name]) ≠ none) :
    Function.update t.entries key node dir = some .directory := by
  have hdir : t.entries dir = some .directory := by
    by_cases heq : dir ++ [name] = key
    · have hhouse := hhoused.2
      rwa [← heq, List.dropLast_concat] at hhouse
    · rw [Function.update_of_ne heq] at hentry
      exact t.parent_directory dir name hentry
  by_cases heq : dir = key
  · subst heq
    rw [Function.update_self]
    by_contra hnode
    have hne : dir ++ [name] ≠ dir := by simp
    rw [Function.update_of_ne hne, hempty hnode name] at hentry
    exact hentry rfl
  · rwa [Function.update_of_ne heq]

/-- Puts something, or nothing, at a place that has nothing in it. -/
def put (key : List ν) (node : Option (Node α)) (hhoused : t.Housed key)
    (hempty : node ≠ some .directory → t.Empty key) : Tree ν α where
  entries := Function.update t.entries key node
  parent_directory := t.update_parent hhoused hempty

/-- A place with all that is below it is put elsewhere, and what was there is gone. -/
def moved (source target key : List ν) : Option (Node α) :=
  if target <+: key then t.entries (source ++ key.drop target.length)
  else if source <+: key then none
  else t.entries key

theorem moved_parent {source target : List ν} (hhoused : t.Housed target) (hinside : ¬source <+: target)
    (dir : List ν) (name : ν) (hentry : t.moved source target (dir ++ [name]) ≠ none) :
    t.moved source target dir = some .directory := by
  rw [moved] at hentry
  split at hentry
  case isTrue htarget =>
    by_cases heq : target = dir ++ [name]
    · -- The place itself: its directory stays where it is.
      subst heq
      have hhouse := hhoused.2
      rw [List.dropLast_concat] at hhouse
      have hlonger : ¬dir ++ [name] <+: dir := fun hlong => by
        have hlength := hlong.length_le
        rw [List.length_append, List.length_singleton] at hlength
        omega
      rw [moved, if_neg hlonger, if_neg fun hsource => hinside (hsource.trans (List.prefix_append _ _))]
      exact hhouse
    · have hbelow : target <+: dir := (List.prefix_concat_iff.mp htarget).resolve_left heq
      rw [List.drop_append_of_le_length hbelow.length_le, ← List.append_assoc] at hentry
      rw [moved, if_pos hbelow]
      exact t.parent_directory _ name hentry
  case isFalse htarget =>
    split at hentry
    case isTrue => exact absurd rfl hentry
    case isFalse hsource =>
      rw [moved, if_neg fun hdir => htarget (hdir.trans (List.prefix_append _ _)),
        if_neg fun hdir => hsource (hdir.trans (List.prefix_append _ _))]
      exact t.parent_directory dir name hentry

def move (source target : List ν) (hhoused : t.Housed target) (hinside : ¬source <+: target) : Tree ν α where
  entries := t.moved source target
  parent_directory := t.moved_parent hhoused hinside

/-! ### What can be asked of a tree

Each of these is refused, or leaves another tree. -/

section Operations

open Classical

/-- A directory, unless there is something already. -/
noncomputable def mkdir (key : List ν) : Option (Tree ν α) :=
  if t.entries key ≠ none then some t
  else if hhoused : t.Housed key then
    some (t.put key (some .directory) hhoused fun hnode => absurd rfl hnode)
  else none

/-- The content of a file, which may not have been there. -/
noncomputable def write (key : List ν) (content : α) : Option (Tree ν α) :=
  if hfile : t.Housed key ∧ t.entries key ≠ some .directory then
    some (t.put key (some (.file content)) hfile.1 fun _ => t.empty_of_ne_directory hfile.2)
  else none

/-- A file or an empty directory goes. -/
noncomputable def remove (key : List ν) : Option (Tree ν α) :=
  if hthere : t.entries key ≠ none ∧ t.Empty key ∧ key ≠ [] then
    some (t.put key none (t.housed_of_ne_none hthere.2.2 hthere.1) fun _ => hthere.2.1)
  else none

noncomputable def rmdir (key : List ν) : Option (Tree ν α) :=
  if t.entries key = some .directory then t.remove key else none

/-- A file may take the place of a file, and a directory that of an empty one. -/
def Replaces (node other : Option (Node α)) : Prop :=
  other = none ∨ (node = some .directory ↔ other = some .directory)

noncomputable def rename (source target : List ν) : Option (Tree ν α) :=
  if t.entries source = none then none
  else if source = target then some t
  else if hmove : ¬source <+: target ∧ t.Housed target then
    if Replaces (t.entries source) (t.entries target) ∧ t.Empty target then
      some (t.move source target hmove.2 hmove.1)
    else none
  else none

/-- The directories that lead to a place, and one there, as far as they can be made. -/
noncomputable def mkdirs (t : Tree ν α) : List (List ν) → Bool × Tree ν α
  | [] => (true, t)
  | key :: keys =>
    match t.mkdir key with
    | some t' => t'.mkdirs keys
    | none => (false, t)

end Operations

/-! ### Below a place -/

section Below

variable {t} {root key : List ν}

omit [DecidableEq ν] in
theorem housed_sub (hkey : key ≠ []) : (t.sub root).Housed key ↔ t.Housed (root ++ key) := by
  simp only [Housed, sub, List.dropLast_append_of_ne_nil hkey, ne_eq, List.append_eq_nil_iff, hkey, and_false,
    not_false_eq_true, true_and]

omit [DecidableEq ν] in
theorem empty_sub : (t.sub root).Empty key ↔ t.Empty (root ++ key) := by
  simp only [Empty, sub, List.append_assoc]

/-- What has become of a tree is what has become of what is below a place in it. -/
structure Below (root : List ν) (t : Tree ν α) (whole below : Option (Tree ν α)) : Prop where
  sub : whole.map (·.sub root) = below
  outside : ∀ t' ∈ whole, ∀ key, ¬root <+: key → t'.entries key = t.entries key

omit [DecidableEq ν] in
theorem below_none : Below root t none none :=
  ⟨rfl, fun _ hmem => absurd hmem (Option.not_mem_none _)⟩

omit [DecidableEq ν] in
theorem below_some {t' below : Tree ν α} (hsub : t'.sub root = below)
    (houtside : ∀ key, ¬root <+: key → t'.entries key = t.entries key) : Below root t (some t') (some below) := by
  refine ⟨congrArg some hsub, fun t'' hmem => ?_⟩
  obtain rfl := Option.mem_some.mp hmem
  exact houtside

omit [DecidableEq ν] in
/-- What is refused leaves the tree and what is below the place. -/
theorem Below.getD {whole below : Option (Tree ν α)} (h : Below root t whole below) :
    Below root t (some (whole.getD t)) (some (below.getD (t.sub root))) := by
  cases whole with
  | none =>
    obtain rfl : none = below := h.sub
    exact below_some rfl fun _ _ => rfl
  | some t' =>
    obtain rfl : some (t'.sub root) = below := h.sub
    exact h

theorem below_put {node : Option (Node α)} (hhoused : t.Housed (root ++ key))
    (hempty : node ≠ some .directory → t.Empty (root ++ key)) (hhoused' : (t.sub root).Housed key)
    (hempty' : node ≠ some .directory → (t.sub root).Empty key) :
    Below root t (some (t.put (root ++ key) node hhoused hempty))
      (some ((t.sub root).put key node hhoused' hempty')) := by
  refine below_some (Tree.ext ?_) fun other hother => Function.update_of_ne ?_ _ _
  · exact Function.update_comp_eq_of_injective t.entries (List.append_right_injective root) key node
  · rintro rfl
    exact hother (List.prefix_append root key)

theorem mkdir_below (hkey : key = [] → t.entries root ≠ none) :
    Below root t (t.mkdir (root ++ key)) ((t.sub root).mkdir key) := by
  unfold mkdir
  by_cases hthere : t.entries (root ++ key) ≠ none
  · have hthere' : (t.sub root).entries key ≠ none := hthere
    rw [if_pos hthere, if_pos hthere']
    exact below_some rfl fun _ _ => rfl
  · have hthere' : ¬(t.sub root).entries key ≠ none := hthere
    have hne : key ≠ [] := by
      rintro rfl
      exact hthere (by simpa using hkey rfl)
    rw [if_neg hthere, if_neg hthere']
    by_cases hhoused : t.Housed (root ++ key)
    · rw [dif_pos hhoused, dif_pos ((housed_sub hne).mpr hhoused)]
      exact below_put _ _ _ _
    · rw [dif_neg hhoused, dif_neg fun hsub => hhoused ((housed_sub hne).mp hsub)]
      exact below_none

theorem mkdir_entries {t' : Tree ν α} {other : List ν} (hmade : t.mkdir key = some t') (hother : t.entries other ≠ none) :
    t'.entries other = t.entries other := by
  unfold mkdir at hmade
  split at hmade
  · cases hmade
    rfl
  · rename_i hfree
    split at hmade
    · cases hmade
      refine Function.update_of_ne ?_ _ _
      rintro rfl
      exact hfree hother
    · cases hmade

theorem mkdir_self {t' : Tree ν α} (hmade : t.mkdir key = some t') : t'.entries key ≠ none := by
  unfold mkdir at hmade
  split at hmade
  · rename_i hthere
    cases hmade
    exact hthere
  · split at hmade
    · cases hmade
      simp [put]
    · cases hmade

/-- What has been made need not be made again. -/
theorem mkdirs_concat {keys : List (List ν)} (hkey : t.entries key ≠ none ∨ key ∈ keys) :
    t.mkdirs (keys ++ [key]) = t.mkdirs keys := by
  induction keys generalizing t with
  | nil =>
    have hmkdir : t.mkdir key = some t := if_pos (hkey.resolve_right List.not_mem_nil)
    simp only [List.nil_append, mkdirs, hmkdir]
  | cons first keys ih =>
    rw [List.cons_append, mkdirs, mkdirs]
    cases hmade : t.mkdir first with
    | none => rfl
    | some t' =>
      refine ih ?_
      obtain hthere | hmem := hkey
      · exact .inl (by rwa [mkdir_entries hmade hthere])
      · obtain rfl | hmem := List.mem_cons.mp hmem
        · exact .inl (mkdir_self hmade)
        · exact .inr hmem

theorem mkdirs_append_of_there {keys more : List (List ν)} (hthere : ∀ key ∈ keys, t.entries key ≠ none) :
    t.mkdirs (keys ++ more) = t.mkdirs more := by
  induction keys with
  | nil => rfl
  | cons key keys ih =>
    have hmkdir : t.mkdir key = some t := if_pos (hthere key List.mem_cons_self)
    rw [List.cons_append, mkdirs, hmkdir]
    exact ih fun key hkey => hthere key (List.mem_cons_of_mem _ hkey)

omit [DecidableEq ν] in
theorem Below.trans {t' : Tree ν α} {whole below : Option (Tree ν α)}
    (hfirst : ∀ key, ¬root <+: key → t'.entries key = t.entries key) (h : Below root t' whole below) :
    Below root t whole below :=
  ⟨h.sub, fun t'' hmem key hkey => (h.outside t'' hmem key hkey).trans (hfirst key hkey)⟩

theorem mkdirs_below {keys : List (List ν)} (hroot : t.entries root ≠ none) :
    (t.mkdirs (keys.map (root ++ ·))).1 = ((t.sub root).mkdirs keys).1 ∧
      Below root t (some (t.mkdirs (keys.map (root ++ ·))).2) (some ((t.sub root).mkdirs keys).2) := by
  induction keys generalizing t with
  | nil => exact ⟨rfl, below_some rfl fun _ _ => rfl⟩
  | cons key keys ih =>
    have hkey : Below root t (t.mkdir (root ++ key)) ((t.sub root).mkdir key) := mkdir_below fun _ => hroot
    rw [List.map_cons, mkdirs, mkdirs, ← hkey.sub]
    cases hmade : t.mkdir (root ++ key) with
    | none => exact ⟨rfl, below_some rfl fun _ _ => rfl⟩
    | some t' =>
      have hroot' : t'.entries root ≠ none := by rwa [mkdir_entries hmade hroot]
      obtain ⟨hresult, hbelow⟩ := ih hroot'
      exact ⟨hresult, hbelow.trans (hkey.outside t' hmade)⟩

theorem write_below {content : α} (hkey : key ≠ []) :
    Below root t (t.write (root ++ key) content) ((t.sub root).write key content) := by
  unfold write
  have hiff : t.Housed (root ++ key) ∧ t.entries (root ++ key) ≠ some .directory ↔
      (t.sub root).Housed key ∧ (t.sub root).entries key ≠ some .directory := by
    rw [housed_sub hkey]
    exact Iff.rfl
  by_cases hfile : t.Housed (root ++ key) ∧ t.entries (root ++ key) ≠ some .directory
  · rw [dif_pos hfile, dif_pos (hiff.mp hfile)]
    exact below_put _ _ _ _
  · rw [dif_neg hfile, dif_neg fun hsub => hfile (hiff.mpr hsub)]
    exact below_none

theorem remove_below (hkey : key ≠ []) :
    Below root t (t.remove (root ++ key)) ((t.sub root).remove key) := by
  unfold remove
  have hiff : t.entries (root ++ key) ≠ none ∧ t.Empty (root ++ key) ∧ root ++ key ≠ [] ↔
      (t.sub root).entries key ≠ none ∧ (t.sub root).Empty key ∧ key ≠ [] :=
    and_congr Iff.rfl (and_congr empty_sub.symm (iff_of_true (by simp [hkey]) hkey))
  by_cases hthere : t.entries (root ++ key) ≠ none ∧ t.Empty (root ++ key) ∧ root ++ key ≠ []
  · rw [dif_pos hthere, dif_pos (hiff.mp hthere)]
    exact below_put _ _ _ _
  · rw [dif_neg hthere, dif_neg fun hsub => hthere (hiff.mpr hsub)]
    exact below_none

theorem rmdir_below (hkey : key ≠ []) : Below root t (t.rmdir (root ++ key)) ((t.sub root).rmdir key) := by
  unfold rmdir
  by_cases hdirectory : t.entries (root ++ key) = some .directory
  · have hdirectory' : (t.sub root).entries key = some .directory := hdirectory
    rw [if_pos hdirectory, if_pos hdirectory']
    exact remove_below hkey
  · have hdirectory' : (t.sub root).entries key ≠ some .directory := hdirectory
    rw [if_neg hdirectory, if_neg hdirectory']
    exact below_none

theorem below_move {source target : List ν} (hhoused : t.Housed (root ++ target))
    (hinside : ¬root ++ source <+: root ++ target) (hhoused' : (t.sub root).Housed target)
    (hinside' : ¬source <+: target) :
    Below root t (some (t.move (root ++ source) (root ++ target) hhoused hinside))
      (some ((t.sub root).move source target hhoused' hinside')) := by
  refine below_some (Tree.ext (funext fun key => ?_)) fun other hother => ?_
  · have hdrop : (root ++ key).drop (root ++ target).length = key.drop target.length := by
      rw [List.length_append, List.drop_append, List.drop_eq_nil_of_le (Nat.le_add_right _ _), List.nil_append,
        Nat.add_sub_cancel_left]
    simp only [sub, move, moved, List.prefix_append_right_inj, hdrop, List.append_assoc]
  · simp only [move, moved]
    rw [if_neg fun htarget => hother ((List.prefix_append _ _).trans htarget),
      if_neg fun hsource => hother ((List.prefix_append _ _).trans hsource)]

theorem rename_below {source target : List ν} (htarget : target ≠ []) :
    Below root t (t.rename (root ++ source) (root ++ target)) ((t.sub root).rename source target) := by
  unfold rename
  by_cases hsource : t.entries (root ++ source) = none
  · have hsource' : (t.sub root).entries source = none := hsource
    rw [if_pos hsource, if_pos hsource']
    exact below_none
  have hsource' : (t.sub root).entries source ≠ none := hsource
  rw [if_neg hsource, if_neg hsource']
  by_cases hsame : source = target
  · rw [if_pos (congrArg (root ++ ·) hsame), if_pos hsame]
    exact below_some rfl fun _ _ => rfl
  rw [if_neg fun heq => hsame (List.append_cancel_left heq), if_neg hsame]
  have hiff : (¬root ++ source <+: root ++ target ∧ t.Housed (root ++ target)) ↔
      ¬source <+: target ∧ (t.sub root).Housed target := by
    rw [housed_sub htarget, List.prefix_append_right_inj]
  by_cases hmove : ¬root ++ source <+: root ++ target ∧ t.Housed (root ++ target)
  · rw [dif_pos hmove, dif_pos (hiff.mp hmove)]
    have hfits : Replaces (t.entries (root ++ source)) (t.entries (root ++ target)) ∧ t.Empty (root ++ target) ↔
        Replaces ((t.sub root).entries source) ((t.sub root).entries target) ∧ (t.sub root).Empty target := by
      rw [empty_sub]
      exact Iff.rfl
    by_cases hreplaces : Replaces (t.entries (root ++ source)) (t.entries (root ++ target)) ∧
        t.Empty (root ++ target)
    · rw [if_pos hreplaces, if_pos (hfits.mp hreplaces)]
      exact below_move _ _ _ _
    · rw [if_neg hreplaces, if_neg fun hsub => hreplaces (hfits.mpr hsub)]
      exact below_none
  · rw [dif_neg hmove, dif_neg fun hsub => hmove (hiff.mpr hsub)]
    exact below_none

/-! ### The top of a tree -/

variable {t' : Tree ν α}

theorem put_top {node : Option (Node α)} (hhoused : t.Housed key)
    (hempty : node ≠ some .directory → t.Empty key) : (t.put key node hhoused hempty).entries [] = t.entries [] :=
  Function.update_of_ne (Ne.symm hhoused.1) _ _

theorem write_top {content : α} (hwritten : t.write key content = some t') : t'.entries [] = t.entries [] := by
  unfold write at hwritten
  split at hwritten
  · cases hwritten
    exact put_top _ _
  · cases hwritten

theorem remove_top (hremoved : t.remove key = some t') : t'.entries [] = t.entries [] := by
  unfold remove at hremoved
  split at hremoved
  · cases hremoved
    exact put_top _ _
  · cases hremoved

theorem rmdir_top (hremoved : t.rmdir key = some t') : t'.entries [] = t.entries [] := by
  unfold rmdir at hremoved
  split at hremoved
  · exact remove_top hremoved
  · cases hremoved

theorem rename_top {source target : List ν} (hrenamed : t.rename source target = some t') :
    t'.entries [] = t.entries [] := by
  unfold rename at hrenamed
  split at hrenamed
  · cases hrenamed
  · split at hrenamed
    · cases hrenamed
      rfl
    · split at hrenamed
      · rename_i hmove
        split at hrenamed
        · cases hrenamed
          have hsource : ¬source <+: [] := fun hnil => hmove.1 (List.prefix_nil.mp hnil ▸ List.nil_prefix)
          simp [move, moved, hmove.2.1, hsource]
        · cases hrenamed
      · cases hrenamed

/-! ### Away from what is changed -/

variable {other : List ν}

theorem mkdirs_entries {keys : List (List ν)} (hother : t.entries other ≠ none) :
    (t.mkdirs keys).2.entries other = t.entries other := by
  induction keys generalizing t with
  | nil => rfl
  | cons key keys ih =>
    rw [mkdirs]
    cases hmade : t.mkdir key with
    | none => rfl
    | some t' =>
      have hkept := mkdir_entries hmade hother
      exact (ih (by rwa [hkept])).trans hkept

theorem put_other {node : Option (Node α)} (hhoused : t.Housed key) (hempty : node ≠ some .directory → t.Empty key)
    (hother : other ≠ key) : (t.put key node hhoused hempty).entries other = t.entries other :=
  Function.update_of_ne hother _ _

theorem write_other {content : α} (hwritten : t.write key content = some t') (hother : other ≠ key) :
    t'.entries other = t.entries other := by
  unfold write at hwritten
  split at hwritten
  · cases hwritten
    exact put_other _ _ hother
  · cases hwritten

theorem remove_other (hremoved : t.remove key = some t') (hother : other ≠ key) :
    t'.entries other = t.entries other := by
  unfold remove at hremoved
  split at hremoved
  · cases hremoved
    exact put_other _ _ hother
  · cases hremoved

theorem rmdir_other (hremoved : t.rmdir key = some t') (hother : other ≠ key) : t'.entries other = t.entries other := by
  unfold rmdir at hremoved
  split at hremoved
  · exact remove_other hremoved hother
  · cases hremoved

/-- What is moved goes neither onto something nor above it. -/
theorem rename_other {source target : List ν} (hrenamed : t.rename source target = some t')
    (hsource : ¬source <+: other) (htarget : target ≠ other) (hother : t.entries other ≠ none) :
    t'.entries other = t.entries other := by
  unfold rename at hrenamed
  split at hrenamed
  · cases hrenamed
  · split at hrenamed
    · cases hrenamed
      rfl
    · split at hrenamed
      · split at hrenamed
        · rename_i hreplaces
          cases hrenamed
          have habove : ¬target <+: other := by
            rintro ⟨back, rfl⟩
            obtain ⟨name, more, rfl⟩ := List.exists_cons_of_ne_nil (l := back) (by rintro rfl; simp at htarget)
            by_cases hmore : more = []
            · exact hother (hmore ▸ hreplaces.2 name)
            · have hway : target ++ [name] <+: target ++ name :: more := by simp
              have hdirectory := t.directory_of_isPrefix hway (by simpa using hmore) hother
              exact Option.some_ne_none _ (hdirectory.symm.trans (hreplaces.2 name))
          simp only [move, moved, if_neg habove, if_neg hsource]
        · cases hrenamed
      · cases hrenamed

end Below

end Tree

end Lib
