import Mathlib.Data.List.AList

namespace Lib

universe u v

variable {ι : Type u} [DecidableEq ι] {α : Type v}

/-- What can happen to handles by themselves. -/
inductive Lifetime (ι : Type u) where
  | construct (n : ι)
  | copy (src dst : ι)
  | assign (dst src : ι)
  | destroy (n : ι)
  deriving DecidableEq, Repr

/-- Named handles on shared objects, each handle pointing to an object made before. -/
structure SharedPtrs (ι : Type u) [DecidableEq ι] (α : Type v) where
  objects : Nat → α
  next : Nat
  handles : AList fun _ : ι => Nat
  bound : ∀ n a, handles.lookup n = some a → a < next

namespace SharedPtrs

/-- One handle on one object. -/
def single (n : ι) (x : α) : SharedPtrs ι α where
  objects := fun _ => x
  next := 1
  handles := AList.singleton n 0
  bound m a h := by
    obtain ⟨⟩ := List.mem_singleton.mp (AList.mem_lookup_iff.mp h)
    exact Nat.one_pos

/-- No handle yet. -/
def empty (x : α) : SharedPtrs ι α where
  objects := fun _ => x
  next := 0
  handles := ∅
  bound n a h := by
    rw [AList.lookup_empty] at h
    cases h

variable (s : SharedPtrs ι α)

/-- The object a handle points to. -/
def address (n : ι) : Option Nat :=
  s.handles.lookup n

def held (a : Nat) : Bool :=
  s.handles.entries.any fun e => e.2 == a

def get (n : ι) : Option α :=
  (s.address n).map s.objects

def make (n : ι) (x : α) : SharedPtrs ι α where
  objects := Function.update s.objects s.next x
  next := s.next + 1
  handles := s.handles.insert n s.next
  bound m a h := by
    by_cases hm : m = n
    · rw [hm, AList.lookup_insert] at h
      rw [← Option.some.inj h]
      exact Nat.lt_succ_self _
    · rw [AList.lookup_insert_ne hm] at h
      exact Nat.lt_succ_of_lt (s.bound m a h)

/-- `dst` points where `src` points, which has to be a handle. -/
def copy (src dst : ι) : SharedPtrs ι α :=
  match hsrc : s.address src with
  | none => s
  | some b =>
    { s with
      handles := s.handles.insert dst b
      bound := by
        intro m a h
        by_cases hm : m = dst
        · rw [hm, AList.lookup_insert] at h
          rw [← Option.some.inj h]
          exact s.bound src b hsrc
        · rw [AList.lookup_insert_ne hm] at h
          exact s.bound m a h }

/-- The object is destroyed unless a handle still points to it. -/
def release (final : α → α) (a : Nat) : SharedPtrs ι α :=
  if s.held a then s else { s with objects := Function.update s.objects a (final (s.objects a)) }

def erase (n : ι) : SharedPtrs ι α :=
  { s with
    handles := s.handles.erase n
    bound := by
      intro m a h
      by_cases hm : m = n
      · rw [hm, AList.lookup_erase] at h
        cases h
      · rw [AList.lookup_erase_ne hm] at h
        exact s.bound m a h }

def drop (final : α → α) (n : ι) : SharedPtrs ι α :=
  match s.address n with
  | none => s
  | some a => (s.erase n).release final a

/-- The object that `dst` pointed to is let go after `dst` has been redirected. -/
def assign (final : α → α) (dst src : ι) : SharedPtrs ι α :=
  match s.address dst with
  | none => s.copy src dst
  | some a => (s.copy src dst).release final a

/-- Acts on the object that the handle points to. -/
def modify (n : ι) (f : α → α) : SharedPtrs ι α :=
  match s.address n with
  | none => s
  | some a => { s with objects := Function.update s.objects a (f (s.objects a)) }

def live (n : ι) : Bool :=
  (s.address n).isSome

/-- A handle is made under a free name; all else happens to handles that are there. -/
def admits : Lifetime ι → Bool
  | .construct n => !s.live n
  | .copy src dst => s.live src && !s.live dst
  | .assign dst src => s.live dst && s.live src
  | .destroy n => s.live n

/-- `default` is the object that a handle is constructed with. -/
def apply (default : α) (final : α → α) : Lifetime ι → SharedPtrs ι α
  | .construct n => s.make n default
  | .copy src dst => s.copy src dst
  | .assign dst src => s.assign final dst src
  | .destroy n => s.drop final n

variable {s}

theorem held_iff {a : Nat} : s.held a = true ↔ ∃ n, s.address n = some a := by
  simp only [held, List.any_eq_true, beq_iff_eq]
  constructor
  · rintro ⟨⟨n, b⟩, hmem, rfl⟩
    exact ⟨n, AList.mem_lookup_iff.mpr hmem⟩
  · rintro ⟨n, hn⟩
    exact ⟨⟨n, a⟩, AList.mem_lookup_iff.mp hn, rfl⟩

/-- An object is held as long as the handles on it stay. -/
theorem held_of_address {s' : SharedPtrs ι α} {a : Nat}
    (hkeeps : ∀ n, s.address n = some a → s'.address n = some a) (hheld : s.held a = true) :
    s'.held a = true := by
  obtain ⟨n, hn⟩ := held_iff.mp hheld
  exact held_iff.mpr ⟨n, hkeeps n hn⟩

theorem address_single (n m : ι) (x : α) :
    (single n x).address m = if m = n then some 0 else none := by
  by_cases hm : m = n
  · rw [if_pos hm, hm]
    exact AList.lookup_insert (∅ : AList fun _ : ι => Nat)
  · rw [if_neg hm]
    exact (AList.lookup_insert_ne hm).trans (AList.lookup_empty m)

theorem address_make (n m : ι) (x : α) :
    (s.make n x).address m = if m = n then some s.next else s.address m := by
  by_cases hm : m = n
  · rw [if_pos hm, hm]
    exact AList.lookup_insert _
  · rw [if_neg hm]
    exact AList.lookup_insert_ne hm

theorem address_copy (src dst m : ι) :
    (s.copy src dst).address m =
      if m = dst then (s.address src).or (s.address dst) else s.address m := by
  unfold copy
  split
  case h_1 hsrc =>
    by_cases hm : m = dst
    · rw [if_pos hm, hsrc, hm]
      rfl
    · rw [if_neg hm]
  case h_2 b hsrc =>
    have hor : (s.address src).or (s.address dst) = some b := by rw [hsrc, Option.some_or]
    by_cases hm : m = dst
    · rw [if_pos hm, hor, hm]
      exact AList.lookup_insert _
    · rw [if_neg hm]
      exact AList.lookup_insert_ne hm

@[simp] theorem address_release (final : α → α) (a : Nat) (m : ι) :
    (s.release final a).address m = s.address m := by
  unfold release
  split <;> rfl

theorem address_erase (n m : ι) :
    (s.erase n).address m = if m = n then none else s.address m := by
  by_cases hm : m = n
  · rw [if_pos hm, hm]
    exact AList.lookup_erase n s.handles
  · rw [if_neg hm]
    exact AList.lookup_erase_ne hm

theorem address_drop (final : α → α) (n m : ι) :
    (s.drop final n).address m = if m = n then none else s.address m := by
  unfold drop
  split
  case h_1 hn =>
    by_cases hm : m = n
    · rw [if_pos hm, hm, hn]
    · rw [if_neg hm]
  case h_2 a hn => rw [address_release, address_erase]

theorem address_assign (final : α → α) (dst src m : ι) :
    (s.assign final dst src).address m =
      if m = dst then (s.address src).or (s.address dst) else s.address m := by
  unfold assign
  split
  · exact address_copy src dst m
  · rw [address_release, address_copy]

@[simp] theorem address_modify (n m : ι) (f : α → α) : (s.modify n f).address m = s.address m := by
  unfold modify
  split <;> rfl

@[simp] theorem next_make (n : ι) (x : α) : (s.make n x).next = s.next + 1 := rfl

@[simp] theorem next_copy (src dst : ι) : (s.copy src dst).next = s.next := by
  unfold copy
  split <;> rfl

@[simp] theorem next_release (final : α → α) (a : Nat) : (s.release final a).next = s.next := by
  unfold release
  split <;> rfl

@[simp] theorem next_drop (final : α → α) (n : ι) : (s.drop final n).next = s.next := by
  unfold drop
  split
  · rfl
  · exact next_release final _

@[simp] theorem next_assign (final : α → α) (dst src : ι) :
    (s.assign final dst src).next = s.next := by
  unfold assign
  split
  · exact next_copy src dst
  · rw [next_release, next_copy]

@[simp] theorem next_modify (n : ι) (f : α → α) : (s.modify n f).next = s.next := by
  unfold modify
  split <;> rfl

theorem objects_make {a : Nat} (h : a < s.next) (n : ι) (x : α) :
    (s.make n x).objects a = s.objects a :=
  Function.update_of_ne (Nat.ne_of_lt h) _ _

@[simp] theorem objects_copy (src dst : ι) (a : Nat) : (s.copy src dst).objects a = s.objects a := by
  unfold copy
  split <;> rfl

/-- An object outlives any release as long as a handle points to it. -/
theorem objects_release {m : ι} {a : Nat} (h : s.address m = some a) (final : α → α) (b : Nat) :
    (s.release final b).objects a = s.objects a := by
  unfold release
  split
  case isTrue => rfl
  case isFalse hheld =>
    refine Function.update_of_ne ?_ _ _
    rintro rfl
    exact hheld (held_iff.mpr ⟨m, h⟩)

theorem objects_drop {final : α → α} {n m : ι} {a : Nat}
    (h : (s.drop final n).address m = some a) : (s.drop final n).objects a = s.objects a := by
  unfold drop at h ⊢
  split
  · rfl
  · rename_i b hb
    rw [hb, address_release] at h
    exact objects_release h final b

theorem objects_assign {final : α → α} {dst src m : ι} {a : Nat}
    (h : (s.assign final dst src).address m = some a) :
    (s.assign final dst src).objects a = s.objects a := by
  unfold assign at h ⊢
  split
  · exact objects_copy src dst a
  · rename_i b hb
    rw [hb, address_release] at h
    rw [objects_release h final b, objects_copy]

theorem objects_modify {n : ι} {a : Nat} (h : s.address n = some a) (f : α → α) :
    (s.modify n f).objects a = f (s.objects a) := by
  unfold modify
  rw [h]
  exact Function.update_self a _ _

theorem objects_modify_of_ne {n : ι} {a : Nat} (h : s.address n ≠ some a) (f : α → α) :
    (s.modify n f).objects a = s.objects a := by
  unfold modify
  split
  · rfl
  · rename_i b hb
    refine Function.update_of_ne ?_ _ _
    rintro rfl
    exact h hb

theorem next_apply {β : Type v} {t : SharedPtrs ι β} (hnext : t.next = s.next) (e : Lifetime ι)
    (x : α) (y : β) (final : α → α) (final' : β → β) :
    (t.apply y final' e).next = (s.apply x final e).next := by
  cases e <;> simpa [apply] using hnext

/-- Where the handles point after a step depends on nothing but where they pointed. -/
theorem address_apply {β : Type v} {t : SharedPtrs ι β} (hnext : t.next = s.next)
    (haddress : ∀ n, t.address n = s.address n) (e : Lifetime ι)
    (x : α) (y : β) (final : α → α) (final' : β → β) (n : ι) :
    (t.apply y final' e).address n = (s.apply x final e).address n := by
  cases e with
  | construct m =>
    simp only [apply, address_make]
    rw [hnext, haddress]
  | copy src dst => simp only [apply, address_copy, haddress]
  | assign dst src => simp only [apply, address_assign, haddress]
  | destroy m => simp only [apply, address_drop, haddress]

/-- An object made before a step to which a handle points after it had a handle before
    it, and the step has not touched it. -/
theorem apply_objects {x : α} {final : α → α} {e : Lifetime ι} {m : ι} {a : Nat} (ha : a < s.next)
    (h : (s.apply x final e).address m = some a) :
    (s.apply x final e).objects a = s.objects a ∧ ∃ n, s.address n = some a := by
  have horigin : ∀ src dst, (if m = dst then (s.address src).or (s.address dst) else s.address m) =
      some a → ∃ n, s.address n = some a := by
    intro src dst h
    split at h
    · obtain hsrc | ⟨-, hdst⟩ := Option.or_eq_some_iff.mp h
      · exact ⟨src, hsrc⟩
      · exact ⟨dst, hdst⟩
    · exact ⟨m, h⟩
  cases e with
  | construct n =>
    refine ⟨objects_make ha n x, m, ?_⟩
    rw [apply, address_make] at h
    split at h
    · have hnew : s.next = a := Option.some.inj h
      omega
    · exact h
  | copy src dst =>
    refine ⟨objects_copy src dst a, ?_⟩
    rw [apply, address_copy] at h
    exact horigin src dst h
  | assign dst src =>
    refine ⟨objects_assign h, ?_⟩
    rw [apply, address_assign] at h
    exact horigin src dst h
  | destroy n =>
    refine ⟨objects_drop h, m, ?_⟩
    rw [apply, address_drop] at h
    split at h
    · cases h
    · exact h

theorem next_le_apply (x : α) (final : α → α) (e : Lifetime ι) :
    s.next ≤ (s.apply x final e).next := by
  cases e <;> simp [apply]

end SharedPtrs

end Lib
