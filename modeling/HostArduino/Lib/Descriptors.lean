import Mathlib.Data.Finset.Basic
import Mathlib.Logic.Equiv.Basic

namespace Lib

universe u

/-- The descriptors that a system has open, and whether one was closed that was not. -/
structure Descriptors where
  opened : Finset Nat
  misused : Bool
  deriving DecidableEq

namespace Descriptors

def none : Descriptors where
  opened := ∅
  misused := false

def open_ (d : Descriptors) (fd : Nat) : Descriptors :=
  { d with opened := insert fd d.opened }

def close (d : Descriptors) (fd : Nat) : Descriptors where
  opened := d.opened.erase fd
  misused := d.misused || !decide (fd ∈ d.opened)

/-- Closes what there is to close. -/
def closeAny (d : Descriptors) : Option Nat → Descriptors
  | .none => d
  | some fd => d.close fd

/-- Takes over a descriptor that was given out, should there be one. -/
def openAny (d : Descriptors) : Option Nat → Descriptors
  | .none => d
  | some fd => d.open_ fd

/-- A system gives out only descriptors that are not open. -/
def Fresh (d : Descriptors) (fd : Option Nat) : Prop :=
  ∀ n, fd = some n → n ∉ d.opened

instance (d : Descriptors) (fd : Option Nat) : Decidable (d.Fresh fd) :=
  match fd with
  | .none => .isTrue nofun
  | some n =>
    if h : n ∈ d.opened then .isFalse fun hfresh => hfresh n rfl h
    else .isTrue fun _ heq => Option.some.inj heq ▸ h

/-- What was opened and is closed at once has never been there. -/
theorem close_open (d : Descriptors) {fd : Nat} (hfresh : fd ∉ d.opened) : (d.open_ fd).close fd = d := by
  simp [open_, close, hfresh]

end Descriptors

variable {β : Type u} {own : β → Option Nat} {d : Descriptors}

/-- What is open belongs to somebody, and to one only, and nothing was closed that was not open. -/
structure Owned (own : β → Option Nat) (d : Descriptors) : Prop where
  unique : ∀ b c fd, own b = some fd → own c = some fd → b = c
  opened : ∀ fd, fd ∈ d.opened ↔ ∃ b, own b = some fd
  misused : d.misused = false

namespace Owned

theorem none : Owned (fun _ : β => Option.none) .none where
  unique _ _ _ h := nomatch h
  opened fd := by simp [Descriptors.none]
  misused := rfl

theorem congr (h : Owned own d) {own' : β → Option Nat} (heq : ∀ b, own' b = own b) : Owned own' d := by
  obtain rfl : own' = own := funext heq
  exact h

/-- The owners under other names. -/
theorem comp (h : Owned own d) {γ : Type u} (e : γ ≃ β) : Owned (own ∘ e) d where
  unique _ _ fd hb hc := e.injective (h.unique _ _ fd hb hc)
  opened fd := by
    rw [h.opened]
    exact ⟨fun ⟨b, hb⟩ => ⟨e.symm b, by simpa using hb⟩, fun ⟨b, hb⟩ => ⟨e b, hb⟩⟩
  misused := h.misused

/-- Without owners nothing is open. -/
theorem opened_eq_empty (h : Owned own d) (hnone : ∀ b, own b = Option.none) : d.opened = ∅ := by
  refine Finset.eq_empty_of_forall_notMem fun fd hfd => ?_
  obtain ⟨b, hb⟩ := (h.opened fd).mp hfd
  rw [hnone b] at hb
  cases hb

variable [DecidableEq β]

/-- An owner closes what it has. -/
theorem release (h : Owned own d) (b : β) :
    Owned (Function.update own b Option.none) (d.closeAny (own b)) := by
  cases hown : own b with
  | none =>
    refine h.congr fun c => ?_
    by_cases hc : c = b
    · subst hc
      rw [Function.update_self, hown]
    · rw [Function.update_of_ne hc]
  | some fd =>
    have hopen : fd ∈ d.opened := (h.opened fd).mpr ⟨b, hown⟩
    refine ⟨fun c c' fd' hc hc' => ?_, fun fd' => ?_, ?_⟩
    · by_cases hcb : c = b
      · rw [hcb, Function.update_self] at hc
        cases hc
      · by_cases hcb' : c' = b
        · rw [hcb', Function.update_self] at hc'
          cases hc'
        · rw [Function.update_of_ne hcb] at hc
          rw [Function.update_of_ne hcb'] at hc'
          exact h.unique c c' fd' hc hc'
    · simp only [Descriptors.closeAny, Descriptors.close, Finset.mem_erase, h.opened]
      constructor
      · rintro ⟨hne, c, hc⟩
        refine ⟨c, ?_⟩
        rw [Function.update_of_ne ?_]
        · exact hc
        · rintro rfl
          exact hne (Option.some.inj (hc.symm.trans hown))
      · rintro ⟨c, hc⟩
        by_cases hcb : c = b
        · rw [hcb, Function.update_self] at hc
          cases hc
        · rw [Function.update_of_ne hcb] at hc
          refine ⟨?_, c, hc⟩
          rintro rfl
          exact hcb (h.unique c b fd' hc hown)
    · simp [Descriptors.closeAny, Descriptors.close, h.misused, hopen]

/-- Somebody who has nothing gets what the system gives out. -/
theorem acquire (h : Owned own d) {b : β} (hb : own b = Option.none) {fd : Option Nat} (hfresh : d.Fresh fd) :
    Owned (Function.update own b fd) (d.openAny fd) := by
  cases fd with
  | none =>
    refine h.congr fun c => ?_
    by_cases hc : c = b
    · subst hc
      rw [Function.update_self, hb]
    · rw [Function.update_of_ne hc]
  | some fd =>
    have hclosed : fd ∉ d.opened := hfresh fd rfl
    have hnobody : ∀ c, own c ≠ some fd := fun c hc => hclosed ((h.opened fd).mpr ⟨c, hc⟩)
    refine ⟨fun c c' fd' hc hc' => ?_, fun fd' => ?_, h.misused⟩
    · by_cases hcb : c = b
      · by_cases hcb' : c' = b
        · rw [hcb, hcb']
        · rw [hcb, Function.update_self] at hc
          rw [Function.update_of_ne hcb', ← hc] at hc'
          exact absurd hc' (hnobody c')
      · by_cases hcb' : c' = b
        · rw [hcb', Function.update_self] at hc'
          rw [Function.update_of_ne hcb, ← hc'] at hc
          exact absurd hc (hnobody c)
        · rw [Function.update_of_ne hcb] at hc
          rw [Function.update_of_ne hcb'] at hc'
          exact h.unique c c' fd' hc hc'
    · simp only [Descriptors.openAny, Descriptors.open_, Finset.mem_insert, h.opened]
      constructor
      · rintro (rfl | ⟨c, hc⟩)
        · exact ⟨b, Function.update_self ..⟩
        · refine ⟨c, ?_⟩
          rw [Function.update_of_ne ?_]
          · exact hc
          · rintro rfl
            rw [hb] at hc
            cases hc
      · rintro ⟨c, hc⟩
        by_cases hcb : c = b
        · rw [hcb, Function.update_self] at hc
          exact .inl (Option.some.inj hc).symm
        · rw [Function.update_of_ne hcb] at hc
          exact .inr ⟨c, hc⟩

/-- What one has is handed to another who has nothing. -/
theorem hand (h : Owned own d) {b c : β} (hc : own c = Option.none) :
    Owned (Function.update (Function.update own b Option.none) c (own b)) d := by
  refine (h.comp (Equiv.swap b c)).congr fun a => ?_
  by_cases hac : a = c
  · rw [hac, Function.update_self, Function.comp, Equiv.swap_apply_right]
  · rw [Function.update_of_ne hac, Function.comp]
    by_cases hab : a = b
    · rw [hab, Function.update_self, Equiv.swap_apply_left, hc]
    · rw [Function.update_of_ne hab, Equiv.swap_apply_of_ne_of_ne hab hac]

end Owned

end Lib
