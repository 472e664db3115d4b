import Mathlib.Data.List.Basic

namespace Lib

universe u

/-- What a computation comes to: its value, the state it leaves and the calls it made, the
    first one first. -/
structure Traced.Result (σ A α : Type u) where
  value : α
  state : σ
  calls : List A

/-- A computation over a state that is reached only through calls, each of them recorded. -/
def Traced (σ A α : Type u) : Type u :=
  σ → Traced.Result σ A α

namespace Traced

variable {σ A α β : Type u}

/-- One call, recorded with its answer. -/
def call (act : σ → α × σ) (record : α → A) : Traced σ A α :=
  fun s =>
    let answer := act s
    ⟨answer.1, answer.2, [record answer.1]⟩

instance : Monad (Traced σ A) where
  pure x := fun s => ⟨x, s, []⟩
  bind m f := fun s =>
    let first := m s
    let second := f first.value first.state
    ⟨second.value, second.state, first.calls ++ second.calls⟩

@[simp]
theorem pure_apply (x : α) (s : σ) : (pure x : Traced σ A α) s = ⟨x, s, []⟩ := rfl

@[simp]
theorem call_apply (act : σ → α × σ) (record : α → A) (s : σ) :
    call act record s = ⟨(act s).1, (act s).2, [record (act s).1]⟩ := rfl

@[simp]
theorem bind_apply (m : Traced σ A α) (f : α → Traced σ A β) (s : σ) :
    (m >>= f) s =
      ⟨(f (m s).value (m s).state).value, (f (m s).value (m s).state).state,
        (m s).calls ++ (f (m s).value (m s).state).calls⟩ := rfl

instance : LawfulMonad (Traced σ A) :=
  LawfulMonad.mk' _
    (fun m => funext fun s => by
      change (⟨(m s).value, (m s).state, (m s).calls ++ []⟩ : Traced.Result σ A _) = m s
      rw [List.append_nil])
    (fun _ _ => rfl)
    (fun m f g => funext fun s => by simp [List.append_assoc])

@[simp]
theorem map_apply (f : α → β) (m : Traced σ A α) (s : σ) :
    (f <$> m) s = ⟨f (m s).value, (m s).state, (m s).calls⟩ := by
  rw [map_eq_pure_bind, bind_apply]
  simp only [pure_apply, List.append_nil]

/-- Passing on an answer as it is adds nothing. -/
theorem bind_ite_pure {A σ : Type} (m : Traced σ A Bool) :
    (m >>= fun made => if made = true then pure true else pure false) = m := by
  have hpass : (fun made : Bool => if made = true then pure true else pure false) =
      (pure : Bool → Traced σ A Bool) := by
    funext made
    cases made <;> rfl
  rw [hpass, bind_pure]

/-- Every call that a computation makes from a state is one of `P`. -/
def Makes (P : A → Prop) (m : Traced σ A α) (s : σ) : Prop :=
  ∀ a ∈ (m s).calls, P a

variable {P : A → Prop} {s : σ}

theorem makes_pure (x : α) : Makes P (pure x : Traced σ A α) s := by
  simp [Makes]

theorem makes_call {act : σ → α × σ} {record : α → A} :
    Makes P (call act record) s ↔ P (record (act s).1) := by
  simp [Makes]

theorem makes_bind {m : Traced σ A α} {f : α → Traced σ A β} :
    Makes P (m >>= f) s ↔ Makes P m s ∧ Makes P (f (m s).value) (m s).state := by
  simp only [Makes, bind_apply, List.forall_mem_append]

theorem makes_map {m : Traced σ A α} {f : α → β} : Makes P (f <$> m) s ↔ Makes P m s := by
  rw [Makes, Makes, map_apply]

/-- From a state, a computation comes to a value, leaves the state as it is and makes only
    calls of `P`. -/
structure Settles (P : A → Prop) (m : Traced σ A α) (s : σ) (x : α) : Prop where
  value : (m s).value = x
  state : (m s).state = s
  makes : Makes P m s

namespace Settles

variable {m : Traced σ A α} {f : α → Traced σ A β} {x : α} {y : β}

theorem pure (x : α) : Settles P (pure x : Traced σ A α) s x :=
  ⟨rfl, rfl, makes_pure x⟩

theorem bind_value (hm : Settles P m s x) : ((m >>= f) s).value = (f x s).value := by
  rw [bind_apply, hm.value, hm.state]

theorem makes_bind (hm : Settles P m s x) : Makes P (m >>= f) s ↔ Makes P (f x) s := by
  rw [Traced.makes_bind, hm.value, hm.state]
  exact and_iff_right hm.makes

theorem bind (hm : Settles P m s x) (hf : Settles P (f x) s y) : Settles P (m >>= f) s y := by
  refine ⟨hm.bind_value.trans hf.value, ?_, hm.makes_bind.mpr hf.makes⟩
  rw [bind_apply, hm.value, hm.state]
  exact hf.state

end Settles

end Traced

end Lib
