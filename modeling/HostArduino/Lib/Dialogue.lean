import Mathlib.Data.List.Induction

namespace Lib

universe u v w x

variable {σ : Type u} {α : Type v} {β : Type w} {γ : Type x}

/-- One party of a dialogue: what it asks in each state, and what an answer leads to, a
    result or another state to ask in. Its patience with further answers runs out. -/
structure Dialogue (σ : Type u) (α : Type v) (β : Type w) (γ : Type x) where
  ask : σ → α
  react : σ → β → γ ⊕ σ
  patience : σ → Nat
  patience_react : ∀ s b s', react s b = .inr s' → patience s' < patience s

namespace Dialogue

/-- The dialogue with a server that answers by all it has been asked so far: the result,
    and everything that was asked. -/
def run (d : Dialogue σ α β γ) (server : List α → β) (s : σ) (seen : List α) : γ × List α :=
  match _hreact : d.react s (server (seen ++ [d.ask s])) with
  | .inl result => (result, seen ++ [d.ask s])
  | .inr s' => d.run server s' (seen ++ [d.ask s])
termination_by d.patience s
decreasing_by exact d.patience_react _ _ _ _hreact

variable {d : Dialogue σ α β γ} {server : List α → β} {s : σ} {seen : List α}

theorem run_of_inl {result : γ} (hreact : d.react s (server (seen ++ [d.ask s])) = .inl result) :
    d.run server s seen = (result, seen ++ [d.ask s]) := by
  rw [run]
  split
  · rename_i result' hreact'
    rw [hreact] at hreact'
    obtain rfl := Sum.inl.inj hreact'
    rfl
  · rename_i s' hreact'
    rw [hreact] at hreact'
    cases hreact'

theorem run_of_inr {s' : σ} (hreact : d.react s (server (seen ++ [d.ask s])) = .inr s') :
    d.run server s seen = d.run server s' (seen ++ [d.ask s]) := by
  conv_lhs => rw [run]
  split
  · rename_i result hreact'
    rw [hreact] at hreact'
    cases hreact'
  · rename_i s'' hreact'
    rw [hreact] at hreact'
    obtain rfl := Sum.inr.inj hreact'
    rfl

/-- The rule of a dialogue: a relation between what was asked and the state, kept by every
    answer that goes on and turned into another by every answer that ends it. -/
theorem run_rule {P : List α → σ → Prop} {Q : List α → γ → Prop}
    (hnext : ∀ seen s s', P seen s → d.react s (server (seen ++ [d.ask s])) = .inr s' →
      P (seen ++ [d.ask s]) s')
    (hend : ∀ seen s result, P seen s → d.react s (server (seen ++ [d.ask s])) = .inl result →
      Q (seen ++ [d.ask s]) result)
    (hs : P seen s) : Q (d.run server s seen).2 (d.run server s seen).1 := by
  induction hpatience : d.patience s using Nat.strongRecOn generalizing s seen with
  | _ patience ih =>
    cases hreact : d.react s (server (seen ++ [d.ask s])) with
    | inl result =>
      rw [run_of_inl hreact]
      exact hend seen s result hs hreact
    | inr s' =>
      have hless := d.patience_react s _ s' hreact
      rw [run_of_inr hreact]
      exact ih _ (hpatience ▸ hless) (hnext seen s s' hs hreact) rfl

/-- Every element of a list stands in relation to those before it. -/
def Justified (R : List α → α → Prop) (l : List α) : Prop :=
  ∀ seen a rest, l = seen ++ a :: rest → R seen a

variable {R : List α → α → Prop}

theorem justified_nil : Justified R [] := by
  intro seen a rest hsplit
  simp at hsplit

theorem Justified.concat {l : List α} {a : α} (hl : Justified R l) (ha : R l a) :
    Justified R (l ++ [a]) := by
  intro seen b rest hsplit
  induction rest using List.reverseRecOn with
  | nil =>
    obtain ⟨hseen, hb⟩ := List.append_inj' hsplit rfl
    obtain rfl : a = b := List.singleton_inj.mp hb
    rwa [← hseen]
  | append_singleton rest c _ =>
    rw [← List.cons_append, ← List.append_assoc] at hsplit
    exact hl seen b rest (List.append_inj' hsplit rfl).1

end Dialogue

end Lib
