import HostArduino.Lib.Search

namespace Lib

universe u

variable {α : Type u}

/-- The places in a text where a scan from left to right finds the pattern: each is the
    first behind what the scan has passed, and the scan goes on behind the occurrence. -/
inductive Leftmost (p s : List α) : Nat → List Nat → Prop
  | stop {start : Nat} (hnone : ∀ a, start ≤ a → ¬OccursAt p s a) : Leftmost p s start []
  | found {start a : Nat} {places : List Nat} (hle : start ≤ a) (hoccurs : OccursAt p s a)
      (hfirst : ∀ b, start ≤ b → b < a → ¬OccursAt p s b)
      (hrest : Leftmost p s (a + p.length) places) : Leftmost p s start (a :: places)

/-- The text behind `start` with `r` for the `count` symbols at each of the places. -/
def splice (count : Nat) (r s : List α) (start : Nat) : List Nat → List α
  | [] => s.drop start
  | a :: places => (s.drop start).take (a - start) ++ r ++ splice count r s (a + count) places

variable {p r s : List α} {start : Nat}

theorem occursAt_drop {a : Nat} : OccursAt p (s.drop start) a ↔ OccursAt p s (start + a) := by
  rw [OccursAt, OccursAt, List.drop_drop]

/-- The first occurrence behind `start`, as one in what is left of the text. -/
theorem firstAt_drop_iff {a : Nat} :
    FirstAt p (s.drop start) a ↔
      OccursAt p s (start + a) ∧ ∀ b, start ≤ b → b < start + a → ¬OccursAt p s b := by
  constructor
  · intro hfirst
    refine ⟨occursAt_drop.mp hfirst.occurs, fun b hle hlt hb => ?_⟩
    refine hfirst.first (b - start) (by omega) (occursAt_drop.mpr ?_)
    rwa [Nat.add_sub_cancel' hle]
  · rintro ⟨hoccurs, hfirst⟩
    refine ⟨occursAt_drop.mpr hoccurs, fun b hlt hb => ?_⟩
    exact hfirst (start + b) (by omega) (by omega) (occursAt_drop.mp hb)

theorem Leftmost.exists (hp : p ≠ []) (s : List α) (start : Nat) : ∃ places, Leftmost p s start places := by
  have hpos := List.length_pos_iff.mpr hp
  induction hroom : s.length - start using Nat.strongRecOn generalizing start with
  | ind room ih =>
    by_cases hexists : ∃ a, OccursAt p (s.drop start) a
    · obtain ⟨a, ha⟩ := hexists
      obtain ⟨b, -, hb⟩ := exists_firstAt ha
      obtain ⟨hoccurs, hfirst⟩ := firstAt_drop_iff.mp hb
      have hend := hoccurs.end_le hp
      obtain ⟨places, hrest⟩ := ih _ (by omega) (start + b + p.length) rfl
      exact ⟨_, .found (Nat.le_add_right start b) hoccurs hfirst hrest⟩
    · refine ⟨[], .stop fun a hle ha => hexists ⟨a - start, occursAt_drop.mpr ?_⟩⟩
      rwa [Nat.add_sub_cancel' hle]

theorem Leftmost.unique {places other : List Nat} (h : Leftmost p s start places)
    (hother : Leftmost p s start other) : places = other := by
  induction h generalizing other with
  | stop hnone =>
    cases hother with
    | stop => rfl
    | found hle hoccurs => exact absurd hoccurs (hnone _ hle)
  | found hle hoccurs hfirst hrest ih =>
    cases hother with
    | stop hnone => exact absurd hoccurs (hnone _ hle)
    | found hle' hoccurs' hfirst' hrest' =>
      rename_i a _ b _
      have hab : a = b := by
        obtain hlt | heq | hgt := Nat.lt_trichotomy a b
        · exact absurd hoccurs (hfirst' a hle hlt)
        · exact heq
        · exact absurd hoccurs' (hfirst b hle' hgt)
      subst hab
      rw [ih hrest']

/-- Each replacement changes the length by the difference of the two. -/
theorem Leftmost.length_splice (hp : p ≠ []) {places : List Nat} (h : Leftmost p s start places) :
    (splice p.length r s start places).length + places.length * p.length =
      s.length - start + places.length * r.length := by
  induction h with
  | stop => simp [splice]
  | found hle hoccurs hfirst hrest ih =>
    have hend := hoccurs.end_le hp
    simp only [splice, List.length_append, List.length_take, List.length_drop, List.length_cons,
      Nat.add_mul, Nat.one_mul]
    omega

end Lib
