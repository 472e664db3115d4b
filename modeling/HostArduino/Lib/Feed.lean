import Mathlib.Data.List.TakeDrop

namespace Lib

universe u v

variable {ω : Type u} {β : Type v}

/-- How the elements of a stream arrive, apart from what they are: `arrived` is how
    many can be taken now, `announced` how many can ever be, and `wait` waits until
    one can be taken or gives up. A wait that succeeds where nothing had arrived
    uses up some of `rank`, so only finitely many do. -/
structure Feed (ω : Type u) where
  arrived : ω → Nat
  announced : ω → Nat
  rank : ω → Nat
  take : Nat → ω → ω
  wait : ω → Bool × ω
  arrived_le_announced : ∀ w, arrived w ≤ announced w
  arrived_take : ∀ k w, arrived (take k w) = arrived w - k
  announced_take : ∀ k w, k ≤ arrived w → announced (take k w) = announced w - k
  rank_take : ∀ k w, rank (take k w) = rank w
  take_zero : ∀ w, take 0 w = w
  take_take : ∀ j k w, take j (take k w) = take (k + j) w
  wait_of_arrived : ∀ w, 0 < arrived w → wait w = (true, w)
  arrived_of_wait : ∀ w, (wait w).1 = true → 0 < arrived (wait w).2
  announced_wait : ∀ w, announced (wait w).2 = announced w
  rank_wait : ∀ w, arrived w = 0 → (wait w).1 = true → rank (wait w).2 < rank w

namespace Feed

variable (A : Feed ω)

/-- Everything that has arrived is taken. -/
def drain (w : ω) : ω :=
  A.take (A.arrived w) w

theorem arrived_drain (w : ω) : A.arrived (A.drain w) = 0 := by
  rw [drain, A.arrived_take, Nat.sub_self]

theorem rank_drain (w : ω) : A.rank (A.drain w) = A.rank w :=
  A.rank_take _ _

/-- How many elements are delivered before a wait gives up for the first time, and
    where that wait leaves off. -/
def burst (w : ω) : Nat × ω :=
  if (A.wait (A.drain w)).1 then
    let rest := burst (A.wait (A.drain w)).2
    (A.arrived w + rest.1, rest.2)
  else (A.arrived w, (A.wait (A.drain w)).2)
termination_by A.rank w
decreasing_by
  rename_i hwait
  have hrank := A.rank_wait _ (A.arrived_drain w) hwait
  rwa [A.rank_drain] at hrank

def ready (w : ω) : Nat :=
  (A.burst w).1

def stalled (w : ω) : ω :=
  (A.burst w).2

variable {A} {w : ω}

theorem burst_of_drain_true (hwait : (A.wait (A.drain w)).1 = true) :
    A.ready w = A.arrived w + A.ready (A.wait (A.drain w)).2 ∧
      A.stalled w = A.stalled (A.wait (A.drain w)).2 := by
  unfold ready stalled
  rw [burst, if_pos hwait]
  exact ⟨rfl, rfl⟩

theorem burst_of_drain_false (hwait : (A.wait (A.drain w)).1 = false) :
    A.ready w = A.arrived w ∧ A.stalled w = (A.wait (A.drain w)).2 := by
  unfold ready stalled
  rw [burst, if_neg (by simp [hwait])]
  exact ⟨rfl, rfl⟩

theorem arrived_le_ready : A.arrived w ≤ A.ready w := by
  cases hwait : (A.wait (A.drain w)).1 with
  | true =>
    rw [(burst_of_drain_true hwait).1]
    exact Nat.le_add_right _ _
  | false => exact Nat.le_of_eq (burst_of_drain_false hwait).1.symm

theorem drain_take {k : Nat} (hk : k ≤ A.arrived w) : A.drain (A.take k w) = A.drain w := by
  unfold drain
  rw [A.arrived_take, A.take_take, Nat.add_sub_cancel' hk]

/-- Taking what has arrived brings the first stall nearer and does not move it. -/
theorem burst_take {k : Nat} (hk : k ≤ A.arrived w) :
    A.ready (A.take k w) = A.ready w - k ∧ A.stalled (A.take k w) = A.stalled w := by
  cases hwait : (A.wait (A.drain w)).1 with
  | true =>
    obtain ⟨hready, hstalled⟩ := burst_of_drain_true hwait
    obtain ⟨hready', hstalled'⟩ := burst_of_drain_true (w := A.take k w) (by rwa [drain_take hk])
    rw [drain_take hk] at hready' hstalled'
    rw [hready', hstalled', hready, hstalled, A.arrived_take]
    exact ⟨by omega, rfl⟩
  | false =>
    obtain ⟨hready, hstalled⟩ := burst_of_drain_false hwait
    obtain ⟨hready', hstalled'⟩ := burst_of_drain_false (w := A.take k w) (by rwa [drain_take hk])
    rw [drain_take hk] at hstalled'
    rw [hready', hstalled', hready, hstalled, A.arrived_take]
    exact ⟨rfl, rfl⟩

theorem drain_of_arrived_zero (hnone : A.arrived w = 0) : A.drain w = w := by
  rw [drain, hnone, A.take_zero]

theorem burst_of_wait_false (hwait : (A.wait w).1 = false) :
    A.ready w = 0 ∧ A.stalled w = (A.wait w).2 := by
  have hnone : A.arrived w = 0 := by
    by_contra hsome
    rw [A.wait_of_arrived w (Nat.pos_of_ne_zero hsome)] at hwait
    cases hwait
  have hdrain := drain_of_arrived_zero hnone
  obtain ⟨hready, hstalled⟩ := burst_of_drain_false (w := w) (by rwa [hdrain])
  rw [hdrain] at hstalled
  exact ⟨hready.trans hnone, hstalled⟩

/-- A wait that succeeds is on the way to the first stall. -/
theorem burst_of_wait_true (hwait : (A.wait w).1 = true) :
    A.ready (A.wait w).2 = A.ready w ∧ A.stalled (A.wait w).2 = A.stalled w := by
  by_cases hsome : 0 < A.arrived w
  · rw [A.wait_of_arrived w hsome]
    exact ⟨rfl, rfl⟩
  · have hnone : A.arrived w = 0 := by omega
    have hdrain := drain_of_arrived_zero hnone
    obtain ⟨hready, hstalled⟩ := burst_of_drain_true (w := w) (by rwa [hdrain])
    rw [hdrain] at hready hstalled
    exact ⟨by omega, hstalled.symm⟩

/-- What is delivered before the first stall and what may come after it are all there is. -/
theorem announced_stalled (w : ω) : A.announced (A.stalled w) + A.ready w = A.announced w := by
  induction hrank : A.rank w using Nat.strongRecOn generalizing w with
  | _ rank ih =>
    have hdrained : A.announced (A.wait (A.drain w)).2 = A.announced w - A.arrived w := by
      rw [A.announced_wait]
      exact A.announced_take _ _ (Nat.le_refl _)
    have hle := A.arrived_le_announced w
    cases hwait : (A.wait (A.drain w)).1 with
    | true =>
      obtain ⟨hready, hstalled⟩ := burst_of_drain_true hwait
      have hless := A.rank_wait _ (A.arrived_drain w) hwait
      rw [A.rank_drain, hrank] at hless
      have hrest := ih _ hless _ rfl
      rw [hready, hstalled]
      omega
    | false =>
      obtain ⟨hready, hstalled⟩ := burst_of_drain_false hwait
      rw [hready, hstalled, hdrained]
      omega

end Feed

/-- A stream whose unread elements arrive as its feed says. -/
structure Source (ω : Type u) (β : Type v) where
  wire : ω
  unread : List β
  deriving DecidableEq

namespace Source

section

variable (A : Feed ω) (s : Source ω β)

def wait : Bool × Source ω β :=
  ((A.wait s.wire).1, { s with wire := (A.wait s.wire).2 })

/-- A read hands over what has arrived, up to `n` elements of it. -/
def read (n : Nat) : List β × Source ω β :=
  (s.unread.take (min n (A.arrived s.wire)),
    { wire := A.take (min n (A.arrived s.wire)) s.wire,
      unread := s.unread.drop (min n (A.arrived s.wire)) })

/-- What is delivered before a wait gives up for the first time, and the stream after that wait. -/
def ready : List β :=
  s.unread.take (A.ready s.wire)

def stalled : Source ω β where
  wire := A.stalled s.wire
  unread := s.unread.drop (A.ready s.wire)

/-- Every element that the feed announces is there to be read. -/
def Fed : Prop :=
  A.announced s.wire ≤ s.unread.length

end

variable {A : Feed ω} {s : Source ω β}

theorem ready_append_stalled : s.ready A ++ (s.stalled A).unread = s.unread :=
  List.take_append_drop _ _

theorem Fed.length_ready (hfed : s.Fed A) : (s.ready A).length = A.ready s.wire := by
  have hsum := A.announced_stalled s.wire
  unfold Fed at hfed
  rw [ready, List.length_take]
  omega

theorem Fed.stalled (hfed : s.Fed A) : (s.stalled A).Fed A := by
  have hsum := A.announced_stalled s.wire
  unfold Fed at hfed ⊢
  change A.announced (A.stalled s.wire) ≤ (s.unread.drop (A.ready s.wire)).length
  rw [List.length_drop]
  omega

theorem Fed.wait (hfed : s.Fed A) : (s.wait A).2.Fed A := by
  unfold Fed at hfed ⊢
  change A.announced (A.wait s.wire).2 ≤ s.unread.length
  rwa [A.announced_wait]

theorem of_wait_false (hwait : (s.wait A).1 = false) :
    s.ready A = [] ∧ s.stalled A = (s.wait A).2 := by
  obtain ⟨hready, hstalled⟩ := A.burst_of_wait_false hwait
  unfold ready stalled
  rw [hready, hstalled]
  exact ⟨rfl, rfl⟩

theorem of_wait_true (hwait : (s.wait A).1 = true) :
    (s.wait A).2.ready A = s.ready A ∧ (s.wait A).2.stalled A = s.stalled A := by
  obtain ⟨hready, hstalled⟩ := A.burst_of_wait_true hwait
  change A.ready (s.wait A).2.wire = _ at hready
  change A.stalled (s.wait A).2.wire = _ at hstalled
  unfold ready stalled
  rw [hready, hstalled]
  exact ⟨rfl, rfl⟩

/-- What a read hands over comes off the unread elements and off those ready. -/
theorem read_append (n : Nat) :
    (s.read A n).1 ++ (s.read A n).2.unread = s.unread ∧
      (s.read A n).1 ++ (s.read A n).2.ready A = s.ready A ∧
      (s.read A n).2.stalled A = s.stalled A := by
  have hle : min n (A.arrived s.wire) ≤ A.arrived s.wire := Nat.min_le_right _ _
  obtain ⟨hready, hstalled⟩ := A.burst_take hle
  have hready_le : min n (A.arrived s.wire) ≤ A.ready s.wire := Nat.le_trans hle A.arrived_le_ready
  refine ⟨List.take_append_drop _ _, ?_, ?_⟩
  · unfold read ready
    simp only [hready]
    rw [← List.take_add, Nat.add_sub_cancel' hready_le]
  · unfold read stalled
    simp only [hready, hstalled]
    rw [List.drop_drop, Nat.add_sub_cancel' hready_le]

theorem Fed.read (hfed : s.Fed A) (n : Nat) : (s.read A n).2.Fed A := by
  unfold Fed at hfed ⊢
  unfold Source.read
  have hle : min n (A.arrived s.wire) ≤ A.arrived s.wire := Nat.min_le_right _ _
  rw [A.announced_take _ _ hle, List.length_drop]
  omega

theorem Fed.length_read (hfed : s.Fed A) (n : Nat) :
    (s.read A n).1.length = min n (A.arrived s.wire) := by
  have hle := A.arrived_le_announced s.wire
  unfold Fed at hfed
  rw [Source.read, List.length_take]
  omega

/-- Waiting and then reading either meets the first stall with nothing ready, or
    takes at least one and at most `n` elements off those ready. -/
theorem pull (hfed : s.Fed A) {n : Nat} (hn : 0 < n) :
    (s.wait A = (false, s.stalled A) ∧ s.ready A = []) ∨
      ∃ s' got rest, s.wait A = (true, s') ∧ s'.read A n = (got, rest) ∧ got ≠ [] ∧ got.length ≤ n ∧
        got ++ rest.unread = s.unread ∧ got ++ rest.ready A = s.ready A ∧
        rest.stalled A = s.stalled A ∧ rest.Fed A := by
  cases hwait : (s.wait A).1 with
  | false =>
    obtain ⟨hready, hstalled⟩ := of_wait_false hwait
    refine .inl ⟨?_, hready⟩
    rw [hstalled]
    exact Prod.ext hwait rfl
  | true =>
    obtain ⟨hready, hstalled⟩ := of_wait_true hwait
    have hsome : 0 < A.arrived (s.wait A).2.wire := A.arrived_of_wait _ hwait
    obtain ⟨happend, hread, hstall⟩ := read_append (A := A) (s := (s.wait A).2) n
    have hlength := hfed.wait.length_read n
    refine .inr ⟨_, _, _, Prod.ext hwait rfl, rfl, ?_, ?_, happend, hread.trans hready,
      hstall.trans hstalled, hfed.wait.read n⟩
    · refine List.ne_nil_of_length_pos ?_
      change 0 < ((s.wait A).2.read A n).1.length
      omega
    · change ((s.wait A).2.read A n).1.length ≤ n
      omega

end Source

end Lib
