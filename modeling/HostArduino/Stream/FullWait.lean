import HostArduino.Clock.Delay
import HostArduino.Stream.Timed

namespace HostArduino.stream

open clock

section Lasting

variable {ω : Type*} {P : Platform ω}

/-- A delay that no stop cuts short returns at or past its deadline. -/
theorem delay_reaches_deadline {ms : UInt64} {p q : Process ω}
    (hrunning : ∀ k, P.runtimeShouldStop (P.after k p).world = false)
    (hends : Lib.Ends (P.delay ms p) q) : P.reading p + ms * 1000 ≤ P.reading q := by
  obtain ⟨fuel, hends⟩ := hends
  obtain ⟨k, rfl, hstop | hlate⟩ := Platform.delay_eq_some hends
  · exact absurd ((hrunning k).symm.trans hstop) Bool.false_ne_true
  · exact hlate

/-- A timed look at a stream that never has a byte gives up at or past its deadline. -/
theorem timed_reaches_deadline {available : ω → Nat} {look : ω → Int × ω}
    (hempty : ∀ w, available w = 0 → look w = (-1, w)) {timeout : UInt64} {p : Process ω}
    {r : Int × Process ω} (hsilent : ∀ k, available (waited P k p).world = 0)
    (hends : Lib.Ends (timed P look timeout p) r) :
    P.reading p + timeout * 1000 ≤ P.reading r.2 := by
  obtain ⟨fuel, hends⟩ := hends
  rw [timed_eq] at hends
  generalize P.reading p + timeout * 1000 = deadline at hends ⊢
  have hagain : ∀ t t', (∃ k, t = waited P k p) → timedTurn P look deadline t = some (.again t') →
      ∃ k, t' = waited P k p := by
    rintro t t' ⟨k, rfl⟩ hturn
    rw [timedTurn_waited hempty (hsilent k)] at hturn
    split at hturn
    · cases hturn
      exact ⟨k + 1, rfl⟩
    · cases hturn
  obtain ⟨t, ⟨k, rfl⟩, hleave⟩ := Lib.loop_invariant hagain ⟨0, rfl⟩ hends
  rw [timedTurn_waited hempty (hsilent k)] at hleave
  split at hleave
  · cases hleave
  · rename_i hlate
    cases hleave
    exact UInt64.not_lt.mp hlate

theorem lasts_of_reaches {now timeout later : UInt64} (hfits : now.toNat + 1000 * timeout.toNat < 2 ^ 64)
    (hlate : now + timeout * 1000 ≤ later) : now.toNat + 1000 * timeout.toNat ≤ later.toNat := by
  rw [← deadline_toNat hfits]
  exact UInt64.le_iff_toNat_le.mp hlate

/-- No 64-bit clock can have moved on as far as a wait past its end demands. -/
theorem not_lasts {now timeout : UInt64} (hwraps : ¬now.toNat + 1000 * timeout.toNat < 2 ^ 64)
    (later : UInt64) : ¬now.toNat + 1000 * timeout.toNat ≤ later.toNat := by
  have hlater := later.toNat_lt
  omega

end Lasting

/-- A driver whose clock stands still until the first wait, and then jumps. -/
def jumpingProcess (now later : UInt64) : Process UInt64 where
  t0 := some 0
  now_hook := some id
  wait_hook := some fun _ _ => later
  world := now
  calls := []

/-- A stream that never has a byte. -/
def silentStream (ω : Type) : Stream ω where
  available _ := 0
  read w := (-1, w)
  peek w := (-1, w)
  read_empty _ _ := rfl
  read_ready _ h := absurd h (Nat.lt_irrefl 0)
  peek_empty _ _ := rfl
  peek_ready _ h := absurd h (Nat.lt_irrefl 0)

/-- On a clock that jumps to the deadline, both kinds of wait return. -/
theorem delay_jumping (now timeout : UInt64) :
    ∃ q, Lib.Ends (testPlatform.delay timeout (jumpingProcess now (now + timeout * 1000))) q := by
  by_cases hearly : now < now + timeout * 1000
  · refine ⟨_, 2, Platform.delay_ends (k := 1) (fun _ _ => rfl) (fun j hj => ?_) (.inr ?_)⟩
    · obtain rfl := Nat.lt_one_iff.mp hj
      exact hearly
    · exact UInt64.le_refl _
  · exact ⟨_, 1, Platform.delay_ends (k := 0) nofun nofun (.inr (UInt64.not_lt.mp hearly))⟩

theorem timed_jumping {look : UInt64 → Int × UInt64}
    (hempty : ∀ w, (silentStream UInt64).available w = 0 → look w = (-1, w))
    (hready : ∀ w, 0 < (silentStream UInt64).available w → 0 ≤ (look w).1) (now timeout : UInt64) :
    ∃ r, Lib.Ends (timed testPlatform look timeout (jumpingProcess now (now + timeout * 1000))) r := by
  refine ⟨_, (timed_gives_up_iff hempty hready).mpr ⟨0, rfl, ⟨nofun, nofun⟩, rfl, ?_⟩⟩
  exact UInt64.le_refl _

/-- For each timeout and each value of the clock, `delay`, `timedRead` and `timedPeek`
    never return before the clock has moved on by the timeout, whatever the clock
    does, exactly when the deadline fits in the 64 bits it is computed in. -/
theorem waits_last_iff (timeout now : UInt64) :
    ((∀ (ω : Type) (P : Platform ω) (p : Process ω), P.reading p = now →
        (∀ k, P.runtimeShouldStop (P.after k p).world = false) →
        ∀ q, Lib.Ends (P.delay timeout p) q →
          now.toNat + 1000 * timeout.toNat ≤ (P.reading q).toNat) ↔
      now.toNat + 1000 * timeout.toNat < 2 ^ 64) ∧
    ((∀ (ω : Type) (S : Stream ω) (P : Platform ω) (p : Process ω), P.reading p = now →
        (∀ k, S.available (waited P k p).world = 0) →
        ∀ r, Lib.Ends (S.timedRead P timeout p) r →
          now.toNat + 1000 * timeout.toNat ≤ (P.reading r.2).toNat) ↔
      now.toNat + 1000 * timeout.toNat < 2 ^ 64) ∧
    ((∀ (ω : Type) (S : Stream ω) (P : Platform ω) (p : Process ω), P.reading p = now →
        (∀ k, S.available (waited P k p).world = 0) →
        ∀ r, Lib.Ends (S.timedPeek P timeout p) r →
          now.toNat + 1000 * timeout.toNat ≤ (P.reading r.2).toNat) ↔
      now.toNat + 1000 * timeout.toNat < 2 ^ 64) := by
  refine ⟨⟨fun h => ?_, fun hfits => ?_⟩, ⟨fun h => ?_, fun hfits => ?_⟩, ⟨fun h => ?_, fun hfits => ?_⟩⟩
  · by_contra hwraps
    obtain ⟨q, hends⟩ := delay_jumping now timeout
    exact not_lasts hwraps _ (h UInt64 testPlatform (jumpingProcess now _) rfl (fun _ => rfl) q hends)
  · rintro ω P p rfl hrunning q hends
    exact lasts_of_reaches hfits (delay_reaches_deadline hrunning hends)
  · by_contra hwraps
    obtain ⟨r, hends⟩ :=
      timed_jumping (silentStream UInt64).read_empty (silentStream UInt64).read_ready now timeout
    exact not_lasts hwraps _
      (h UInt64 (silentStream UInt64) testPlatform (jumpingProcess now _) rfl (fun _ => rfl) r hends)
  · rintro ω S P p rfl hsilent r hends
    exact lasts_of_reaches hfits (timed_reaches_deadline S.read_empty hsilent hends)
  · by_contra hwraps
    obtain ⟨r, hends⟩ :=
      timed_jumping (silentStream UInt64).peek_empty (silentStream UInt64).peek_ready now timeout
    exact not_lasts hwraps _
      (h UInt64 (silentStream UInt64) testPlatform (jumpingProcess now _) rfl (fun _ => rfl) r hends)
  · rintro ω S P p rfl hsilent r hends
    exact lasts_of_reaches hfits (timed_reaches_deadline S.peek_empty hsilent hends)

/-- The longest timeout there is, one millisecond into the run: the deadline wraps to
    zero and `delay` is over before it starts. -/
theorem delay_returns_at_once :
    testPlatform.reading (testProcess 1000) = 1000 ∧
      ¬ ∀ q, Lib.Ends (testPlatform.delay 18446744073709551615 (testProcess 1000)) q →
        1000 + 1000 * 18446744073709551615 ≤ (testPlatform.reading q).toNat := by
  refine ⟨rfl, fun h => ?_⟩
  have hlasts := h (testProcess 1000) ⟨1, rfl⟩
  exact absurd hlasts (by decide)

end HostArduino.stream
