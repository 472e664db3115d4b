import HostArduino.Clock.HostClock

namespace HostArduino.clock

variable {ω : Type*}

/-- A virtual clock: both hooks are in place, and a wait moves what the clock reads by
    the microseconds it was given. -/
structure VirtualClock (p : Process ω) (now : ClockNowHook ω) (wait : ClockWaitHook ω) : Prop where
  now_hook : p.now_hook = some now
  wait_hook : p.wait_hook = some wait
  now_wait : ∀ micros w, now (wait micros w) = now w + micros.toUInt64

namespace Platform

variable (P : Platform ω)

def millis (p : Process ω) : UInt32 × Process ω :=
  let (now, p) := P.clockNowMicros p
  ((now / 1000).toUInt32, p)

def delayTurn (deadline : UInt64) (p : Process ω) : Option (Lib.Turn (Process ω) (Process ω)) :=
  if P.runtimeShouldStop p.world then some (.leave p)
  else
    let (now, p) := P.clockNowMicros p
    if now < deadline then some (.again (P.clockWaitMicros 1000 p.runtimePoll)) else some (.leave p)

def delay (ms : UInt64) (p : Process ω) (fuel : Nat) : Option (Process ω) :=
  let (now, p) := P.clockNowMicros p
  let deadline := now + ms * 1000
  Lib.loop (P.delayTurn deadline) fuel p

variable {P}

theorem delay_mono (ms : UInt64) (p : Process ω) : Lib.FuelMonotone (P.delay ms p) :=
  fun _ _ _ hle h => Lib.loop_mono (fun _ _ ht => ht) hle h

theorem millis_settled {p : Process ω} (h : P.Settled p) :
    P.millis p = ((P.reading p / 1000).toUInt32, p) := by
  simp only [millis, h.clockNowMicros]

/-- A turn ends the delay, with the process as it is, or makes one round. -/
theorem delayTurn_settled {p : Process ω} (h : P.Settled p) (deadline : UInt64) :
    P.delayTurn deadline p =
      if P.runtimeShouldStop p.world = true ∨ deadline ≤ P.reading p then some (.leave p)
      else some (.again (P.slice p)) := by
  unfold delayTurn
  simp only [h.clockNowMicros]
  by_cases hstop : P.runtimeShouldStop p.world = true
  · rw [if_pos hstop, if_pos (Or.inl hstop)]
  · by_cases hearly : P.reading p < deadline
    · have hrunning : ¬(P.runtimeShouldStop p.world = true ∨ deadline ≤ P.reading p) :=
        not_or.mpr ⟨hstop, UInt64.not_le.mpr hearly⟩
      rw [if_neg hstop, if_pos hearly, if_neg hrunning]
      rfl
    · rw [if_neg hstop, if_neg hearly, if_pos (Or.inr (UInt64.not_lt.mp hearly))]

/-- The rounds of `delay`: it goes on while no stop is requested and the clock has not
    reached the deadline, and it ends at the first round where that fails. -/
theorem delay_ends {ms : UInt64} {p : Process ω} {k : Nat}
    (hrunning : ∀ j < k, P.runtimeShouldStop (P.after j p).world = false)
    (hearly : ∀ j < k, P.reading (P.after j p) < P.reading p + ms * 1000)
    (hdone : P.runtimeShouldStop (P.after k p).world = true ∨
      P.reading p + ms * 1000 ≤ P.reading (P.after k p)) :
    P.delay ms p (k + 1) = some (P.after k p) := by
  refine Lib.loop_iterate P.slice (fun j hj => ?_) ?_
  · rw [Function.iterate_succ_apply']
    refine (delayTurn_settled (settled_after j p) _).trans (if_neg ?_)
    rintro (hstop | hlate)
    · exact Bool.false_ne_true ((hrunning j hj).symm.trans hstop)
    · exact UInt64.not_le.mpr (hearly j hj) hlate
  · exact (delayTurn_settled (settled_after k p) _).trans (if_pos hdone)

theorem delay_eq (ms : UInt64) (p : Process ω) (fuel : Nat) :
    P.delay ms p fuel = Lib.loop (P.delayTurn (P.reading p + ms * 1000)) fuel (P.latched p) := rfl

/-- Whatever the clock does, a delay that ends has made some number of whole rounds,
    and ends where a stop is requested or the clock has reached the deadline. -/
theorem delay_eq_some {ms : UInt64} {p q : Process ω} {fuel : Nat}
    (h : P.delay ms p fuel = some q) :
    ∃ k, q = P.after k p ∧
      (P.runtimeShouldStop q.world = true ∨ P.reading p + ms * 1000 ≤ P.reading q) := by
  rw [delay_eq] at h
  generalize P.reading p + ms * 1000 = deadline at h ⊢
  have hnext : ∀ t t', P.Settled t → P.delayTurn deadline t = some (.again t') → t' = P.slice t := by
    intro t t' ht hturn
    rw [delayTurn_settled ht] at hturn
    split at hturn
    · cases hturn
    · exact (Lib.Turn.again.inj (Option.some.inj hturn)).symm
  obtain ⟨k, -, hleave⟩ := Lib.loop_eq_some_iterate P.slice
    (fun t ht => Settled.of_same_clock ht rfl rfl) hnext (settled_latched p) h
  change P.delayTurn deadline (P.after k p) = some (.leave q) at hleave
  rw [delayTurn_settled (settled_after k p)] at hleave
  split at hleave
  · rename_i hdone
    obtain rfl := Lib.Turn.leave.inj (Option.some.inj hleave)
    exact ⟨k, rfl, hdone⟩
  · cases hleave

end Platform

namespace VirtualClock

open Platform

variable {P : Platform ω} {p : Process ω} {now : ClockNowHook ω} {wait : ClockWaitHook ω}

theorem reading_eq (h : VirtualClock p now wait) : P.reading p = now p.world := by
  simp [Platform.reading, clockNowMicros, h.now_hook]

theorem after (h : VirtualClock p now wait) (k : Nat) : VirtualClock (P.after k p) now wait where
  now_hook := (after_now_hook k p).trans h.now_hook
  wait_hook := (after_wait_hook k p).trans h.wait_hook
  now_wait := h.now_wait

/-- Each round moves a virtual clock by a millisecond. -/
theorem reading_succ (h : VirtualClock p now wait) (k : Nat) :
    P.reading (P.after (k + 1) p) = P.reading (P.after k p) + 1000 := by
  rw [(h.after (k + 1)).reading_eq, (h.after k).reading_eq, after_succ]
  simp [slice, clockWaitMicros, Process.runtimePoll, h.wait_hook, h.now_wait]

theorem reading_after (h : VirtualClock p now wait) (k : Nat) :
    P.reading (P.after k p) = P.reading p + UInt64.ofNat (1000 * k) := by
  induction k with
  | zero => simp
  | succ k ih =>
    rw [h.reading_succ, ih, Nat.mul_succ, UInt64.ofNat_add, UInt64.add_assoc]
    rfl

/-- A virtual clock that has room for one more millisecond moves forward. -/
theorem forward (h : VirtualClock p now wait) {k : Nat}
    (hroom : (P.reading (P.after k p)).toNat + 1000 < 2 ^ 64) :
    P.reading (P.after k p) < P.reading (P.after (k + 1) p) := by
  rw [h.reading_succ, UInt64.lt_iff_toNat_lt, UInt64.toNat_add]
  change _ < ((P.reading (P.after k p)).toNat + 1000) % 2 ^ 64
  omega

theorem reading_after_toNat (h : VirtualClock p now wait) {k : Nat}
    (hfits : (P.reading p).toNat + 1000 * k < 2 ^ 64) :
    (P.reading (P.after k p)).toNat = (P.reading p).toNat + 1000 * k := by
  rw [h.reading_after k, UInt64.toNat_add, UInt64.toNat_ofNat']
  omega

end VirtualClock

theorem deadline_toNat {now ms : UInt64} (hfits : now.toNat + 1000 * ms.toNat < 2 ^ 64) :
    (now + ms * 1000).toNat = now.toNat + 1000 * ms.toNat := by
  have hms := ms.toNat_lt
  rw [UInt64.toNat_add, UInt64.toNat_mul]
  change (now.toNat + ms.toNat * 1000 % 2 ^ 64) % 2 ^ 64 = _
  omega

namespace Platform

variable {P : Platform ω}

/-- On a virtual clock a delay ends after exactly as many rounds as it has milliseconds. -/
theorem delay_virtual {ms : UInt64} {p : Process ω} {now : ClockNowHook ω} {wait : ClockWaitHook ω}
    (hclock : VirtualClock p now wait) (hfits : (P.reading p).toNat + 1000 * ms.toNat < 2 ^ 64)
    (hrunning : ∀ j < ms.toNat, P.runtimeShouldStop (P.after j p).world = false) :
    P.delay ms p (ms.toNat + 1) = some (P.after ms.toNat p) := by
  apply delay_ends hrunning
  · intro j hj
    rw [UInt64.lt_iff_toNat_lt, deadline_toNat hfits, hclock.reading_after_toNat (by omega)]
    omega
  · refine .inr ?_
    rw [UInt64.le_iff_toNat_le, deadline_toNat hfits, hclock.reading_after_toNat hfits]

/-- A delay counts off its milliseconds. On a virtual clock it makes exactly `ms` rounds
    of poll and wait, ends at `now + 1000 * ms`, and moves `millis` on by `ms`. On any
    clock that each round moves forward it ends at the first round by which the
    milliseconds have passed, so not before, and a round earlier they had not. -/
theorem delay_elapses (ms : UInt64) (p : Process ω)
    (hfits : (P.reading p).toNat + 1000 * ms.toNat < 2 ^ 64)
    (hrunning : ∀ k, P.runtimeShouldStop (P.after k p).world = false) :
    (∀ now wait, VirtualClock p now wait →
      ∃ q, Lib.Ends (P.delay ms p) q ∧
        q.calls = p.calls ++
          (List.replicate ms.toNat [Call.runtimePoll, Call.clockWaitMicros 1000]).flatten ∧
        (P.reading q).toNat = (P.reading p).toNat + 1000 * ms.toNat ∧
        (P.millis q).1 = (P.millis p).1 + ms.toUInt32) ∧
    ((∀ k, P.reading (P.after k p) < P.reading p + ms * 1000 →
        P.reading (P.after k p) < P.reading (P.after (k + 1) p)) →
      ∃ k, Lib.Ends (P.delay ms p) (P.after k p) ∧
        (P.reading p).toNat + 1000 * ms.toNat ≤ (P.reading (P.after k p)).toNat ∧
        ∀ j < k, (P.reading (P.after j p)).toNat < (P.reading p).toNat + 1000 * ms.toNat) := by
  have hdeadline := deadline_toNat hfits
  constructor
  · intro now wait hclock
    have hreading := hclock.reading_after_toNat (P := P) hfits
    refine ⟨P.after ms.toNat p, ⟨_, delay_virtual hclock hfits fun j _ => hrunning j⟩,
      after_calls _ _, hreading, ?_⟩
    have hsettled : P.Settled p := settled_of_hook hclock.now_hook
    rw [millis_settled (settled_after _ p), millis_settled hsettled]
    apply UInt32.toNat_inj.mp
    simp only [UInt64.toNat_toUInt32, UInt64.toNat_div, UInt32.toNat_add, hreading]
    change ((P.reading p).toNat + 1000 * ms.toNat) / 1000 % 2 ^ 32 =
      ((P.reading p).toNat / 1000 % 2 ^ 32 + ms.toNat % 2 ^ 32) % 2 ^ 32
    omega
  · intro hforward
    obtain ⟨k, hlate, hearly⟩ := Lib.exists_first_reaching
      (fun k => (P.reading (P.after k p)).toNat) (P.reading p + ms * 1000).toNat
      (fun k hk => UInt64.lt_iff_toNat_lt.mp (hforward k (UInt64.lt_iff_toNat_lt.mpr hk)))
    refine ⟨k, ⟨k + 1, ?_⟩, ?_, ?_⟩
    · apply delay_ends (fun j _ => hrunning j)
      · exact fun j hj => UInt64.lt_iff_toNat_lt.mpr (hearly j hj)
      · exact .inr (UInt64.le_iff_toNat_le.mpr hlate)
    · rw [← hdeadline]
      exact hlate
    · intro j hj
      rw [← hdeadline]
      exact hearly j hj

end Platform

/-- The driver of a virtual clock whose world is nothing but the microseconds. -/
def testPlatform : Platform UInt64 where
  steady_clock := fun _ => 0
  yield := id
  sleep_for := fun _ w => w
  runtimeShouldStop := fun _ => false

def testProcess (now : UInt64) : Process UInt64 where
  t0 := some 0
  now_hook := some id
  wait_hook := some fun micros w => w + micros.toUInt64
  world := now
  calls := []

theorem testProcess_virtual (now : UInt64) :
    VirtualClock (testProcess now) id fun micros w => w + micros.toUInt64 :=
  ⟨rfl, rfl, fun _ _ => rfl⟩

theorem delay_elapses_across_wrap :
    ∃ q, Lib.Ends (testPlatform.delay 2 (testProcess 4294967295000)) q ∧
      q.calls = [.runtimePoll, .clockWaitMicros 1000, .runtimePoll, .clockWaitMicros 1000] ∧
      (testPlatform.millis (testProcess 4294967295000)).1 = 0xFFFFFFFF ∧
      (testPlatform.millis q).1 = 1 ∧
      ∃ k, Lib.Ends (testPlatform.delay 2 (testProcess 4294967295000))
          (testPlatform.after k (testProcess 4294967295000)) := by
  have helapses := Platform.delay_elapses (P := testPlatform) 2 (testProcess 4294967295000)
    (by decide) (fun _ => rfl)
  obtain ⟨q, hends, hcalls, _, hmillis⟩ := helapses.1 _ _ (testProcess_virtual _)
  refine ⟨q, hends, hcalls, rfl, hmillis, ?_⟩
  have hforward := helapses.2 fun k hk => by
    have hbefore := UInt64.lt_iff_toNat_lt.mp hk
    change _ < 4294967297000 at hbefore
    exact (testProcess_virtual _).forward (by omega)
  obtain ⟨k, hends, _, _⟩ := hforward
  exact ⟨k, hends⟩

end HostArduino.clock
