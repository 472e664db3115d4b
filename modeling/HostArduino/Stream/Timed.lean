import HostArduino.Clock.HostClock
import HostArduino.Uart.HostUart

namespace HostArduino.stream

open clock

variable {ω : Type*}

/-- What a subclass of `Stream` provides over a world: how many bytes are there, and the
    two ways to look at the next one, which answer -1 exactly when there is none. -/
structure Stream (ω : Type*) where
  available : ω → Nat
  read : ω → Int × ω
  peek : ω → Int × ω
  read_empty : ∀ w, available w = 0 → read w = (-1, w)
  read_ready : ∀ w, 0 < available w → 0 ≤ (read w).1
  peek_empty : ∀ w, available w = 0 → peek w = (-1, w)
  peek_ready : ∀ w, 0 < available w → 0 ≤ (peek w).1

/-- One turn of the loop in `timedRead` and `timedPeek`, which differ in the look. -/
def timedTurn (P : Platform ω) (look : ω → Int × ω) (deadline : UInt64) (p : Process ω) :
    Option (Lib.Turn (Process ω) (Int × Process ω)) :=
  let c := (look p.world).1
  let p := { p with world := (look p.world).2 }
  if 0 ≤ c then some (.leave (c, p))
  else
    let (now, p) := P.clockNowMicros (P.clockWaitMicros 1000 p)
    if now < deadline then some (.again p) else some (.leave (-1, p))

def timed (P : Platform ω) (look : ω → Int × ω) (timeout : UInt64) (p : Process ω) (fuel : Nat) :
    Option (Int × Process ω) :=
  let (now, p) := P.clockNowMicros p
  let deadline := now + timeout * 1000
  Lib.loop (timedTurn P look deadline) fuel p

namespace Stream

variable (S : Stream ω) (P : Platform ω)

def timedRead (timeout : UInt64) (p : Process ω) (fuel : Nat) : Option (Int × Process ω) :=
  timed P S.read timeout p fuel

def timedPeek (timeout : UInt64) (p : Process ω) (fuel : Nat) : Option (Int × Process ω) :=
  timed P S.peek timeout p fuel

end Stream

/-- The process after `k` wait slices with no look in between. -/
def waited (P : Platform ω) (k : Nat) (p : Process ω) : Process ω :=
  (P.clockWaitMicros 1000)^[k] (P.latched p)

/-- The looks before each of the first `k` slices have found nothing, and each of these
    slices has left the clock short of the deadline. -/
structure Unanswered (available : ω → Nat) (P : Platform ω) (deadline : UInt64) (p : Process ω)
    (k : Nat) : Prop where
  silent : ∀ j < k, available (waited P j p).world = 0
  early : ∀ j < k, P.reading (waited P (j + 1) p) < deadline

/-- The slice that carries the clock to the deadline, if every look before it finds
    nothing, leaves the stream empty. -/
def LastSliceSilent (available : ω → Nat) (P : Platform ω) (timeout : UInt64) (p : Process ω) : Prop :=
  ∀ k, Unanswered available P (P.reading p + timeout * 1000) p k →
    available (waited P k p).world = 0 →
    P.reading p + timeout * 1000 ≤ P.reading (waited P (k + 1) p) →
    available (waited P (k + 1) p).world = 0

variable {P : Platform ω} {look : ω → Int × ω} {available : ω → Nat}

theorem waited_succ (k : Nat) (p : Process ω) :
    waited P (k + 1) p = P.clockWaitMicros 1000 (waited P k p) :=
  Function.iterate_succ_apply' _ _ _

theorem settled_waited (k : Nat) (p : Process ω) : P.Settled (waited P k p) := by
  induction k with
  | zero => exact Platform.settled_latched p
  | succ k ih =>
    rw [waited_succ]
    exact ih.of_same_clock rfl rfl

theorem timedTurn_ready {p : Process ω} (h : 0 ≤ (look p.world).1) (deadline : UInt64) :
    timedTurn P look deadline p =
      some (.leave ((look p.world).1, { p with world := (look p.world).2 })) :=
  if_pos h

/-- A look that finds nothing is followed by one slice, and only then by the check. -/
theorem timedTurn_empty {p : Process ω} (hp : P.Settled p) (h : look p.world = (-1, p.world))
    (deadline : UInt64) :
    timedTurn P look deadline p =
      if P.reading (P.clockWaitMicros 1000 p) < deadline then
        some (.again (P.clockWaitMicros 1000 p))
      else some (.leave (-1, P.clockWaitMicros 1000 p)) := by
  have hwait : P.Settled (P.clockWaitMicros 1000 p) := hp.of_same_clock rfl rfl
  unfold timedTurn
  simp only [h, hwait.clockNowMicros]
  rfl

theorem timed_eq (timeout : UInt64) (p : Process ω) (fuel : Nat) :
    timed P look timeout p fuel =
      Lib.loop (timedTurn P look (P.reading p + timeout * 1000)) fuel (waited P 0 p) := rfl

theorem Unanswered.succ {deadline : UInt64} {p : Process ω} {k : Nat}
    (h : Unanswered available P deadline p k) (hnone : available (waited P k p).world = 0)
    (hearly : P.reading (waited P (k + 1) p) < deadline) :
    Unanswered available P deadline p (k + 1) where
  silent j hj := by
    obtain hlt | rfl := Nat.lt_succ_iff_lt_or_eq.mp hj
    · exact h.silent j hlt
    · exact hnone
  early j hj := by
    obtain hlt | rfl := Nat.lt_succ_iff_lt_or_eq.mp hj
    · exact h.early j hlt
    · exact hearly

section Look

variable (hempty : ∀ w, available w = 0 → look w = (-1, w))
  (hready : ∀ w, 0 < available w → 0 ≤ (look w).1)

include hempty in
theorem timedTurn_waited {p : Process ω} {k : Nat} (hnone : available (waited P k p).world = 0)
    (deadline : UInt64) :
    timedTurn P look deadline (waited P k p) =
      if P.reading (waited P (k + 1) p) < deadline then some (.again (waited P (k + 1) p))
      else some (.leave (-1, waited P (k + 1) p)) := by
  rw [waited_succ]
  exact timedTurn_empty (settled_waited k p) (hempty _ hnone) deadline

include hempty hready in
/-- The loop goes round again only from one unanswered slice to the next. -/
theorem unanswered_again {deadline : UInt64} {p t t' : Process ω}
    (ht : ∃ k, t = waited P k p ∧ Unanswered available P deadline p k)
    (hturn : timedTurn P look deadline t = some (.again t')) :
    ∃ k, t' = waited P k p ∧ Unanswered available P deadline p k := by
  obtain ⟨k, rfl, hk⟩ := ht
  by_cases hsome : 0 < available (waited P k p).world
  · rw [timedTurn_ready (hready _ hsome)] at hturn
    cases hturn
  · have hnone := Nat.eq_zero_of_not_pos hsome
    rw [timedTurn_waited hempty hnone] at hturn
    split at hturn
    · rename_i hearly
      cases hturn
      exact ⟨k + 1, rfl, hk.succ hnone hearly⟩
    · cases hturn

include hempty hready in
/-- A timed look gives up after the first slice by which the clock has reached the
    deadline, every look before that slice having found nothing. -/
theorem timed_gives_up_iff {timeout : UInt64} {p q : Process ω} :
    Lib.Ends (timed P look timeout p) (-1, q) ↔
      ∃ k, q = waited P (k + 1) p ∧
        Unanswered available P (P.reading p + timeout * 1000) p k ∧
        available (waited P k p).world = 0 ∧
        P.reading p + timeout * 1000 ≤ P.reading (waited P (k + 1) p) := by
  constructor
  · rintro ⟨fuel, hends⟩
    rw [timed_eq] at hends
    obtain ⟨t, ⟨k, rfl, hk⟩, hleave⟩ := Lib.loop_invariant
      (fun t t' => unanswered_again hempty hready) ⟨0, rfl, nofun, nofun⟩ hends
    by_cases hsome : 0 < available (waited P k p).world
    · have hlook := hready _ hsome
      rw [timedTurn_ready hlook] at hleave
      have hminus : (look (waited P k p).world).1 = -1 :=
        congrArg Prod.fst (Lib.Turn.leave.inj (Option.some.inj hleave))
      omega
    · have hnone := Nat.eq_zero_of_not_pos hsome
      rw [timedTurn_waited hempty hnone] at hleave
      split at hleave
      · cases hleave
      · rename_i hlate
        cases hleave
        exact ⟨k, rfl, hk, hnone, UInt64.not_lt.mp hlate⟩
  · rintro ⟨k, rfl, hk, hnone, hlate⟩
    refine ⟨k + 1, ?_⟩
    rw [timed_eq]
    refine Lib.loop_iterate (P.clockWaitMicros 1000) (fun j hj => ?_) ?_
    · exact (timedTurn_waited hempty (hk.silent j hj) _).trans (if_pos (hk.early j hj))
    · exact (timedTurn_waited hempty hnone _).trans (if_neg (UInt64.not_lt.mpr hlate))

include hempty hready in
theorem timed_empty_iff {timeout : UInt64} {p : Process ω} :
    (∀ q, Lib.Ends (timed P look timeout p) (-1, q) → available q.world = 0) ↔
      LastSliceSilent available P timeout p := by
  constructor
  · intro h k hk hnone hlate
    exact h _ ((timed_gives_up_iff hempty hready).mpr ⟨k, rfl, hk, hnone, hlate⟩)
  · intro h q hends
    obtain ⟨k, rfl, hk, hnone, hlate⟩ := (timed_gives_up_iff hempty hready).mp hends
    exact h k hk hnone hlate

end Look

/-- Both timed looks report a timeout only on an empty stream exactly when nothing is
    pushed in the slice that runs into the deadline: after that slice neither looks again. -/
theorem timed_timeout_means_empty_iff (S : Stream ω) (P : Platform ω) (timeout : UInt64)
    (p : Process ω) :
    ((∀ q, Lib.Ends (S.timedRead P timeout p) (-1, q) → S.available q.world = 0) ↔
        LastSliceSilent S.available P timeout p) ∧
      ((∀ q, Lib.Ends (S.timedPeek P timeout p) (-1, q) → S.available q.world = 0) ↔
        LastSliceSilent S.available P timeout p) :=
  ⟨timed_empty_iff S.read_empty S.read_ready, timed_empty_iff S.peek_empty S.peek_ready⟩

open host_uart

/-- The sketch's side of a UART, in a world with a driver beside it. -/
def uartStream (δ : Type*) : Stream (HostUart × δ) where
  available w := w.1.rx.items.length
  read w := (w.1.read.returns, (w.1.read.uart, w.2))
  peek w := (w.1.peek.returns, w)
  read_empty w h := by simp [HostUart.read, List.eq_nil_of_length_eq_zero h]
  read_ready w h := by
    obtain ⟨value, rest, hitems⟩ := List.exists_cons_of_length_pos h
    simp [HostUart.read, hitems]
  peek_empty w h := by simp [HostUart.peek, List.eq_nil_of_length_eq_zero h]
  peek_ready w h := by
    obtain ⟨value, rest, hitems⟩ := List.exists_cons_of_length_pos h
    simp [HostUart.peek, hitems]

/-- A driver that keeps virtual time and answers a UART inside every wait. -/
def answeringProcess (reply : List UInt8) : Process (HostUart × UInt64) where
  t0 := some 0
  now_hook := some Prod.snd
  wait_hook := some fun micros w => ((w.1.pushRx (some reply)).uart, w.2 + micros.toUInt64)
  world := (HostUart.create, 0)
  calls := []

def answeringPlatform : Platform (HostUart × UInt64) where
  steady_clock := fun _ => 0
  yield := id
  sleep_for := fun _ w => w
  runtimeShouldStop := fun _ => false

/-- With a timeout of 1 ms the reply comes in the only slice, which starts at the
    beginning of the wait, and is reported as a timeout. -/
theorem timedRead_timeout_with_reply :
    answeringPlatform.reading (answeringProcess [79, 75]) = 0 ∧
      ∃ q, Lib.Ends ((uartStream UInt64).timedRead answeringPlatform 1 (answeringProcess [79, 75])) (-1, q) ∧
        q.world.1.rx.items = [79, 75] ∧ (uartStream UInt64).available q.world = 2 :=
  ⟨rfl, _, ⟨1, rfl⟩, rfl, rfl⟩

end HostArduino.stream
