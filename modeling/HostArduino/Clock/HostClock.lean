import HostArduino.Lib.While
import Mathlib.Algebra.Order.Ring.Int

namespace HostArduino.clock

variable {ω : Type*}

/-- What the core takes from the machine it runs on: the steady clock in nanoseconds,
    the two ways to give up the processor, and whether a stop has been requested. -/
structure Platform (ω : Type*) where
  steady_clock : ω → Nat
  yield : ω → ω
  sleep_for : UInt32 → ω → ω
  runtimeShouldStop : ω → Bool

/-- A function of the world alone: a reading moves nothing, which leaves out a driver whose
    clock advances a little on each of them. -/
abbrev ClockNowHook (ω : Type*) := ω → UInt64

abbrev ClockWaitHook (ω : Type*) := UInt32 → ω → ω

/-- A call the waiting loops make, as a driver of the clock would log it. -/
inductive Call where
  | runtimePoll
  | clockWaitMicros (micros : UInt32)
  deriving DecidableEq, Repr

/-- The clock port's statics, the world the hooks act on (the hook's user pointer and
    whatever a driver reaches from it), and the calls made so far. -/
structure Process (ω : Type*) where
  t0 : Option Nat
  now_hook : Option (ClockNowHook ω)
  wait_hook : Option (ClockWaitHook ω)
  world : ω
  calls : List Call

/-- `runtimePoll` sleeps for zero milliseconds: it touches no data. -/
def Process.runtimePoll (p : Process ω) : Process ω :=
  { p with calls := p.calls ++ [.runtimePoll] }

namespace Platform

variable (P : Platform ω)

/-- `epoch()`: taken on the first read, kept afterwards. -/
def epoch (p : Process ω) : Nat :=
  p.t0.getD (P.steady_clock p.world)

def setClockHooks (now : Option (ClockNowHook ω)) (wait : Option (ClockWaitHook ω)) (p : Process ω) :
    Process ω :=
  { p with t0 := some (P.epoch p), now_hook := now, wait_hook := wait }

def clockRealNowMicros (p : Process ω) : UInt64 × Process ω :=
  let start := P.epoch p
  let now := P.steady_clock p.world
  (if now ≤ start then 0 else UInt64.ofNat ((now - start) / 1000), { p with t0 := some start })

def clockNowMicros (p : Process ω) : UInt64 × Process ω :=
  match p.now_hook with
  | some now => (now p.world, p)
  | none => P.clockRealNowMicros p

def clockRealWaitMicros (micros : UInt32) (w : ω) : ω :=
  if micros = 0 then P.yield w else P.sleep_for micros w

def clockWaitMicros (micros : UInt32) (p : Process ω) : Process ω :=
  { p with
    world :=
      match p.wait_hook with
      | some wait => wait micros p.world
      | none => P.clockRealWaitMicros micros p.world
    calls := p.calls ++ [.clockWaitMicros micros] }

/-- What `clockNowMicros` returns. -/
def reading (p : Process ω) : UInt64 :=
  (P.clockNowMicros p).1

/-- The process once the clock has been read: its epoch is taken if it had to be. -/
def latched (p : Process ω) : Process ω :=
  (P.clockNowMicros p).2

theorem clockNowMicros_eq (p : Process ω) : P.clockNowMicros p = (P.reading p, P.latched p) := rfl

/-- Reading the clock leaves this process as it is. -/
def Settled (p : Process ω) : Prop :=
  P.latched p = p

variable {P}

theorem settled_of_hook {p : Process ω} {now : ClockNowHook ω} (h : p.now_hook = some now) :
    P.Settled p := by
  simp [Settled, latched, clockNowMicros, h]

theorem settled_of_epoch {p : Process ω} {start : Nat} (h : p.t0 = some start) : P.Settled p := by
  unfold Settled latched clockNowMicros
  split
  · rfl
  · simp only [clockRealNowMicros, epoch, h, Option.getD_some]
    rw [← h]

theorem latched_eq (p : Process ω) :
    P.latched p = { p with t0 := if p.now_hook = none then some (P.epoch p) else p.t0 } := by
  unfold latched clockNowMicros
  split
  · rename_i now hnow
    rw [if_neg (by simp [hnow])]
  · rename_i hnow
    rw [if_pos hnow]
    rfl

theorem settled_latched (p : Process ω) : P.Settled (P.latched p) := by
  cases hnow : p.now_hook with
  | some now =>
    have hlatched : (P.latched p).now_hook = some now := by rw [latched_eq, hnow]
    exact settled_of_hook hlatched
  | none =>
    have hlatched : (P.latched p).t0 = some (P.epoch p) := by rw [latched_eq, if_pos hnow]
    exact settled_of_epoch hlatched

/-- The epoch is taken before the hooks go in, so that a clock handed back counts from
    where it would have. -/
theorem settled_setClockHooks (now : Option (ClockNowHook ω)) (wait : Option (ClockWaitHook ω))
    (p : Process ω) : P.Settled (P.setClockHooks now wait p) := by
  have hlatched : (P.setClockHooks now wait p).t0 = some (P.epoch p) := rfl
  exact settled_of_epoch hlatched

@[simp] theorem reading_latched (p : Process ω) : P.reading (P.latched p) = P.reading p := by
  cases hnow : p.now_hook with
  | some now => rw [settled_of_hook hnow]
  | none =>
    simp only [reading, latched, clockNowMicros, hnow, clockRealNowMicros]
    rfl

theorem Settled.clockNowMicros {p : Process ω} (h : P.Settled p) :
    P.clockNowMicros p = (P.reading p, p) := by
  rw [clockNowMicros_eq, h]

theorem settled_iff {p : Process ω} : P.Settled p ↔ p.now_hook = none → p.t0 = some (P.epoch p) := by
  unfold Settled
  rw [latched_eq]
  obtain ⟨t0, now, wait, world, calls⟩ := p
  cases now with
  | some now => simp
  | none => simp [eq_comm]

/-- A process stays settled whatever it waits for: only the first reading takes the epoch. -/
theorem Settled.of_same_clock {p q : Process ω} (h : P.Settled p) (ht0 : q.t0 = p.t0)
    (hnow : q.now_hook = p.now_hook) : P.Settled q := by
  rw [settled_iff] at h ⊢
  intro hnone
  have hepoch := h (hnow.symm.trans hnone)
  have hsame : P.epoch q = P.epoch p := by
    unfold epoch
    rw [ht0, hepoch, Option.getD_some, Option.getD_some]
  rw [ht0, hepoch, hsame]

/-- One round of a waiting loop: a poll, then a wait of one millisecond. -/
def slice (p : Process ω) : Process ω :=
  P.clockWaitMicros 1000 p.runtimePoll

variable (P)

/-- The process `k` rounds after its clock was read. -/
def after (k : Nat) (p : Process ω) : Process ω :=
  P.slice^[k] (P.latched p)

variable {P}

@[simp] theorem after_zero (p : Process ω) : P.after 0 p = P.latched p := rfl

theorem after_succ (k : Nat) (p : Process ω) : P.after (k + 1) p = P.slice (P.after k p) :=
  Function.iterate_succ_apply' _ _ _

theorem settled_after (k : Nat) (p : Process ω) : P.Settled (P.after k p) := by
  induction k with
  | zero => exact settled_latched p
  | succ k ih =>
    rw [after_succ]
    exact ih.of_same_clock rfl rfl

/-- Rounds add up. -/
theorem after_after (j k : Nat) (p : Process ω) : P.after j (P.after k p) = P.after (k + j) p := by
  have hsettled : P.latched (P.after k p) = P.after k p := settled_after k p
  rw [after, hsettled, after, after, ← Function.iterate_add_apply, Nat.add_comm j k]

@[simp] theorem after_now_hook (k : Nat) (p : Process ω) : (P.after k p).now_hook = p.now_hook := by
  induction k with
  | zero => rw [after_zero, latched_eq]
  | succ k ih => rw [after_succ, ← ih]; rfl

@[simp] theorem after_wait_hook (k : Nat) (p : Process ω) :
    (P.after k p).wait_hook = p.wait_hook := by
  induction k with
  | zero => rw [after_zero, latched_eq]
  | succ k ih => rw [after_succ, ← ih]; rfl

/-- Each round is one poll and one wait, and no other call. -/
theorem after_calls (k : Nat) (p : Process ω) :
    (P.after k p).calls =
      p.calls ++ (List.replicate k [Call.runtimePoll, Call.clockWaitMicros 1000]).flatten := by
  induction k with
  | zero => simp [latched_eq]
  | succ k ih =>
    rw [after_succ, List.replicate_succ', List.flatten_append, ← List.append_assoc, ← ih]
    simp [slice, clockWaitMicros, Process.runtimePoll]

end Platform

end HostArduino.clock
