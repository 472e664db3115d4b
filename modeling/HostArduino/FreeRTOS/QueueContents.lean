import HostArduino.FreeRTOS.Queue
import Mathlib.Data.List.Perm.Basic

namespace HostArduino.freertos

variable {α τ : Type*}

/-- The items one call puts into the queue, gets out of it, and drops from it. -/
@[simp] def QueueResult.puts : QueueResult α → List α
  | .sent item _ => [item]
  | _ => []

@[simp] def QueueResult.gets : QueueResult α → List α
  | .received item => [item]
  | _ => []

@[simp] def QueueResult.drops : QueueResult α → List α
  | .reset items => items
  | _ => []

def accepted (log : List (τ × QueueResult α)) : List α :=
  log.flatMap fun entry => entry.2.puts

def received (log : List (τ × QueueResult α)) : List α :=
  log.flatMap fun entry => entry.2.gets

def discarded (log : List (τ × QueueResult α)) : List α :=
  log.flatMap fun entry => entry.2.drops

/-- What left the queue, received or discarded, in the order it left. -/
def removed (log : List (τ × QueueResult α)) : List α :=
  log.flatMap fun entry => entry.2.gets ++ entry.2.drops

/-- No send that was accepted went to the front. -/
def BackOnly (log : List (τ × QueueResult α)) : Prop :=
  ∀ t item, (t, QueueResult.sent item true) ∉ log

section

variable (log : List (τ × QueueResult α)) (t : τ) (r : QueueResult α)

@[simp] theorem accepted_concat : accepted (log ++ [(t, r)]) = accepted log ++ r.puts := by
  simp [accepted]

@[simp] theorem received_concat : received (log ++ [(t, r)]) = received log ++ r.gets := by
  simp [received]

@[simp] theorem discarded_concat : discarded (log ++ [(t, r)]) = discarded log ++ r.drops := by
  simp [discarded]

@[simp] theorem removed_concat :
    removed (log ++ [(t, r)]) = removed log ++ (r.gets ++ r.drops) := by
  simp [removed]

end

variable {capacity : Nat} {log : List (τ × QueueResult α)} {q q' : Queue α} {r : QueueResult α}

theorem BackOnly.of_concat {t : τ} (h : BackOnly (log ++ [(t, r)])) : BackOnly log := by
  intro u item hmem
  exact h u item (List.mem_append_left _ hmem)

/-- The queue after the calls in `log`: within its capacity, holding what was accepted
    and has not left, and in the order it was accepted if nothing went to the front. -/
structure Contents (capacity : Nat) (log : List (τ × QueueResult α)) (q : Queue α) : Prop where
  capacity_eq : q.capacity = capacity
  length_le : q.items.length ≤ q.capacity
  accounts : (accepted log).Perm (received log ++ discarded log ++ q.items)
  ordered : BackOnly log → accepted log = removed log ++ q.items

theorem contents_create (capacity : Nat) :
    Contents capacity ([] : List (τ × QueueResult α)) (xQueueCreate capacity) :=
  ⟨rfl, Nat.zero_le _, List.Perm.refl _, fun _ => rfl⟩

theorem Queue.Move.length_le (hmove : q.Move q' r) (hlength : q.items.length ≤ q.capacity) :
    q'.items.length ≤ q'.capacity := by
  cases hmove with
  | sent item to_front hroom =>
    cases to_front
    · rw [if_neg (by simp), List.length_append]
      exact hroom
    · exact hroom
  | received item items hitems =>
    rw [hitems, List.length_cons] at hlength
    exact Nat.le_of_succ_le hlength
  | peeked => exact hlength
  | reset => exact Nat.zero_le _
  | failed => exact hlength

/-- What one call puts in is what it leaves more in the queue and what it takes out. -/
theorem Queue.Move.accounts (hmove : q.Move q' r) :
    (r.puts ++ q.items).Perm (r.gets ++ r.drops ++ q'.items) := by
  cases hmove with
  | sent item to_front hroom =>
    cases to_front
    · exact (List.perm_append_singleton item q.items).symm
    · exact List.Perm.refl _
  | received item items hitems => simp [hitems]
  | peeked => exact List.Perm.refl _
  | reset => simp
  | failed => exact List.Perm.refl _

/-- A call that does not send to the front puts at one end and takes from the other. -/
theorem Queue.Move.ordered (hmove : q.Move q' r) (hback : ∀ item, r ≠ .sent item true) :
    q.items ++ r.puts = r.gets ++ r.drops ++ q'.items := by
  cases hmove with
  | sent item to_front hroom =>
    cases to_front with
    | false => rfl
    | true => exact absurd rfl (hback item)
  | received item items hitems => simp [hitems]
  | peeked => simp
  | reset => simp
  | failed => simp

theorem Contents.move (h : Contents capacity log q) (t : τ) (hmove : q.Move q' r) :
    Contents capacity (log ++ [(t, r)]) q' := by
  obtain ⟨hcapacity, hlength, haccounts, hordered⟩ := h
  refine ⟨?_, hmove.length_le hlength, ?_, ?_⟩
  · cases hmove <;> exact hcapacity
  · classical
    rw [accepted_concat, received_concat, discarded_concat, List.perm_iff_count]
    intro item
    have hbefore := haccounts.count_eq item
    have hmoved := hmove.accounts.count_eq item
    simp only [List.count_append] at hbefore hmoved ⊢
    omega
  · intro hback
    have hnot : ∀ item, r ≠ .sent item true := by
      rintro item rfl
      exact hback t item (List.mem_append_right _ (List.mem_singleton_self _))
    rw [accepted_concat, removed_concat, hordered hback.of_concat, List.append_assoc,
      hmove.ordered hnot, ← List.append_assoc]

/-- A call that returns, at once or after a wait, has made one move. -/
theorem queueMonitor_move {st : QueueState τ α} {e : Lib.Monitor.Event τ (QueueCall α)} {t : τ}
    (hreturns : (queueMonitor τ α).Returns st t e q' r) : st.shared.Move q' r := by
  cases hreturns with
  | entered henter => exact QueueCall.enter_move henter
  | resumed hwaiting hresume => exact Queue.proceed_move hresume
  | expired hwaiting hresume hexpire =>
    obtain rfl := Wait.eq_of_expire hexpire
    exact .failed

variable [DecidableEq τ]

/-- The invariant of the queue under every interleaving of the tasks' calls. -/
theorem run_contents {events : List (Lib.Monitor.Event τ (QueueCall α))} {st : QueueState τ α}
    (hrun : (queueMonitor τ α).machine.run (.initial (xQueueCreate capacity)) events = some st) :
    Contents capacity st.log st.shared := by
  refine (queueMonitor τ α).machine.run_invariant (P := fun st => Contents capacity st.log st.shared)
    ?_ (contents_create capacity) hrun
  intro st e st' h hstep
  obtain ⟨q', r, hreturns, rfl⟩ | ⟨wait, rfl⟩ | rfl := Lib.Monitor.step_cases hstep
  · exact h.move _ (queueMonitor_move hreturns)
  · exact h
  · exact h

end HostArduino.freertos
