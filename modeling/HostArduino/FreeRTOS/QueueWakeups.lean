import HostArduino.FreeRTOS.QueueContents
import HostArduino.Lib.Wakeups

namespace HostArduino.freertos

variable {α τ : Type*}

/-- The condition variables of a queue. -/
inductive QueueCv where
  | not_full
  | not_empty
  deriving DecidableEq, Repr

def QueueRest.cv : QueueRest α → QueueCv
  | .send _ _ => .not_full
  | .receive | .peek => .not_empty

/-- A send tells one waiting task that there is an item, a receive tells one that there is
    room, both behind their unlock; a peek tells nobody. -/
def queueSignals (τ α : Type*) :
    Lib.Signalled τ (Queue α) (QueueCall α) QueueCv (Wait (QueueRest α)) (QueueResult α) where
  toMonitor := queueMonitor τ α
  waitsOn wait := wait.rest.cv
  notify_one _ r :=
    match r with
    | .sent _ _ => some .not_empty
    | .received _ => some .not_full
    | .peeked _ | .reset _ | .failed => none
  notify_all r :=
    match r with
    | .reset _ => some .not_full
    | .sent _ _ | .received _ | .peeked _ | .failed => none

/-- How many waiting calls a queue could serve. -/
def Queue.units (q : Queue α) : QueueCv → Nat
  | .not_full => q.capacity - q.items.length
  | .not_empty => q.items.length

/-- A peek does not go to sleep: it is made with no ticks, or on a queue that has an item. -/
def PeeksAtOnce (st : Lib.Signalled.State τ (Queue α) QueueCv (Wait (QueueRest α)) (QueueResult α)) :
    Lib.Signalled.Event τ (QueueCall α) → Prop
  | .call _ (.xQueuePeek _ ticks_to_wait) => ticks_to_wait = 0 ∨ st.shared.items ≠ []
  | _ => True

variable {q q' : Queue α} {r : QueueResult α}

/-- A call that goes to wait has found its predicate false, and a peek among them has
    found the queue empty. -/
theorem QueueCall.enter_blocks {call : QueueCall α} {wait : Wait (QueueRest α)}
    (h : call.enter q = .blocks wait) :
    q.proceed wait.rest = none ∧
      (wait.rest = .peek → ∃ ticks_to_wait, call = .xQueuePeek true ticks_to_wait ∧ ticks_to_wait ≠ 0) := by
  have hsend : ∀ {item : Option α} {ticks : TickType_t} {to_front : Bool},
      xQueueSendGeneric q item ticks to_front = .blocks wait →
        q.proceed wait.rest = none ∧ wait.rest ≠ .peek := by
    intro item ticks to_front h
    cases item with
    | none => cases h
    | some item =>
      obtain ⟨hdone, rfl, -⟩ := attempt_blocks h
      exact ⟨hdone, nofun⟩
  cases call with
  | xQueueSend item ticks => exact ⟨(hsend h).1, fun hpeek => absurd hpeek (hsend h).2⟩
  | xQueueSendToBack item ticks => exact ⟨(hsend h).1, fun hpeek => absurd hpeek (hsend h).2⟩
  | xQueueSendToFront item ticks => exact ⟨(hsend h).1, fun hpeek => absurd hpeek (hsend h).2⟩
  | xQueueReceive out ticks =>
    cases out with
    | false => cases h
    | true =>
      obtain ⟨hdone, rfl, -⟩ := attempt_blocks h
      exact ⟨hdone, fun hpeek => by cases hpeek⟩
  | xQueuePeek out ticks =>
    cases out with
    | false => cases h
    | true =>
      obtain ⟨hdone, rfl, hticks⟩ := attempt_blocks h
      exact ⟨hdone, fun _ => ⟨ticks, rfl, hticks⟩⟩
  | xQueueReset => cases h

theorem Queue.units_eq_zero {rest : QueueRest α} (h : q.proceed rest = none) : q.units rest.cv = 0 := by
  cases rest with
  | send item to_front =>
    by_cases hroom : q.items.length < q.capacity
    · simp [Queue.proceed, Queue.has_room, hroom] at h
    · exact Nat.sub_eq_zero_of_le (Nat.le_of_not_lt hroom)
  | receive =>
    cases hitems : q.items with
    | nil => simp [Queue.units, QueueRest.cv, hitems]
    | cons item items => simp [Queue.proceed, hitems] at h
  | peek =>
    cases hitems : q.items with
    | nil => simp [Queue.units, QueueRest.cv, hitems]
    | cons item items => simp [Queue.proceed, hitems] at h

/-- What a call adds to the items or to the room it announces. -/
theorem Queue.Move.units_le (hmove : q.Move q' r) (c : QueueCv) :
    (queueSignals τ α).notify_all r = some c ∨
      q'.units c ≤ q.units c + if (queueSignals τ α).notify_one q r = some c then 1 else 0 := by
  cases hmove with
  | sent item to_front hroom =>
    refine .inr ?_
    cases c with
    | not_full => cases to_front <;> simp [Queue.units, queueSignals] <;> omega
    | not_empty => cases to_front <;> simp [Queue.units, queueSignals]
  | received item items hitems =>
    refine .inr ?_
    cases c with
    | not_full =>
      simp [Queue.units, queueSignals, hitems]
      omega
    | not_empty => simp [Queue.units, queueSignals, hitems]
  | peeked item items hitems => exact .inr (Nat.le_add_right _ _)
  | reset =>
    cases c with
    | not_full => exact .inl rfl
    | not_empty => exact .inr (by simp [Queue.units])
  | failed => exact .inr (Nat.le_add_right _ _)

theorem queueSignals_discipline :
    (queueSignals τ α).Discipline (fun c q => q.units c) fun wait => wait.rest ≠ .peek where
  enter_returns henter c := (QueueCall.enter_move henter).units_le c
  enter_blocks henter := Queue.units_eq_zero (QueueCall.enter_blocks henter).1
  resume_some {t wait s s' r} htakes hresume := by
    obtain ⟨rest, ticks_to_wait⟩ := wait
    change s.proceed rest = some (s', r) at hresume
    cases rest with
    | send item to_front =>
      by_cases hroom : s.items.length < s.capacity
      · obtain ⟨rfl, rfl⟩ : _ = s' ∧ QueueResult.sent item to_front = r := by
          simpa [Queue.proceed, Queue.has_room, hroom] using hresume
        refine ⟨rfl, Nat.sub_pos_of_lt hroom, fun c => ?_⟩
        cases c with
        | not_full => cases to_front <;> simp [Queue.units, queueSignals, QueueRest.cv] <;> omega
        | not_empty => cases to_front <;> simp [Queue.units, queueSignals, QueueRest.cv]
      · simp [Queue.proceed, Queue.has_room, hroom] at hresume
    | receive =>
      cases hitems : s.items with
      | nil => simp [Queue.proceed, hitems] at hresume
      | cons item items =>
        obtain ⟨rfl, rfl⟩ : _ = s' ∧ QueueResult.received item = r := by
          simpa [Queue.proceed, hitems] using hresume
        refine ⟨rfl, ?_, fun c => ?_⟩
        · simp [Queue.units, queueSignals, QueueRest.cv, hitems]
        · cases c with
          | not_full =>
            simp [Queue.units, queueSignals, QueueRest.cv, hitems]
            omega
          | not_empty => simp [Queue.units, queueSignals, QueueRest.cv, hitems]
    | peek => exact absurd rfl htakes
  resume_none hresume := Queue.units_eq_zero hresume
  expire hexpire := by
    obtain rfl := Wait.eq_of_expire hexpire
    exact ⟨rfl, rfl⟩

theorem waitsToTake_of_peeksAtOnce
    {st : Lib.Signalled.State τ (Queue α) QueueCv (Wait (QueueRest α)) (QueueResult α)}
    {e : Lib.Signalled.Event τ (QueueCall α)} (hpeeks : PeeksAtOnce st e) :
    (queueSignals τ α).WaitsToTake (fun wait => wait.rest ≠ .peek) st e := by
  cases e with
  | call t call =>
    intro wait henter hpeek
    obtain ⟨hproceed, hcall⟩ := QueueCall.enter_blocks henter
    obtain ⟨ticks_to_wait, rfl, hticks⟩ := hcall hpeek
    obtain hzero | hitems := hpeeks
    · exact hticks hzero
    · rw [hpeek] at hproceed
      exact hitems (List.eq_nil_of_length_eq_zero (Queue.units_eq_zero hproceed))
  | notify t target => trivial
  | wake t => trivial
  | resume t => trivial
  | timeout t => trivial

variable [DecidableEq τ] [Fintype τ] {capacity : Nat}

/-- No wake-up of a queue is lost while no peek goes to sleep on it: whenever a sleeping
    send could go in or a sleeping receive has something to get, a task is on the way to
    do so or to wake another one, and once the tasks have taken the few steps they can
    take on their own, the sleepers that are left are all senders in front of a full queue
    or all receivers in front of an empty one. -/
theorem queue_wakeups {es : List (Lib.Signalled.Event τ (QueueCall α))}
    (hpeeks : (queueSignals τ α).machine.Meets PeeksAtOnce (.initial (xQueueCreate capacity)) es) :
    ∀ st ∈ (queueSignals τ α).machine.visited (.initial (xQueueCreate capacity)) es,
      (queueSignals τ α).Wakes (xQueueCreate capacity) st ∧
        ((∀ e : Lib.Signalled.Event τ (QueueCall α), e.Settles → (queueSignals τ α).step st e = none) →
          0 < capacity → ∀ t u wait wait', st.place t = .asleep wait → st.place u = .asleep wait' →
            wait.rest.cv = wait'.rest.cv) := by
  intro st hst
  have hwakes := Lib.Signalled.visited_wakes queueSignals_discipline
    (hpeeks.mono fun _ _ => waitsToTake_of_peeksAtOnce) st hst
  refine ⟨hwakes, fun hsettled hpos t u wait wait' ht hu => ?_⟩
  obtain ⟨es', hbelow⟩ := hwakes.below
  have hcapacity : st.shared.capacity = capacity := (run_contents hbelow).capacity_eq
  have hnone := (hwakes.settles [] st (by simp) rfl).2 hsettled
  have hwait := Queue.units_eq_zero (hnone t wait ht)
  have hwait' := Queue.units_eq_zero (hnone u wait' hu)
  change st.shared.units wait.rest.cv = 0 at hwait
  change st.shared.units wait'.rest.cv = 0 at hwait'
  have hclash : ¬(st.shared.capacity - st.shared.items.length = 0 ∧ st.shared.items.length = 0) := by
    omega
  cases hcv : wait.rest.cv with
  | not_full =>
    rw [hcv] at hwait
    cases hcv' : wait'.rest.cv with
    | not_full => rfl
    | not_empty =>
      rw [hcv'] at hwait'
      exact absurd ⟨hwait, hwait'⟩ hclash
  | not_empty =>
    rw [hcv] at hwait
    cases hcv' : wait'.rest.cv with
    | not_full =>
      rw [hcv'] at hwait'
      exact absurd ⟨hwait', hwait⟩ hclash
    | not_empty => rfl

/-- The item is in, and its sender is about to wake the receiver. -/
theorem queue_wakeups_handoff :
    ∃ st ∈ (queueSignals (Fin 2) Nat).machine.visited (.initial (xQueueCreate 1))
        [.call 0 (.xQueueReceive true portMAX_DELAY), .call 1 (.xQueueSend (some 5) 0)],
      (queueSignals (Fin 2) Nat).Wakes (xQueueCreate 1) st ∧ st.shared.items = [5] ∧
        st.place 0 = .asleep ⟨.receive, portMAX_DELAY⟩ ∧ st.place 1 = .notifying .not_empty := by
  refine ⟨?state, ?mem, (queue_wakeups ?meets _ ?mem).1, ?items, ?sleeper, ?sender⟩
  case meets =>
    refine Lib.EventMachine.meets_of_forall (fun e he st => ?_) _
    simp only [List.mem_cons, List.not_mem_nil, or_false] at he
    obtain rfl | rfl := he <;> trivial
  case mem =>
    refine Lib.EventMachine.mem_visited_iff.mpr ⟨_, List.prefix_refl _, ?_⟩
    rfl
  case items => rfl
  case sleeper => rfl
  case sender => rfl

/-- A peek that sleeps can take the wake-up that was meant for a receive: it leaves the
    item where it is and tells nobody, so the receive sleeps on in front of it and no task
    is on the way. -/
theorem peek_swallows_wakeup
    {st : Lib.Signalled.State τ (Queue α) QueueCv (Wait (QueueRest α)) (QueueResult α)} {p t u : τ}
    (peekTicks receiveTicks : TickType_t) (item : α) (hcapacity : 0 < st.shared.capacity)
    (hitems : st.shared.items = []) (hquiet : st.Quiet) (hpeek : st.place p = .asleep ⟨.peek, peekTicks⟩)
    (hreceive : st.place t = .asleep ⟨.receive, receiveTicks⟩) (hrunning : st.place u = .running) :
    ∃ st', (queueSignals τ α).machine.run st
        [.call u (.xQueueSend (some item) 0), .notify u (some p), .resume p] = some st' ∧
      st'.Quiet ∧ st'.shared.items = [item] ∧ st'.place t = .asleep ⟨.receive, receiveTicks⟩ := by
  have hpu : p ≠ u := by
    rintro rfl
    rw [hpeek] at hrunning
    cases hrunning
  have htu : t ≠ u := by
    rintro rfl
    rw [hreceive] at hrunning
    cases hrunning
  have htp : t ≠ p := by
    rintro rfl
    rw [hpeek] at hreceive
    cases hreceive
  let q : Queue α := { st.shared with items := [item] }
  let sent := (queueSignals τ α).returned st u q (.sent item false)
  let woken := (sent.moved u .running).moved p (.woken ⟨.peek, peekTicks⟩)
  have hsame : ∀ v, v ≠ u → sent.place v = st.place v := by
    intro v hv
    rw [Lib.Signalled.returned_place_of_ne _ _ _ _ hv]
    cases st.place v <;> rfl
  have hsent : sent.place p = .asleep ⟨.peek, peekTicks⟩ := (hsame p hpu).trans hpeek
  have hnotifying : sent.place u = .notifying .not_empty := Lib.Signalled.returned_place_self _ _ _ _
  have henter : (queueSignals τ α).enter u (.xQueueSend (some item) 0) st.shared =
      .returns q (.sent item false) := by
    change QueueCall.enter st.shared (.xQueueSend (some item) 0) = _
    simp [QueueCall.enter, xQueueSend, xQueueSendGeneric, Queue.proceed, Queue.has_room, hitems,
      hcapacity, attempt, q]
  have hsend : (queueSignals τ α).step st (.call u (.xQueueSend (some item) 0)) = some sent :=
    Lib.Signalled.step_of_moves (.entered hrunning henter)
  have hnotify : (queueSignals τ α).step sent (.notify u (some p)) = some woken :=
    Lib.Signalled.step_of_moves (.notified hnotifying hsent)
  have hresume : (queueSignals τ α).step woken (.resume p) =
      some ((queueSignals τ α).returned woken p q (.peeked item)) :=
    Lib.Signalled.step_of_moves (.resumed (Lib.Signalled.moved_place_self _ _) rfl)
  have hlast : ∀ v, v ≠ p → v ≠ u →
      ((queueSignals τ α).returned woken p q (.peeked item)).place v = st.place v := by
    intro v hvp hvu
    rw [Lib.Signalled.returned_place_of_ne _ _ _ _ hvp, Lib.Signalled.moved_place_of_ne _ _ hvp,
      Lib.Signalled.moved_place_of_ne _ _ hvu, hsame v hvu]
    cases st.place v <;> rfl
  refine ⟨_, Lib.EventMachine.run_cons_eq_some.mpr ⟨sent, hsend,
    Lib.EventMachine.run_cons_eq_some.mpr ⟨woken, hnotify,
      Lib.EventMachine.run_cons_eq_some.mpr ⟨_, hresume, rfl⟩⟩⟩, fun v => ?_, rfl, ?_⟩
  · by_cases hvp : v = p
    · subst hvp
      exact .inl (Lib.Signalled.returned_place_self _ _ _ _)
    · by_cases hvu : v = u
      · subst hvu
        refine .inl ?_
        rw [Lib.Signalled.returned_place_of_ne _ _ _ _ hvp, Lib.Signalled.moved_place_of_ne _ _ hvp,
          Lib.Signalled.moved_place_self]
        rfl
      · rw [hlast v hvp hvu]
        exact hquiet v
  · rw [hlast t htp htu, hreceive]

theorem peek_swallows_wakeup_first :
    ∃ st ∈ (queueSignals (Fin 3) Nat).machine.visited (.initial (xQueueCreate 1))
        [.call 0 (.xQueuePeek true portMAX_DELAY), .call 1 (.xQueueReceive true portMAX_DELAY)],
      ∃ st', (queueSignals (Fin 3) Nat).machine.run st
          [.call 2 (.xQueueSend (some 5) 0), .notify 2 (some 0), .resume 0] = some st' ∧
        st'.Quiet ∧ st'.shared.items = [5] ∧ st'.place 1 = .asleep ⟨.receive, portMAX_DELAY⟩ := by
  refine ⟨?state, ?mem, peek_swallows_wakeup portMAX_DELAY portMAX_DELAY 5 ?capacity ?items ?quiet ?peek ?receive
    ?running⟩
  case mem =>
    refine Lib.EventMachine.mem_visited_iff.mpr ⟨_, List.prefix_refl _, ?_⟩
    rfl
  case capacity => exact Nat.one_pos
  case items => rfl
  case quiet =>
    intro t
    obtain rfl | rfl | rfl : t = 0 ∨ t = 1 ∨ t = 2 := by omega
    · exact .inr ⟨_, rfl⟩
    · exact .inr ⟨_, rfl⟩
    · exact .inl rfl
  case peek => rfl
  case receive => rfl
  case running => rfl

end HostArduino.freertos
