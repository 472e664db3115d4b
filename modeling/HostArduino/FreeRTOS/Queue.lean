import HostArduino.FreeRTOS.Ticks

namespace HostArduino.freertos

/-- A queue of item copies; `α` is the `item_size` bytes that the calls copy in and out. -/
structure Queue (α : Type*) where
  items : List α
  capacity : Nat
  deriving DecidableEq

/-- What a call has done to the queue when it returns. -/
inductive QueueResult (α : Type*) where
  | sent (item : α) (to_front : Bool)
  | received (item : α)
  | peeked (item : α)
  | reset (discarded : List α)
  | failed
  deriving DecidableEq

/-- The part of a call behind its predicate. -/
inductive QueueRest (α : Type*) where
  | send (item : α) (to_front : Bool)
  | receive
  | peek
  deriving DecidableEq

variable {α τ : Type*}

def QueueResult.returns : QueueResult α → BaseType_t
  | .failed => .pdFAIL
  | _ => .pdPASS

def xQueueCreate (length : Nat) : Queue α where
  items := []
  capacity := length

def Queue.has_room (q : Queue α) : Bool :=
  q.items.length < q.capacity

/-- The outcome of a call whose predicate has been checked under the lock, `none` if it is false. -/
def Queue.proceed (q : Queue α) : QueueRest α → Option (Queue α × QueueResult α)
  | .send item to_front =>
    if q.has_room then
      some ({ q with items := if to_front then item :: q.items else q.items ++ [item] },
        .sent item to_front)
    else none
  | .receive =>
    match q.items with
    | [] => none
    | item :: items => some ({ q with items }, .received item)
  | .peek =>
    match q.items with
    | [] => none
    | item :: _ => some (q, .peeked item)

abbrev QueueOutcome (α : Type*) :=
  Lib.Outcome (Queue α) (Wait (QueueRest α)) (QueueResult α)

def xQueueSendGeneric (q : Queue α) (item : Option α) (ticks_to_wait : TickType_t) (to_front : Bool) :
    QueueOutcome α :=
  match item with
  | none => .returns q .failed
  | some item =>
    attempt q (q.proceed (.send item to_front)) .failed (.send item to_front) ticks_to_wait

def xQueueSend (q : Queue α) (item : Option α) (ticks : TickType_t) : QueueOutcome α :=
  xQueueSendGeneric q item ticks false

def xQueueSendToBack (q : Queue α) (item : Option α) (ticks : TickType_t) : QueueOutcome α :=
  xQueueSendGeneric q item ticks false

def xQueueSendToFront (q : Queue α) (item : Option α) (ticks : TickType_t) : QueueOutcome α :=
  xQueueSendGeneric q item ticks true

/-- `out` says whether the caller passed a buffer to copy into. -/
def xQueueReceive (q : Queue α) (out : Bool) (ticks_to_wait : TickType_t) : QueueOutcome α :=
  if !out then .returns q .failed else attempt q (q.proceed .receive) .failed .receive ticks_to_wait

def xQueuePeek (q : Queue α) (out : Bool) (ticks_to_wait : TickType_t) : QueueOutcome α :=
  if !out then .returns q .failed else attempt q (q.proceed .peek) .failed .peek ticks_to_wait

def xQueueReset (q : Queue α) : QueueOutcome α :=
  .returns { q with items := [] } (.reset q.items)

/-- The calls a task can make on the queue. -/
inductive QueueCall (α : Type*) where
  | xQueueSend (item : Option α) (ticks : TickType_t)
  | xQueueSendToBack (item : Option α) (ticks : TickType_t)
  | xQueueSendToFront (item : Option α) (ticks : TickType_t)
  | xQueueReceive (out : Bool) (ticks_to_wait : TickType_t)
  | xQueuePeek (out : Bool) (ticks_to_wait : TickType_t)
  | xQueueReset
  deriving DecidableEq

def QueueCall.enter (q : Queue α) : QueueCall α → QueueOutcome α
  | .xQueueSend item ticks => freertos.xQueueSend q item ticks
  | .xQueueSendToBack item ticks => freertos.xQueueSendToBack q item ticks
  | .xQueueSendToFront item ticks => freertos.xQueueSendToFront q item ticks
  | .xQueueReceive out ticks_to_wait => freertos.xQueueReceive q out ticks_to_wait
  | .xQueuePeek out ticks_to_wait => freertos.xQueuePeek q out ticks_to_wait
  | .xQueueReset => freertos.xQueueReset q

/-- One queue shared by the tasks `τ`. -/
def queueMonitor (τ α : Type*) :
    Lib.Monitor τ (Queue α) (QueueCall α) (Wait (QueueRest α)) (QueueResult α) where
  enter _ call q := call.enter q
  resume _ wait q := q.proceed wait.rest
  expire wait := wait.expire .failed

abbrev QueueState (τ α : Type*) :=
  Lib.Monitor.State τ (Queue α) (Wait (QueueRest α)) (QueueResult α)

/-- All that a call can have done to the queue when it returns. -/
inductive Queue.Move (q : Queue α) : Queue α → QueueResult α → Prop
  | sent (item : α) (to_front : Bool) (hroom : q.items.length < q.capacity) :
      Queue.Move q { q with items := if to_front then item :: q.items else q.items ++ [item] }
        (.sent item to_front)
  | received (item : α) (items : List α) (hitems : q.items = item :: items) :
      Queue.Move q { q with items } (.received item)
  | peeked (item : α) (items : List α) (hitems : q.items = item :: items) :
      Queue.Move q q (.peeked item)
  | reset : Queue.Move q { q with items := [] } (.reset q.items)
  | failed : Queue.Move q q .failed

variable {q q' : Queue α} {r : QueueResult α}

theorem Queue.proceed_move {rest : QueueRest α} (h : q.proceed rest = some (q', r)) : q.Move q' r := by
  cases rest with
  | send item to_front =>
    by_cases hroom : q.items.length < q.capacity
    · obtain ⟨rfl, rfl⟩ : _ = q' ∧ QueueResult.sent item to_front = r := by
        simpa [Queue.proceed, Queue.has_room, hroom] using h
      exact .sent item to_front hroom
    · simp [Queue.proceed, Queue.has_room, hroom] at h
  | receive =>
    cases hitems : q.items with
    | nil => simp [Queue.proceed, hitems] at h
    | cons item items =>
      obtain ⟨rfl, rfl⟩ : { q with items } = q' ∧ QueueResult.received item = r := by
        simpa [Queue.proceed, hitems] using h
      exact .received item items hitems
  | peek =>
    cases hitems : q.items with
    | nil => simp [Queue.proceed, hitems] at h
    | cons item items =>
      obtain ⟨rfl, rfl⟩ : q = q' ∧ QueueResult.peeked item = r := by
        simpa [Queue.proceed, hitems] using h
      exact .peeked item items hitems

theorem Queue.attempt_move {rest rest' : QueueRest α} {ticks_to_wait : TickType_t}
    (h : attempt q (q.proceed rest) .failed rest' ticks_to_wait = .returns q' r) : q.Move q' r := by
  obtain hdone | ⟨rfl, rfl⟩ := attempt_returns h
  · exact Queue.proceed_move hdone
  · exact .failed

theorem xQueueSendGeneric_move {item : Option α} {ticks_to_wait : TickType_t} {to_front : Bool}
    (h : xQueueSendGeneric q item ticks_to_wait to_front = .returns q' r) : q.Move q' r := by
  cases item with
  | none =>
    obtain ⟨rfl, rfl⟩ := Lib.Outcome.returns.inj h
    exact .failed
  | some item => exact Queue.attempt_move h

theorem QueueCall.enter_move {call : QueueCall α} (h : call.enter q = .returns q' r) : q.Move q' r := by
  cases call with
  | xQueueSend => exact xQueueSendGeneric_move h
  | xQueueSendToBack => exact xQueueSendGeneric_move h
  | xQueueSendToFront => exact xQueueSendGeneric_move h
  | xQueueReceive out =>
    cases out with
    | false =>
      obtain ⟨rfl, rfl⟩ := Lib.Outcome.returns.inj h
      exact .failed
    | true => exact Queue.attempt_move h
  | xQueuePeek out =>
    cases out with
    | false =>
      obtain ⟨rfl, rfl⟩ := Lib.Outcome.returns.inj h
      exact .failed
    | true => exact Queue.attempt_move h
  | xQueueReset =>
    obtain ⟨rfl, rfl⟩ := Lib.Outcome.returns.inj h
    exact .reset

end HostArduino.freertos
