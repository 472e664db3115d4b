import HostArduino.Bus.Analog
import HostArduino.Lib.Nesting
import Mathlib.Algebra.Order.Ring.Int

namespace HostArduino.interrupt

open bus

inductive InterruptTrigger where
  | kTriggerNone
  | kTriggerRising
  | kTriggerFalling
  | kTriggerChange
  | kTriggerLevelLow
  | kTriggerLevelHigh
  | kTriggerUnknown
  deriving DecidableEq, Repr

inductive InterruptEvent where
  | kInterruptAttach
  | kInterruptDetach
  | kInterruptEnter
  | kInterruptExit
  deriving DecidableEq, Repr

/-- What an invocation calls: a handler, or one that is given the argument it was
    registered with. -/
inductive Callee (Fn Ptr : Type) where
  | handler (fn : Fn)
  | handler_arg (fn : Fn) (arg : Option Ptr)
  deriving DecidableEq, Repr

/-- Everything the core knows about one pin's registration. An attached slot has a
    handler of one spelling or the other. -/
structure InterruptSlot (Fn Ptr : Type) where
  pin : Pin
  attached : Bool := false
  mode : Int := 0
  trigger : InterruptTrigger := .kTriggerNone
  handler : Option Fn := none
  handler_arg : Option Fn := none
  arg : Option Ptr := none
  fires : UInt32 := 0
  depth : UInt8 := 0
  registered : attached = true → handler.isSome = true ∨ handler_arg.isSome = true := by nofun

variable {Fn Ptr : Type}

def InterruptSlot.callee (slot : InterruptSlot Fn Ptr) : Option (Callee Fn Ptr) :=
  match slot.handler_arg with
  | some fn => some (.handler_arg fn slot.arg)
  | none => slot.handler.map .handler

structure InterruptTable (Fn Ptr : Type) where
  slot : Pin → InterruptSlot Fn Ptr
  pins : ∀ pin, (slot pin).pin = pin

namespace InterruptTable

def reset : InterruptTable Fn Ptr where
  slot pin := { pin }
  pins _ := rfl

/-- Writes the fields of one slot. -/
def modify (t : InterruptTable Fn Ptr) (pin : Pin) (f : InterruptSlot Fn Ptr → InterruptSlot Fn Ptr)
    (hpin : ∀ slot, (f slot).pin = slot.pin) : InterruptTable Fn Ptr where
  slot := Function.update t.slot pin (f (t.slot pin))
  pins other := by
    by_cases h : other = pin
    · subst h
      rw [Function.update_self, hpin, t.pins]
    · rw [Function.update_of_ne h, t.pins]

end InterruptTable

/-- What happens, in order: a report to the hook, with the slot it is given, or the call
    of a handler. -/
inductive Entry (Fn Ptr : Type) where
  | report (event : InterruptEvent) (slot : InterruptSlot Fn Ptr)
  | invoke (callee : Callee Fn Ptr)

/-- A piece of code that runs to its end: what it makes of the table, and what happens in it. -/
abbrev Code (Fn Ptr : Type) :=
  InterruptTable Fn Ptr → InterruptTable Fn Ptr × List (Entry Fn Ptr)

def Code.andThen (first second : Code Fn Ptr) : Code Fn Ptr := fun t =>
  let done := first t
  let rest := second done.1
  (rest.1, done.2 ++ rest.2)

/-- Tells the hook of the slot as it is now; `hook` is what the hook does then. Without a
    hook nothing is done, and nobody sees the report. -/
def report (event : InterruptEvent) (pin : Pin) (hook : Code Fn Ptr) : Code Fn Ptr := fun t =>
  let done := hook t
  (done.1, .report event (t.slot pin) :: done.2)

/-- Calls the handler, which does `body`. -/
def invoke (callee : Option (Callee Fn Ptr)) (body : Code Fn Ptr) : Code Fn Ptr := fun t =>
  match callee with
  | some callee =>
    let done := body t
    (done.1, .invoke callee :: done.2)
  | none => (t, [])

def LOW : Int := 0
def CHANGE : Int := 1
def FALLING : Int := 2
def RISING : Int := 3
def ONLOW : Int := 0x04
def ONHIGH : Int := 0x05
def ONLOW_WE : Int := 0x0C
def ONHIGH_WE : Int := 0x0D

def normalize (mode : Int) : InterruptTrigger :=
  if mode = LOW then .kTriggerLevelLow
  else if mode = CHANGE then .kTriggerChange
  else if mode = FALLING then .kTriggerFalling
  else if mode = RISING then .kTriggerRising
  else if mode = ONLOW ∨ mode = ONLOW_WE then .kTriggerLevelLow
  else if mode = ONHIGH ∨ mode = ONHIGH_WE then .kTriggerLevelHigh
  else .kTriggerUnknown

theorem toNat_lt_of_inRange {pin : Int} (h : 0 ≤ pin ∧ pin.toNat < kGpioPinCount) :
    pin.toNat < kGpioPinCount :=
  h.2

/-- The slot of a pin that is in range. -/
def inRange (pin : Int) : Option Pin :=
  if h : 0 ≤ pin ∧ pin.toNat < kGpioPinCount then some ⟨pin.toNat, toNat_lt_of_inRange h⟩ else none

def attach (pin : Pin) (handler handler_arg : Option Fn) (arg : Option Ptr) (mode : Int)
    (hook : Code Fn Ptr) : Code Fn Ptr := fun t =>
  if h : handler.isSome = true ∨ handler_arg.isSome = true then
    report .kInterruptAttach pin hook
      (t.modify pin
        (fun slot =>
          { slot with
            attached := true, mode := mode, trigger := normalize mode, handler := handler
            handler_arg := handler_arg, arg := arg, registered := fun _ => h })
        fun _ => rfl)
  else (t, [])

def detach (pin : Pin) (hook : Code Fn Ptr) : Code Fn Ptr := fun t =>
  if (t.slot pin).attached then
    report .kInterruptDetach pin hook
      (t.modify pin
        (fun slot =>
          { slot with
            attached := false, mode := 0, trigger := .kTriggerNone, handler := none
            handler_arg := none, arg := none, registered := nofun })
        fun _ => rfl)
  else (t, [])

def attachInterrupt (pin : Pin) (handler : Option Fn) (mode : Int) (hook : Code Fn Ptr) : Code Fn Ptr :=
  attach pin handler none none mode hook

def attachInterruptArg (pin : Pin) (handler : Option Fn) (arg : Option Ptr) (mode : Int)
    (hook : Code Fn Ptr) : Code Fn Ptr :=
  attach pin none handler arg mode hook

def detachInterrupt (pin : Pin) (hook : Code Fn Ptr) : Code Fn Ptr :=
  detach pin hook

def resetInterrupts : Code Fn Ptr := fun _ => (.reset, [])

/-- `++slot.fires; ++slot.depth;` -/
def countIn (pin : Pin) : Code Fn Ptr := fun t =>
  (t.modify pin (fun slot => { slot with fires := slot.fires + 1, depth := slot.depth + 1 }) fun _ => rfl, [])

/-- The slot is read again here: whatever ran meanwhile may have detached or reset it. -/
def countOut (pin : Pin) : Code Fn Ptr := fun t =>
  (t.modify pin (fun slot => { slot with depth := if 0 < slot.depth then slot.depth - 1 else slot.depth })
    fun _ => rfl, [])

/-- An invocation of the callee of an attached pin. `enter` and `exit` are what the hook
    does when it is told of it, and `body` is what the handler does. -/
def invocation (pin : Pin) (callee : Option (Callee Fn Ptr)) (enter body exit : Code Fn Ptr) : Code Fn Ptr :=
  (countIn pin).andThen <| (report .kInterruptEnter pin enter).andThen <|
    (invoke callee body).andThen <| (countOut pin).andThen <| report .kInterruptExit pin exit

/-- The callee is taken from the slot before anything runs. -/
def triggerInterrupt (pin : Int) (enter body exit : Code Fn Ptr) (t : InterruptTable Fn Ptr) :
    (InterruptTable Fn Ptr × List (Entry Fn Ptr)) × Bool :=
  match inRange pin with
  | none => ((t, []), false)
  | some pin =>
    if (t.slot pin).attached then (invocation pin (t.slot pin).callee enter body exit t, true)
    else ((t, []), false)

/-- The calls that a piece of code makes one after another, each with the code that the
    hook and the handler run in it. Handlers and hooks are arbitrary, so each invocation
    comes with its own. -/
inductive Program (Fn Ptr : Type) where
  | done
  | attachInterrupt (pin : Pin) (handler : Option Fn) (mode : Int) (hook rest : Program Fn Ptr)
  | attachInterruptArg (pin : Pin) (handler : Option Fn) (arg : Option Ptr) (mode : Int)
      (hook rest : Program Fn Ptr)
  | detachInterrupt (pin : Pin) (hook rest : Program Fn Ptr)
  | triggerInterrupt (pin : Int) (enter body exit rest : Program Fn Ptr)
  | resetInterrupts (rest : Program Fn Ptr)

def Program.run : Program Fn Ptr → Code Fn Ptr
  | .done => fun t => (t, [])
  | .attachInterrupt pin handler mode hook rest =>
    (interrupt.attachInterrupt pin handler mode hook.run).andThen rest.run
  | .attachInterruptArg pin handler arg mode hook rest =>
    (interrupt.attachInterruptArg pin handler arg mode hook.run).andThen rest.run
  | .detachInterrupt pin hook rest => (interrupt.detachInterrupt pin hook.run).andThen rest.run
  | .triggerInterrupt pin enter body exit rest =>
    Code.andThen (fun t => (interrupt.triggerInterrupt pin enter.run body.run exit.run t).1) rest.run
  | .resetInterrupts rest => interrupt.resetInterrupts.andThen rest.run

/-- All that a trigger can do: nothing, when the pin is out of range or has no handler
    attached, or else one invocation of what the pin has registered. -/
theorem triggerInterrupt_cases (pin : Int) (enter body exit : Code Fn Ptr) (t : InterruptTable Fn Ptr) :
    (triggerInterrupt pin enter body exit t = ((t, []), false) ∧
        ∀ tracked, inRange pin = some tracked → (t.slot tracked).attached = false) ∨
      ∃ tracked callee, inRange pin = some tracked ∧ (t.slot tracked).attached = true ∧
        (t.slot tracked).callee = some callee ∧
        triggerInterrupt pin enter body exit t = (invocation tracked (some callee) enter body exit t, true) := by
  unfold triggerInterrupt
  cases hrange : inRange pin with
  | none => exact .inl ⟨rfl, nofun⟩
  | some tracked =>
    cases hattached : (t.slot tracked).attached with
    | false =>
      refine .inl ⟨if_neg (by simp [hattached]), fun other hother => ?_⟩
      obtain rfl : tracked = other := Option.some.inj hother
      exact hattached
    | true =>
      obtain ⟨callee, hcallee⟩ : ∃ callee, (t.slot tracked).callee = some callee := by
        unfold InterruptSlot.callee
        cases harg : (t.slot tracked).handler_arg with
        | some fn => exact ⟨_, rfl⟩
        | none =>
          obtain hplain | hnone := (t.slot tracked).registered hattached
          · obtain ⟨fn, hfn⟩ := Option.isSome_iff_exists.mp hplain
            rw [hfn]
            exact ⟨_, rfl⟩
          · simp [harg] at hnone
      refine .inr ⟨tracked, callee, rfl, hattached, hcallee, ?_⟩
      simp only [hattached, hcallee, if_true]

end HostArduino.interrupt
