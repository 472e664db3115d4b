import HostArduino.Runtime.Server

namespace HostArduino.runtime

/-- The four points around the sketch that are announced. -/
inductive LifecyclePhase where
  | kPreSetup
  | kPostSetup
  | kPreLoop
  | kPostLoop
  deriving DecidableEq, Repr

inductive ExitReason where
  | unknown
  | runtime_start_failed
  | connect_timeout
  | tcp_send_error
  | tcp_recv_error
  | tcp_disconnected
  deriving DecidableEq, Repr

/-- Where the main thread stands: in `runtimeStart` (`starting` in `startServer`, then at the
    condition, in the body and behind the loop of `waitForClient`), in `main`, in the sketch,
    in `runtimeStop`, or at its end. -/
inductive MainThread where
  | starting
  | waiting
  | polling
  | waited
  | preSetup
  | inSetup
  | postSetup
  | testing
  | preLoop
  | inLoop
  | postLoop
  | stopping
  | joining
  | returned (code : Nat)
  deriving DecidableEq, Repr

def MainThread.alive : MainThread → Bool
  | .returned _ => false
  | _ => true

/-- What a call on the input side of `Serial` has returned; `none` is -1. -/
inductive SerialResult where
  | available (n : Int32)
  | read (c : Option UInt8)
  | peek (c : Option UInt8)
  deriving DecidableEq, Repr

/-- The calls of the sketch, and of what runs on its behalf. The sketch is one that leaves
    `runtimeStop` to `main`. -/
inductive SketchCall where
  | serialWrite (data : List UInt8)
  | serialAvailable
  | serialRead
  | serialPeek
  | setLifecycleHook
  | clearLifecycleHook
  deriving DecidableEq, Repr

/-- The process of a sketch: its globals with the server thread, the main thread, and what
    has been announced, to the hook and at all, has come in and has been returned so far. -/
structure Process where
  globals : Runtime
  g_exit_reason : ExitReason
  main : MainThread
  joined : Bool
  loop_count : UInt64
  lifecycle_hook : Bool
  hook_calls : List (LifecyclePhase × UInt64)
  announced : List (LifecyclePhase × UInt64)
  arrived : List UInt8
  results : List SerialResult

def Process.initial (g_output_limit : Nat) (sends : Nat → SendResult) (lifecycle_hook : Bool) : Process where
  globals := .initial g_output_limit sends
  g_exit_reason := .unknown
  main := .starting
  joined := false
  loop_count := 0
  lifecycle_hook
  hook_calls := []
  announced := []
  arrived := []
  results := []

def serialAvailable (r : Runtime) : Int32 :=
  Int32.ofNat r.g_input_buffer.length

def serialRead (r : Runtime) : Option UInt8 × Runtime :=
  match r.g_input_buffer with
  | [] => (none, r)
  | ch :: rest => (some ch, { r with g_input_buffer := rest })

def serialPeek (r : Runtime) : Option UInt8 :=
  r.g_input_buffer.head?

namespace Process

/-- Only the first reason is kept. -/
def setExitReason (p : Process) (reason : ExitReason) : Process :=
  { p with g_exit_reason := if p.g_exit_reason = .unknown then reason else p.g_exit_reason }

def announce (p : Process) (phase : LifecyclePhase) : Process :=
  -- Counted before the hook runs.
  let loop_count := if phase = .kPostLoop then p.loop_count + 1 else p.loop_count
  { p with
    loop_count
    hook_calls := if p.lifecycle_hook then p.hook_calls ++ [(phase, loop_count)] else p.hook_calls
    announced := p.announced ++ [(phase, loop_count)] }

/-- A step of the runtime that sends, after which a failed send has set the reason. -/
def sending (p : Process) (r : Runtime) : Process :=
  if !p.globals.g_stop && r.g_stop then { p with globals := r }.setExitReason .tcp_send_error
  else { p with globals := r }

def sketch (p : Process) : SketchCall → Process
  | .serialWrite data => p.sending (serialWrite p.globals data).2
  | .serialAvailable => { p with results := p.results ++ [.available (serialAvailable p.globals)] }
  | .serialRead =>
    { p with
      globals := (serialRead p.globals).2
      results := p.results ++ [.read (serialRead p.globals).1] }
  | .serialPeek => { p with results := p.results ++ [.peek (serialPeek p.globals)] }
  | .setLifecycleHook => { p with lifecycle_hook := true }
  | .clearLifecycleHook => { p with lifecycle_hook := false }

/-- The next step of the main thread outside of the sketch. -/
def mainStep (p : Process) : Option Process :=
  match p.main with
  | .waiting =>
    if !p.globals.g_connected_once && !p.globals.g_stop then some { p with main := .polling }
    else some { p with main := .waited }
  | .polling => some { p with main := .waiting }
  | .waited =>
    if !p.globals.g_connected_once then some { p with main := .returned 1 }
    else some { p with main := .preSetup }
  | .preSetup => some { p.announce .kPreSetup with main := .inSetup }
  | .postSetup => some { p.announce .kPostSetup with main := .testing }
  | .testing =>
    if !p.globals.g_stop then some { p with main := .preLoop } else some { p with main := .stopping }
  | .preLoop => some { p.announce .kPreLoop with main := .inLoop }
  | .postLoop => some { p.announce .kPostLoop with main := .testing }
  | .stopping => some { p with globals := { p.globals with g_stop := true }, main := .joining }
  | .joining =>
    if p.globals.server = .exited then some { p with joined := true, main := .returned 0 } else none
  | .starting | .inSetup | .inLoop | .returned _ => none

end Process

/-- What can happen next: `startServer` ends, the server thread or the main thread moves,
    `waitForClient` finds its deadline passed, the sketch makes a call, or its `setup` or
    `loop` returns. -/
inductive ProcessEvent where
  | startServer (ok : Bool)
  | server (e : Event)
  | disconnect (recv_error : Bool)
  | main
  | deadline
  | sketch (call : SketchCall)
  | sketchReturns
  deriving DecidableEq, Repr

/-- The server thread's own events, the end of its receive loop apart. -/
def Event.OfServer : Event → Prop
  | .serialWrite _ | .disconnect | .runtimeStop => False
  | _ => True

instance : DecidablePred Event.OfServer
  | .serialWrite _ | .disconnect | .runtimeStop => .isFalse id
  | .acceptFails | .accept | .setConnected | .connectTimeout | .leaveAccept | .flush | .receive _ | .close =>
    .isTrue trivial

namespace Process

/-- One step of the server thread. -/
def serverStep (p : Process) (e : Event) : Option Process :=
  (p.globals.step e).map fun r =>
    match e with
    | .flush => p.sending r
    | .connectTimeout => { p with globals := r }.setExitReason .connect_timeout
    | .close => { p with globals := r }.setExitReason .tcp_disconnected
    | .receive data => { p with globals := r, arrived := p.arrived ++ data }
    | _ => { p with globals := r }

/-- The server thread runs once it is started, and nothing does once `main` has returned. -/
def step (p : Process) : ProcessEvent → Option Process
  | .startServer ok =>
    if p.main = .starting then
      if ok then some { p with main := .waiting }
      else some { p.setExitReason .runtime_start_failed with main := .returned 1 }
    else none
  | .server e =>
    if e.OfServer ∧ p.main ≠ .starting ∧ p.main.alive = true then p.serverStep e else none
  | .disconnect recv_error =>
    if p.main ≠ .starting ∧ p.main.alive = true then
      (p.globals.step .disconnect).map fun r =>
        { p with globals := r }.setExitReason (if recv_error then .tcp_recv_error else .tcp_disconnected)
    else none
  | .main => p.mainStep
  | .deadline =>
    if p.main = .polling then
      some
        { p.setExitReason .connect_timeout with
          globals := { p.globals with g_stop := true }, main := .returned 1 }
    else none
  | .sketch call => if p.main.alive then some (p.sketch call) else none
  | .sketchReturns =>
    match p.main with
    | .inSetup => some { p with main := .postSetup }
    | .inLoop => some { p with main := .postLoop }
    | _ => none

def machine : Lib.EventMachine Process ProcessEvent where
  step := step

end Process

/-- The steps in which the main thread only moves on. -/
inductive MainThread.Moves (r : Runtime) : MainThread → MainThread → Prop where
  | wait (hconnected : r.g_connected_once = false) (hstop : r.g_stop = false) : Moves r .waiting .polling
  | leave (hdone : r.g_connected_once = true ∨ r.g_stop = true) : Moves r .waiting .waited
  | poll : Moves r .polling .waiting
  | notConnected (hconnected : r.g_connected_once = false) : Moves r .waited (.returned 1)
  | connected (hconnected : r.g_connected_once = true) : Moves r .waited .preSetup
  | iterate (hstop : r.g_stop = false) : Moves r .testing .preLoop
  | stop (hstop : r.g_stop = true) : Moves r .testing .stopping

inductive MainThread.Announces : MainThread → LifecyclePhase → MainThread → Prop where
  | preSetup : Announces .preSetup .kPreSetup .inSetup
  | postSetup : Announces .postSetup .kPostSetup .testing
  | preLoop : Announces .preLoop .kPreLoop .inLoop
  | postLoop : Announces .postLoop .kPostLoop .testing

inductive MainThread.Returns : MainThread → MainThread → Prop where
  | setup : Returns .inSetup .postSetup
  | loop : Returns .inLoop .postLoop

namespace Process

/-- All that a step can be, with what it takes. -/
inductive Step (p : Process) : ProcessEvent → Process → Prop where
  | started (hmain : p.main = .starting) : Step p (.startServer true) { p with main := .waiting }
  | startFailed (hmain : p.main = .starting) :
      Step p (.startServer false) { p.setExitReason .runtime_start_failed with main := .returned 1 }
  | server (e : Event) {p' : Process} (he : e.OfServer) (hstep : p.serverStep e = some p') :
      Step p (.server e) p'
  | disconnect (recv_error : Bool) {r : Runtime} (hr : p.globals.step .disconnect = some r) :
      Step p (.disconnect recv_error)
        ({ p with globals := r }.setExitReason (if recv_error then .tcp_recv_error else .tcp_disconnected))
  | sketch (call : SketchCall) : Step p (.sketch call) (p.sketch call)
  | moves {main : MainThread} (hmain : p.main.Moves p.globals main) : Step p .main { p with main }
  | announces {phase : LifecyclePhase} {main : MainThread} (hmain : p.main.Announces phase main) :
      Step p .main { p.announce phase with main }
  | stops (hmain : p.main = .stopping) :
      Step p .main { p with globals := { p.globals with g_stop := true }, main := .joining }
  | joins (hmain : p.main = .joining) (hexited : p.globals.server = .exited) :
      Step p .main { p with joined := true, main := .returned 0 }
  | deadline (hmain : p.main = .polling) :
      Step p .deadline
        { p.setExitReason .connect_timeout with
          globals := { p.globals with g_stop := true }, main := .returned 1 }
  | sketchReturns {main : MainThread} (hmain : p.main.Returns main) : Step p .sketchReturns { p with main }

variable {p p' : Process} {e : ProcessEvent}

theorem mainStep_cases (hstep : p.mainStep = some p') : Step p .main p' := by
  have moves : ∀ {before after : MainThread}, p.main = before → before.Moves p.globals after →
      Step p .main { p with main := after } := fun hmain hmoves => .moves (hmain ▸ hmoves)
  have announces : ∀ {before after : MainThread} {phase : LifecyclePhase}, p.main = before →
      before.Announces phase after → Step p .main { p.announce phase with main := after } :=
    fun hmain hannounces => .announces (hmain ▸ hannounces)
  unfold mainStep at hstep
  cases hmain : p.main with
  | waiting =>
    rw [hmain] at hstep
    simp only at hstep
    split at hstep
    · rename_i hwaits
      cases hstep
      obtain ⟨hconnected, hstop⟩ := by simpa using hwaits
      exact moves hmain (.wait hconnected hstop)
    · rename_i hdone
      cases hstep
      exact moves hmain (.leave (by simpa [Classical.or_iff_not_imp_left] using hdone))
  | polling =>
    rw [hmain] at hstep
    cases hstep
    exact moves hmain .poll
  | waited =>
    rw [hmain] at hstep
    simp only at hstep
    split at hstep
    · rename_i hconnected
      cases hstep
      exact moves hmain (.notConnected (by simpa using hconnected))
    · rename_i hconnected
      cases hstep
      exact moves hmain (.connected (by simpa using hconnected))
  | preSetup =>
    rw [hmain] at hstep
    cases hstep
    exact announces hmain .preSetup
  | postSetup =>
    rw [hmain] at hstep
    cases hstep
    exact announces hmain .postSetup
  | testing =>
    rw [hmain] at hstep
    simp only at hstep
    split at hstep
    · rename_i hstop
      cases hstep
      exact moves hmain (.iterate (by simpa using hstop))
    · rename_i hstop
      cases hstep
      exact moves hmain (.stop (by simpa using hstop))
  | preLoop =>
    rw [hmain] at hstep
    cases hstep
    exact announces hmain .preLoop
  | postLoop =>
    rw [hmain] at hstep
    cases hstep
    exact announces hmain .postLoop
  | stopping =>
    rw [hmain] at hstep
    cases hstep
    exact .stops hmain
  | joining =>
    rw [hmain] at hstep
    simp only at hstep
    split at hstep
    · rename_i hexited
      cases hstep
      exact .joins hmain hexited
    · cases hstep
  | starting =>
    rw [hmain] at hstep
    cases hstep
  | inSetup =>
    rw [hmain] at hstep
    cases hstep
  | inLoop =>
    rw [hmain] at hstep
    cases hstep
  | returned code =>
    rw [hmain] at hstep
    cases hstep

theorem step_cases (hstep : p.step e = some p') : Step p e p' := by
  cases e with
  | startServer ok =>
    obtain ⟨hmain, heq⟩ := Option.ite_none_right_eq_some.mp hstep
    cases ok with
    | true =>
      cases heq
      exact .started hmain
    | false =>
      cases heq
      exact .startFailed hmain
  | server e =>
    obtain ⟨⟨he, -⟩, hserver⟩ := Option.ite_none_right_eq_some.mp hstep
    exact .server e he hserver
  | disconnect recv_error =>
    obtain ⟨-, hmap⟩ := Option.ite_none_right_eq_some.mp hstep
    obtain ⟨r, hr, rfl⟩ := Option.map_eq_some_iff.mp hmap
    exact .disconnect recv_error hr
  | main => exact mainStep_cases hstep
  | deadline =>
    obtain ⟨hmain, ⟨⟩⟩ := Option.ite_none_right_eq_some.mp hstep
    exact .deadline hmain
  | sketch call =>
    obtain ⟨-, ⟨⟩⟩ := Option.ite_none_right_eq_some.mp hstep
    exact .sketch call
  | sketchReturns =>
    simp only [step] at hstep
    split at hstep
    · rename_i hmain
      cases hstep
      exact .sketchReturns (hmain ▸ .setup)
    · rename_i hmain
      cases hstep
      exact .sketchReturns (hmain ▸ .loop)
    · cases hstep

end Process

end HostArduino.runtime
