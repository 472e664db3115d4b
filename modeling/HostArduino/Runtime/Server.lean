import HostArduino.Lib.EventMachine
import HostArduino.Runtime.Serial

namespace HostArduino.runtime

/-- What can happen next: a sketch-side `serialWrite`, one of the steps of the
    server thread, or `runtimeStop` asking everything to end. -/
inductive Event where
  | serialWrite (data : List UInt8)
  | acceptFails
  | accept
  | setConnected
  | connectTimeout
  | leaveAccept
  | flush
  | receive (data : List UInt8)
  | disconnect
  | close
  | runtimeStop
  deriving DecidableEq, Repr

/-- `serverLoop` under its lock, between the accept loop and the receive loop. -/
def flushOutput (r : Runtime) : Runtime :=
  if r.g_output_buffer = [] then r else sendToClient r r.g_output_buffer

/-- The server thread comes to the test of its loop. -/
def Runtime.tested (r : Runtime) : Runtime :=
  { r with looping := !r.g_stop }

def Runtime.step (r : Runtime) : Event → Option Runtime
  | .serialWrite data => some (runtime.serialWrite r data).2
  | .acceptFails =>
    if r.server = .accepting ∧ r.looping = true then some { r with g_client_socket := false }.tested else none
  | .accept =>
    -- The socket is visible to `serialWrite` from here on, before the flush.
    if r.server = .accepting ∧ r.looping = true then
      some { r with g_client_socket := true, server := .accepted }
    else none
  | .setConnected =>
    if r.server = .accepted then some { r with g_connected_once := true, server := .flushing } else none
  | .connectTimeout =>
    if r.server = .accepting ∧ r.g_connected_once = false then
      some { r with g_stop := true, server := .exited }
    else none
  | .leaveAccept =>
    if r.server = .accepting ∧ r.g_stop = true then some { r with server := .flushing } else none
  | .flush =>
    if r.server = .flushing then some { flushOutput r with server := .serving }.tested else none
  | .receive data =>
    if r.server = .serving ∧ r.looping = true ∧ r.g_client_socket = true then
      some { r with g_input_buffer := r.g_input_buffer ++ data }.tested
    else none
  | .disconnect =>
    if r.server = .serving ∧ r.looping = true ∧ r.g_client_socket = true then
      some { r with g_stop := true }.tested
    else none
  | .close =>
    if r.server = .serving ∧ (r.g_stop = true ∨ r.g_client_socket = false) then
      some { r with g_client_socket := false, g_stop := true, server := .exited }
    else none
  | .runtimeStop => some { r with g_stop := true }

def machine : Lib.EventMachine Runtime Event where
  step := Runtime.step

/-- All that a step can be, with what it takes. -/
inductive Runtime.Step (r : Runtime) : Event → Runtime → Prop where
  | serialWrite (data : List UInt8) : Step r (.serialWrite data) (runtime.serialWrite r data).2
  | acceptFails (hserver : r.server = .accepting) (hlooping : r.looping = true) :
      Step r .acceptFails { r with g_client_socket := false }.tested
  | accept (hserver : r.server = .accepting) (hlooping : r.looping = true) :
      Step r .accept { r with g_client_socket := true, server := .accepted }
  | setConnected (hserver : r.server = .accepted) :
      Step r .setConnected { r with g_connected_once := true, server := .flushing }
  | connectTimeout (hserver : r.server = .accepting) (hconnected : r.g_connected_once = false) :
      Step r .connectTimeout { r with g_stop := true, server := .exited }
  | leaveAccept (hserver : r.server = .accepting) (hstop : r.g_stop = true) :
      Step r .leaveAccept { r with server := .flushing }
  | flush (hserver : r.server = .flushing) : Step r .flush { flushOutput r with server := .serving }.tested
  | receive (data : List UInt8) (hserver : r.server = .serving) (hlooping : r.looping = true)
      (hsocket : r.g_client_socket = true) :
      Step r (.receive data) { r with g_input_buffer := r.g_input_buffer ++ data }.tested
  | disconnect (hserver : r.server = .serving) (hlooping : r.looping = true)
      (hsocket : r.g_client_socket = true) : Step r .disconnect { r with g_stop := true }.tested
  | close (hserver : r.server = .serving) (hends : r.g_stop = true ∨ r.g_client_socket = false) :
      Step r .close { r with g_client_socket := false, g_stop := true, server := .exited }
  | runtimeStop : Step r .runtimeStop { r with g_stop := true }

theorem Runtime.step_cases {r r' : Runtime} {e : Event} (hstep : r.step e = some r') : r.Step e r' := by
  cases e with
  | serialWrite data =>
    cases hstep
    exact .serialWrite data
  | acceptFails =>
    obtain ⟨⟨hserver, hlooping⟩, ⟨⟩⟩ := Option.ite_none_right_eq_some.mp hstep
    exact .acceptFails hserver hlooping
  | accept =>
    obtain ⟨⟨hserver, hlooping⟩, ⟨⟩⟩ := Option.ite_none_right_eq_some.mp hstep
    exact .accept hserver hlooping
  | setConnected =>
    obtain ⟨hserver, ⟨⟩⟩ := Option.ite_none_right_eq_some.mp hstep
    exact .setConnected hserver
  | connectTimeout =>
    obtain ⟨⟨hserver, hconnected⟩, ⟨⟩⟩ := Option.ite_none_right_eq_some.mp hstep
    exact .connectTimeout hserver hconnected
  | leaveAccept =>
    obtain ⟨⟨hserver, hstop⟩, ⟨⟩⟩ := Option.ite_none_right_eq_some.mp hstep
    exact .leaveAccept hserver hstop
  | flush =>
    obtain ⟨hserver, ⟨⟩⟩ := Option.ite_none_right_eq_some.mp hstep
    exact .flush hserver
  | receive data =>
    obtain ⟨⟨hserver, hlooping, hsocket⟩, ⟨⟩⟩ := Option.ite_none_right_eq_some.mp hstep
    exact .receive data hserver hlooping hsocket
  | disconnect =>
    obtain ⟨⟨hserver, hlooping, hsocket⟩, ⟨⟩⟩ := Option.ite_none_right_eq_some.mp hstep
    exact .disconnect hserver hlooping hsocket
  | close =>
    obtain ⟨⟨hserver, hends⟩, ⟨⟩⟩ := Option.ite_none_right_eq_some.mp hstep
    exact .close hserver hends
  | runtimeStop =>
    cases hstep
    exact .runtimeStop

/-- The bytes of one event of the sketch. -/
def Event.written : Event → List UInt8
  | .serialWrite data => data
  | _ => []

/-- The concatenation of all bytes a schedule passes to `serialWrite`, in write order. -/
def written (events : List Event) : List UInt8 :=
  events.flatMap Event.written

@[simp] theorem written_concat (events : List Event) (event : Event) :
    written (events ++ [event]) = written events ++ event.written := by
  simp [written]

/-- The events of a connection that comes up and stays up: nothing asks for a stop. -/
def Event.KeepsConnection : Event → Prop
  | .connectTimeout | .leaveAccept | .disconnect | .close | .runtimeStop => False
  | _ => True

instance : DecidablePred Event.KeepsConnection
  | .connectTimeout | .leaveAccept | .disconnect | .close | .runtimeStop => .isFalse id
  | .serialWrite _ | .acceptFails | .accept | .setConnected | .flush | .receive _ => .isTrue trivial

/-- Nothing is written while the socket is installed and not yet flushed. -/
def WindowQuiet (r : Runtime) (event : Event) : Prop :=
  (r.server = .accepted ∨ r.server = .flushing) → event.written = []

end HostArduino.runtime
