import HostArduino.Runtime.Lifecycle

namespace HostArduino.runtime

section Globals

variable {r r' : Runtime} {e : Event}

/-- What sending leaves to the server thread. -/
structure Sends (r r' : Runtime) : Prop where
  server : r'.server = r.server
  looping : r'.looping = r.looping
  socket : r'.g_client_socket = r.g_client_socket
  stop : r.g_stop = true → r'.g_stop = true

theorem sendToClient_sends (r : Runtime) (data : List UInt8) : Sends r (sendToClient r data) := by
  have hstop := (sendToClient_advances r data).stop
  rw [sendToClient_frame] at hstop ⊢
  exact ⟨rfl, rfl, rfl, hstop⟩

theorem serialWrite_sends (r : Runtime) (data : List UInt8) : Sends r (serialWrite r data).2 := by
  unfold serialWrite
  split
  · exact ⟨rfl, rfl, rfl, id⟩
  · have hsend := sendToClient_sends (appendOutputLocked r data) data
    rw [appendOutputLocked_frame] at hsend ⊢
    exact ⟨hsend.server, hsend.looping, hsend.socket, hsend.stop⟩

/-- How far the server thread is from its end once a stop is requested. It may be behind
    the test of its loop and take in what has come before it tests again. -/
def Runtime.distance (r : Runtime) : Nat :=
  match r.server with
  | .accepting => if r.looping then 5 else 4
  | .accepted => 3
  | .flushing => 2
  | .serving => if r.looping then 2 else 1
  | .exited => 0

/-- A step of the server thread after a stop was requested brings it nearer to its end. -/
theorem distance_step (hstop : r.g_stop = true) (he : e.OfServer) (hstep : r.step e = some r') :
    r'.distance < r.distance := by
  have hafter : r'.g_stop = true := (step_advances hstep).stop hstop
  cases Runtime.step_cases hstep with
  | acceptFails hserver hlooping => simp [Runtime.distance, Runtime.tested, hserver, hlooping, hstop]
  | accept hserver hlooping => simp [Runtime.distance, hserver, hlooping]
  | receive _ hserver hlooping => simp [Runtime.distance, Runtime.tested, hserver, hlooping, hstop]
  | flush hserver =>
    have hsent : (flushOutput r).g_stop = true := hafter
    simp [Runtime.distance, Runtime.tested, hserver, hsent]
  | setConnected hserver => simp [Runtime.distance, hserver]
  | connectTimeout hserver =>
    simp only [Runtime.distance, hserver]
    split <;> decide
  | leaveAccept hserver =>
    simp only [Runtime.distance, hserver]
    split <;> decide
  | close hserver =>
    simp only [Runtime.distance, hserver]
    split <;> decide
  | serialWrite => exact he.elim
  | disconnect => exact he.elim
  | runtimeStop => exact he.elim

/-- So does the end of its receive loop. -/
theorem distance_disconnect (hstep : r.step .disconnect = some r') : r'.distance < r.distance := by
  cases Runtime.step_cases hstep with
  | disconnect hserver hlooping => simp [Runtime.distance, Runtime.tested, hserver, hlooping]

theorem step_eq_none_of_exited (hexited : r.server = .exited) (he : e.OfServer) : r.step e = none := by
  cases e with
  | serialWrite data => exact he.elim
  | disconnect => exact he.elim
  | runtimeStop => exact he.elim
  | _ => simp [Runtime.step, hexited]

/-- The server thread ends with a stop requested and without a client. -/
theorem step_exits (he : e.OfServer) (hstep : r.step e = some r')
    (haccepting : r.server = .accepting → r.g_client_socket = false) (hexited : r'.server = .exited) :
    r'.g_stop = true ∧ r'.g_client_socket = false ∧ (e = .connectTimeout ∨ e = .close) := by
  cases Runtime.step_cases hstep with
  | connectTimeout hserver => exact ⟨rfl, haccepting hserver, .inl rfl⟩
  | close => exact ⟨rfl, rfl, .inr rfl⟩
  | acceptFails hserver => cases hserver.symm.trans hexited
  | receive _ hserver => cases hserver.symm.trans hexited
  | flush => cases hexited
  | accept => cases hexited
  | setConnected => cases hexited
  | leaveAccept => cases hexited
  | serialWrite => exact he.elim
  | disconnect => exact he.elim
  | runtimeStop => exact he.elim

/-- As long as the server thread is accepting it has no client. -/
theorem step_accepting (he : e.OfServer) (hstep : r.step e = some r')
    (haccepting : r.server = .accepting → r.g_client_socket = false) (hstill : r'.server = .accepting) :
    r'.g_client_socket = false := by
  cases Runtime.step_cases hstep with
  | acceptFails => rfl
  | receive => exact haccepting hstill
  | flush => cases hstill
  | connectTimeout => cases hstill
  | close => cases hstill
  | accept => cases hstill
  | setConnected => cases hstill
  | leaveAccept => cases hstill
  | serialWrite => exact he.elim
  | disconnect => exact he.elim
  | runtimeStop => exact he.elim

end Globals

/-- How far the main thread is from its end once a stop is requested. -/
def MainThread.distance : MainThread → Nat
  | .starting => 10
  | .polling => 9
  | .waiting => 8
  | .waited => 7
  | .preSetup | .preLoop => 6
  | .inSetup | .inLoop => 5
  | .postSetup | .postLoop => 4
  | .testing => 3
  | .stopping => 2
  | .joining => 1
  | .returned _ => 0

theorem MainThread.Moves.distance {r : Runtime} {before after : MainThread} (h : before.Moves r after)
    (hstop : r.g_stop = true) : after.distance < before.distance := by
  cases h with
  | wait _ hrunning => cases hrunning.symm.trans hstop
  | iterate hrunning => cases hrunning.symm.trans hstop
  | _ => simp [MainThread.distance]

theorem MainThread.Announces.distance {before after : MainThread} {phase : LifecyclePhase}
    (h : before.Announces phase after) : after.distance < before.distance := by
  cases h <;> simp [MainThread.distance]

theorem MainThread.Returns.distance {before after : MainThread} (h : before.Returns after) :
    after.distance < before.distance := by
  cases h <;> simp [MainThread.distance]

/-- The steps of the threads themselves, the calls of the sketch apart. -/
def ProcessEvent.Own : ProcessEvent → Prop
  | .sketch _ => False
  | _ => True

instance : DecidablePred ProcessEvent.Own
  | .sketch _ => .isFalse id
  | .startServer _ | .server _ | .disconnect _ | .main | .deadline | .sketchReturns => .isTrue trivial

theorem MainThread.Moves.stopping {r : Runtime} {before after : MainThread} (h : before.Moves r after) :
    before ≠ .returned 0 ∧ after ≠ .returned 0 ∧ (after = .stopping ∨ after = .joining → r.g_stop = true) := by
  cases h with
  | stop hstop => exact ⟨by simp, by simp, fun _ => hstop⟩
  | _ => simp

theorem MainThread.Announces.stopping {before after : MainThread} {phase : LifecyclePhase}
    (h : before.Announces phase after) :
    before ≠ .returned 0 ∧ after ≠ .returned 0 ∧ ¬(after = .stopping ∨ after = .joining) := by
  cases h <;> simp

namespace Process

variable {p p' : Process} {e : ProcessEvent}

def distance (p : Process) : Nat :=
  p.main.distance + p.globals.distance

/-- The reason is there once a stop is requested, and a stop is requested once the server
    thread or the main thread is about to end. -/
structure Stopping (p : Process) : Prop where
  reason : p.globals.g_stop = true → p.g_exit_reason ≠ .unknown
  server : p.globals.server = .exited → p.globals.g_stop = true ∧ p.globals.g_client_socket = false
  accepting : p.globals.server = .accepting → p.globals.g_client_socket = false
  main : p.main = .stopping ∨ p.main = .joining → p.globals.g_stop = true
  joined : p.joined = true ↔ p.main = .returned 0
  exited : p.main = .returned 0 → p.globals.server = .exited

theorem setExitReason_ne (p : Process) {reason : ExitReason} (hreason : reason ≠ .unknown) :
    (p.setExitReason reason).g_exit_reason ≠ .unknown := by
  simp only [setExitReason]
  split
  · exact hreason
  · assumption

theorem setExitReason_eq (hreason : p.g_exit_reason ≠ .unknown) (reason : ExitReason) :
    (p.setExitReason reason).g_exit_reason = p.g_exit_reason :=
  if_neg hreason

/-- A failed send has set the reason. -/
theorem sending_reason (hreason : p.globals.g_stop = true → p.g_exit_reason ≠ .unknown) (r : Runtime)
    (hstop : (p.sending r).globals.g_stop = true) : (p.sending r).g_exit_reason ≠ .unknown := by
  unfold sending at hstop ⊢
  split
  · exact setExitReason_ne _ nofun
  · rename_i hsame
    rw [if_neg hsame] at hstop
    refine hreason ?_
    simpa [show r.g_stop = true from hstop] using hsame

theorem sending_globals (p : Process) (r : Runtime) : (p.sending r).globals = r := by
  unfold sending
  split <;> rfl

theorem serverStep_globals {e : Event} (hstep : p.serverStep e = some p') :
    p.globals.step e = some p'.globals := by
  obtain ⟨r, hr, rfl⟩ := Option.map_eq_some_iff.mp hstep
  rw [hr]
  cases e with
  | flush => exact congrArg some (sending_globals p r).symm
  | _ => rfl

theorem stopping_initial (g_output_limit : Nat) (sends : Nat → SendResult) (lifecycle_hook : Bool) :
    (Process.initial g_output_limit sends lifecycle_hook).Stopping where
  reason := nofun
  server := nofun
  accepting _ := rfl
  main := by
    rintro (hmain | hmain) <;> cases hmain
  joined := ⟨nofun, nofun⟩
  exited := nofun

/-- What runs next to the main thread keeps the invariant when it keeps the part of it
    that is about the server thread. -/
theorem Stopping.background (h : p.Stopping) (hp : Background p p')
    (hstop : p.globals.g_stop = true → p'.globals.g_stop = true)
    (hreason : p'.globals.g_stop = true → p'.g_exit_reason ≠ .unknown)
    (hserver : p'.globals.server = .exited → p'.globals.g_stop = true ∧ p'.globals.g_client_socket = false)
    (haccepting : p'.globals.server = .accepting → p'.globals.g_client_socket = false)
    (hexited : p.globals.server = .exited → p'.globals.server = .exited) : p'.Stopping where
  reason := hreason
  server := hserver
  accepting := haccepting
  main := by
    rw [hp.main]
    exact fun hmain => hstop (h.main hmain)
  joined := by
    rw [hp.main, hp.joined]
    exact h.joined
  exited := by
    rw [hp.main]
    exact fun hmain => hexited (h.exited hmain)

theorem Stopping.sketch (h : p.Stopping) (call : SketchCall) : (p.sketch call).Stopping := by
  have hp := sketch_background p call
  cases call with
  | serialWrite data =>
    have hsends := serialWrite_sends p.globals data
    have hglobals : (p.sketch (.serialWrite data)).globals = (serialWrite p.globals data).2 :=
      sending_globals _ _
    refine h.background hp ?_ (sending_reason h.reason _) ?_ ?_ ?_
    · rw [hglobals]
      exact hsends.stop
    · rw [hglobals, hsends.server, hsends.socket]
      exact fun hexited => ⟨hsends.stop (h.server hexited).1, (h.server hexited).2⟩
    · rw [hglobals, hsends.server, hsends.socket]
      exact h.accepting
    · rw [hglobals, hsends.server]
      exact id
  | serialRead =>
    have hsame : (p.sketch .serialRead).globals.g_stop = p.globals.g_stop ∧
        (p.sketch .serialRead).globals.server = p.globals.server ∧
        (p.sketch .serialRead).globals.g_client_socket = p.globals.g_client_socket := by
      simp only [Process.sketch, serialRead]
      split <;> exact ⟨rfl, rfl, rfl⟩
    obtain ⟨hstop, hserver, hsocket⟩ := hsame
    refine h.background hp ?_ ?_ ?_ ?_ ?_
    · rw [hstop]
      exact id
    · rw [hstop]
      exact h.reason
    · rw [hstop, hserver, hsocket]
      exact h.server
    · rw [hserver, hsocket]
      exact h.accepting
    · rw [hserver]
      exact id
  | serialAvailable => exact h.background hp id h.reason h.server h.accepting id
  | serialPeek => exact h.background hp id h.reason h.server h.accepting id
  | setLifecycleHook => exact h.background hp id h.reason h.server h.accepting id
  | clearLifecycleHook => exact h.background hp id h.reason h.server h.accepting id

theorem Stopping.serverStep (h : p.Stopping) {e : Event} (he : e.OfServer)
    (hstep : p.serverStep e = some p') : p'.Stopping := by
  have hp := serverStep_background hstep
  obtain ⟨r, hr, hp'⟩ := Option.map_eq_some_iff.mp hstep
  have hglobals : p'.globals = r := Option.some.inj ((serverStep_globals hstep).symm.trans hr)
  have hstop := (step_advances hr).stop
  -- A step that asks for a stop, or finds none asked for, has its reason.
  have hreason : p'.globals.g_stop = true → p'.g_exit_reason ≠ .unknown := by
    intro hp'stop
    have hkeep : r.g_stop = p.globals.g_stop → p'.g_exit_reason = p.g_exit_reason →
        p'.g_exit_reason ≠ .unknown := by
      intro hsame heq
      rw [heq]
      exact h.reason (hsame ▸ hglobals ▸ hp'stop)
    cases Runtime.step_cases hr with
    | flush =>
      obtain rfl := hp'
      exact sending_reason h.reason _ hp'stop
    | connectTimeout =>
      obtain rfl := hp'
      exact setExitReason_ne _ nofun
    | close =>
      obtain rfl := hp'
      exact setExitReason_ne _ nofun
    | acceptFails => exact hkeep rfl (hp' ▸ rfl)
    | accept => exact hkeep rfl (hp' ▸ rfl)
    | setConnected => exact hkeep rfl (hp' ▸ rfl)
    | leaveAccept => exact hkeep rfl (hp' ▸ rfl)
    | receive => exact hkeep rfl (hp' ▸ rfl)
    | serialWrite => exact he.elim
    | disconnect => exact he.elim
    | runtimeStop => exact he.elim
  refine h.background hp ?_ hreason ?_ ?_ ?_
  · rw [hglobals]
    exact hstop
  · rw [hglobals]
    intro hexited
    obtain ⟨hrstop, hsocket, -⟩ := step_exits he hr h.accepting hexited
    exact ⟨hrstop, hsocket⟩
  · rw [hglobals]
    exact step_accepting he hr h.accepting
  · intro hexited
    rw [step_eq_none_of_exited hexited he] at hr
    cases hr

theorem Stopping.disconnect (h : p.Stopping) {r : Runtime} (hr : p.globals.step .disconnect = some r)
    {reason : ExitReason} (hreason : reason ≠ .unknown) :
    ({ p with globals := r }.setExitReason reason).Stopping := by
  cases Runtime.step_cases hr with
  | disconnect hserving =>
    refine h.background ⟨rfl, rfl, rfl, rfl, rfl, id⟩ (fun _ => rfl) (fun _ => setExitReason_ne _ hreason)
      ?_ h.accepting id
    exact fun hexited => by cases hserving.symm.trans hexited

theorem Stopping.step (h : p.Stopping) (hstep : p.step e = some p') : p'.Stopping := by
  have hjoined : p.main ≠ .returned 0 → p.joined = false := by
    rw [← Bool.not_eq_true, h.joined]
    exact id
  cases step_cases hstep with
  | server e he hserver => exact h.serverStep he hserver
  | disconnect recv_error hr =>
    refine h.disconnect hr ?_
    split <;> simp
  | sketch call => exact h.sketch call
  | moves hmain =>
    obtain ⟨hfrom, hto, hstop⟩ := hmain.stopping
    exact ⟨h.reason, h.server, h.accepting, hstop, by simp [hjoined hfrom, hto], fun hreturned => absurd hreturned hto⟩
  | announces hmain =>
    obtain ⟨hfrom, hto, hstop⟩ := hmain.stopping
    exact ⟨h.reason, h.server, h.accepting, fun hends => absurd hends hstop,
      by simp [announce, hjoined hfrom, hto], fun hreturned => absurd hreturned hto⟩
  | stops hmain =>
    have hstop : p.globals.g_stop = true := h.main (.inl hmain)
    exact ⟨fun _ => h.reason hstop, fun hexited => ⟨rfl, (h.server hexited).2⟩, h.accepting, fun _ => rfl,
      by simp [hjoined, hmain], by simp⟩
  | joins _ hexited => exact ⟨h.reason, h.server, h.accepting, by simp, iff_of_true rfl rfl, fun _ => hexited⟩
  | started hmain => exact ⟨h.reason, h.server, h.accepting, by simp, by simp [hjoined, hmain], by simp⟩
  | startFailed hmain =>
    exact ⟨fun _ => setExitReason_ne _ (by simp), h.server, h.accepting, by simp,
      by simp [setExitReason, hjoined, hmain], by simp⟩
  | deadline hmain =>
    exact ⟨fun _ => setExitReason_ne _ (by simp), fun hexited => ⟨rfl, (h.server hexited).2⟩, h.accepting,
      by simp, by simp [setExitReason, hjoined, hmain], by simp⟩
  | sketchReturns hmain =>
    generalize hbefore : p.main = before at hmain
    cases hmain with
    | setup => exact ⟨h.reason, h.server, h.accepting, by simp, by simp [hjoined, hbefore], by simp⟩
    | loop => exact ⟨h.reason, h.server, h.accepting, by simp, by simp [hjoined, hbefore], by simp⟩

theorem visited_stopping {g_output_limit : Nat} {sends : Nat → SendResult} {lifecycle_hook : Bool}
    {events : List ProcessEvent} :
    ∀ p ∈ machine.visited (.initial g_output_limit sends lifecycle_hook) events, p.Stopping :=
  Lib.EventMachine.visited_invariant (fun _ _ _ h => h.step) (stopping_initial _ _ _)

/-- No step takes a stop back or replaces a reason. -/
theorem kept_step (hreason : p.g_exit_reason ≠ .unknown) (hstep : p.step e = some p') :
    (p.globals.g_stop = true → p'.globals.g_stop = true) ∧ p'.g_exit_reason = p.g_exit_reason := by
  have hsending : ∀ r, (p.sending r).g_exit_reason = p.g_exit_reason := by
    intro r
    unfold sending
    split
    · exact setExitReason_eq hreason _
    · rfl
  cases step_cases hstep with
  | server e _ hserver =>
    refine ⟨(step_advances (serverStep_globals hserver)).stop, ?_⟩
    obtain ⟨r, -, rfl⟩ := Option.map_eq_some_iff.mp hserver
    cases e with
    | flush => exact hsending r
    | connectTimeout => exact setExitReason_eq hreason _
    | close => exact setExitReason_eq hreason _
    | _ => rfl
  | disconnect _ hr => exact ⟨(step_advances hr).stop, setExitReason_eq hreason _⟩
  | sketch call =>
    cases call with
    | serialWrite data =>
      exact ⟨(sending_globals p _).symm ▸ (serialWrite_advances p.globals data).stop, hsending _⟩
    | serialRead =>
      refine ⟨fun hstop => ?_, rfl⟩
      simp only [Process.sketch, serialRead]
      split <;> exact hstop
    | serialAvailable => exact ⟨id, rfl⟩
    | serialPeek => exact ⟨id, rfl⟩
    | setLifecycleHook => exact ⟨id, rfl⟩
    | clearLifecycleHook => exact ⟨id, rfl⟩
  | started => exact ⟨id, rfl⟩
  | startFailed => exact ⟨id, setExitReason_eq hreason _⟩
  | moves => exact ⟨id, rfl⟩
  | announces => exact ⟨id, rfl⟩
  | stops => exact ⟨fun _ => rfl, rfl⟩
  | joins => exact ⟨id, rfl⟩
  | deadline => exact ⟨fun _ => rfl, setExitReason_eq hreason _⟩
  | sketchReturns => exact ⟨id, rfl⟩

theorem sketch_distance (p : Process) (call : SketchCall) :
    (p.sketch call).globals.distance = p.globals.distance := by
  cases call with
  | serialWrite data =>
    have hsends := serialWrite_sends p.globals data
    have hglobals : (p.sketch (.serialWrite data)).globals = (serialWrite p.globals data).2 :=
      sending_globals p _
    rw [hglobals, Runtime.distance, hsends.server, hsends.looping]
    rfl
  | serialRead =>
    simp only [Process.sketch, serialRead]
    split <;> rfl
  | serialAvailable => rfl
  | serialPeek => rfl
  | setLifecycleHook => rfl
  | clearLifecycleHook => rfl

/-- With a stop requested, a thread's own step brings the process nearer to its end, and
    the sketch cannot take it back. -/
theorem distance_process (hstop : p.globals.g_stop = true) (hstep : p.step e = some p') :
    p'.distance + (if e.Own then 1 else 0) ≤ p.distance := by
  -- Most steps of the main thread leave the server thread where it is.
  have hmain : ∀ q : Process, q.globals.distance = p.globals.distance → q.main.distance < p.main.distance →
      q.distance + 1 ≤ p.distance := by
    intro q hserver hlt
    unfold distance
    rw [hserver]
    omega
  cases step_cases hstep with
  | server e he hserver =>
    rw [if_pos (show (ProcessEvent.server e).Own from trivial)]
    have hnearer := distance_step hstop he (serverStep_globals hserver)
    unfold distance
    rw [(serverStep_background hserver).main]
    omega
  | disconnect recv_error hr =>
    rw [if_pos (show (ProcessEvent.disconnect recv_error).Own from trivial)]
    have hnearer := distance_disconnect hr
    unfold distance
    simp only [setExitReason]
    omega
  | sketch call =>
    rw [if_neg (show ¬(ProcessEvent.sketch call).Own from id)]
    unfold distance
    rw [(sketch_background p call).main, sketch_distance]
    exact le_refl _
  | moves hmoves => exact hmain _ rfl (hmoves.distance hstop)
  | announces hannounces => exact hmain _ rfl hannounces.distance
  | sketchReturns hreturns => exact hmain _ rfl hreturns.distance
  | stops heq => exact hmain _ rfl (by simp [heq, MainThread.distance])
  | joins heq => exact hmain _ rfl (by simp [heq, MainThread.distance])
  | started heq => exact hmain _ rfl (by simp [heq, MainThread.distance])
  | startFailed heq => exact hmain _ rfl (by simp [heq, MainThread.distance])
  | deadline heq => exact hmain _ rfl (by simp [heq, MainThread.distance])

/-- With a stop requested, some thread can always take its next step until `main` has returned. -/
theorem exists_own (hstop : p.globals.g_stop = true) (halive : p.main.alive = true) :
    ∃ e : ProcessEvent, e.Own ∧ (p.step e).isSome := by
  cases hmain : p.main with
  | joining =>
    have hrunning : p.main ≠ .starting ∧ p.main.alive = true := by simp [hmain, MainThread.alive]
    cases hserver : p.globals.server with
    | accepting =>
      refine ⟨.server .leaveAccept, trivial, ?_⟩
      simp [Process.step, hrunning, Event.OfServer, Process.serverStep, Runtime.step, hserver, hstop]
    | accepted =>
      refine ⟨.server .setConnected, trivial, ?_⟩
      simp [Process.step, hrunning, Event.OfServer, Process.serverStep, Runtime.step, hserver]
    | flushing =>
      refine ⟨.server .flush, trivial, ?_⟩
      simp [Process.step, hrunning, Event.OfServer, Process.serverStep, Runtime.step, hserver]
    | serving =>
      refine ⟨.server .close, trivial, ?_⟩
      simp [Process.step, hrunning, Event.OfServer, Process.serverStep, Runtime.step, hserver, hstop]
    | exited => exact ⟨.main, trivial, by simp [Process.step, Process.mainStep, hmain, hserver]⟩
  | starting => exact ⟨.startServer true, trivial, by simp [Process.step, hmain]⟩
  | inSetup => exact ⟨.sketchReturns, trivial, by simp [Process.step, hmain]⟩
  | inLoop => exact ⟨.sketchReturns, trivial, by simp [Process.step, hmain]⟩
  | returned code => simp [hmain, MainThread.alive] at halive
  | waiting =>
    refine ⟨.main, trivial, ?_⟩
    simp only [Process.step, Process.mainStep, hmain]
    split <;> rfl
  | waited =>
    refine ⟨.main, trivial, ?_⟩
    simp only [Process.step, Process.mainStep, hmain]
    split <;> rfl
  | testing =>
    refine ⟨.main, trivial, ?_⟩
    simp only [Process.step, Process.mainStep, hmain]
    split <;> rfl
  | polling => exact ⟨.main, trivial, by simp [Process.step, Process.mainStep, hmain]⟩
  | preSetup => exact ⟨.main, trivial, by simp [Process.step, Process.mainStep, hmain]⟩
  | postSetup => exact ⟨.main, trivial, by simp [Process.step, Process.mainStep, hmain]⟩
  | preLoop => exact ⟨.main, trivial, by simp [Process.step, Process.mainStep, hmain]⟩
  | postLoop => exact ⟨.main, trivial, by simp [Process.step, Process.mainStep, hmain]⟩
  | stopping => exact ⟨.main, trivial, by simp [Process.step, Process.mainStep, hmain]⟩

/-- Whatever happens behind a request to stop, it stays requested with the reason it had,
    and the threads take as many steps as they come nearer to their ends, at most. -/
theorem run_stopping {more : List ProcessEvent} (hstop : p.globals.g_stop = true)
    (hreason : p.g_exit_reason ≠ .unknown) (hrun : machine.run p more = some p') :
    p'.globals.g_stop = true ∧ p'.g_exit_reason = p.g_exit_reason ∧
      p'.distance + more.countP (fun e => e.Own) ≤ p.distance := by
  induction more generalizing p with
  | nil =>
    cases hrun
    exact ⟨hstop, rfl, le_refl _⟩
  | cons e more ih =>
    obtain ⟨q, hq, hrest⟩ := Lib.EventMachine.run_cons_eq_some.mp hrun
    obtain ⟨hkeeps, hsame⟩ := kept_step hreason hq
    have hnearer := distance_process hstop hq
    obtain ⟨hp'stop, hp'reason, hcount⟩ := ih (hkeeps hstop) (hsame ▸ hreason) hrest
    refine ⟨hp'stop, hp'reason.trans hsame, ?_⟩
    rw [List.countP_cons]
    simp only [decide_eq_true_eq]
    omega

theorem distance_le (p : Process) : p.distance ≤ 15 := by
  have hmain : p.main.distance ≤ 10 := by
    cases p.main <;> simp [MainThread.distance]
  have hserver : p.globals.distance ≤ 5 := by
    cases hserver : p.globals.server <;> cases hlooping : p.globals.looping <;>
      simp [Runtime.distance, hserver, hlooping]
  unfold distance
  omega

end Process

/-- However the threads and the sketch interleave, a requested stop has its reason, which
    is the first one given and stays. The server thread ends only with a stop requested and
    its client's socket closed, and `main` returns 0 with that thread joined or 1 before
    anything was announced. And a requested stop gets there: the threads take at most 15 more
    steps, and until `main` has returned one of them always can. -/
theorem process_shutdown {g_output_limit : Nat} {sends : Nat → SendResult} {lifecycle_hook : Bool}
    {events : List ProcessEvent} :
    ∀ p ∈ Process.machine.visited (.initial g_output_limit sends lifecycle_hook) events,
      (p.globals.server = .exited → p.globals.g_stop = true ∧ p.globals.g_client_socket = false) ∧
        (p.main = .returned 0 → p.joined = true ∧ p.globals.server = .exited) ∧
        (∀ code, p.main = .returned (code + 1) → p.joined = false ∧ p.announced = []) ∧
        (p.globals.g_stop = true → p.g_exit_reason ≠ .unknown ∧
          ∀ more q, Process.machine.run p more = some q →
            q.globals.g_stop = true ∧ q.g_exit_reason = p.g_exit_reason ∧
              more.countP (fun e => e.Own) ≤ 15 ∧
              (q.main.alive = true → ∃ e : ProcessEvent, e.Own ∧ (Process.machine.step q e).isSome)) := by
  intro p hp
  have h := Process.visited_stopping p hp
  have hlifecycle := Process.visited_lifecycle p hp
  refine ⟨h.server, fun hreturned => ⟨h.joined.mpr hreturned, h.exited hreturned⟩, ?_, ?_⟩
  · intro code hcode
    refine ⟨?_, ?_⟩
    · by_contra hjoined
      have hzero := h.joined.mp (by simpa using hjoined)
      simp [hcode] at hzero
    · have hannounced := hlifecycle.announced
      rw [hcode] at hannounced
      exact hannounced.1
  · intro hstop
    refine ⟨h.reason hstop, fun more q hrun => ?_⟩
    obtain ⟨hqstop, hqreason, hcount⟩ := Process.run_stopping hstop (h.reason hstop) hrun
    refine ⟨hqstop, hqreason, ?_, Process.exists_own hqstop⟩
    have hbound := p.distance_le
    omega

/-- The client leaves while `setup` runs, and the process ends six steps later. -/
theorem process_shutdown_disconnect :
    ∃ p ∈ Process.machine.visited (.initial 16 (fun _ => .accepted 16) false)
        [.startServer true, .main, .server .accept, .server .setConnected, .server .flush, .main, .main,
          .main, .main, .disconnect false],
      ∃ q, Process.machine.run p
          [.sketchReturns, .main, .main, .server .close, .main, .main] = some q ∧
        p.globals.g_stop = true ∧ q.g_exit_reason = p.g_exit_reason ∧
        q.g_exit_reason = .tcp_disconnected ∧ q.main = .returned 0 ∧ q.joined = true := by
  refine ⟨?process, ?mem, ?last, ?run, ?stop,
    (((process_shutdown _ ?mem).2.2.2 ?stop).2 _ _ ?run).2.1, ?reason, ?main, ?joined⟩
  case mem =>
    refine Lib.EventMachine.mem_visited_iff.mpr ⟨_, List.prefix_refl _, ?_⟩
    rfl
  case run => rfl
  case stop => rfl
  case reason => rfl
  case main => rfl
  case joined => rfl

end HostArduino.runtime
