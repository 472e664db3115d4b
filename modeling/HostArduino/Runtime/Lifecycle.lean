import HostArduino.Runtime.Process

namespace HostArduino.runtime

section Globals

variable {r r' : Runtime} {e : Event}

/-- What no step of the runtime takes back, and what one adds to the input. -/
structure Advances (r r' : Runtime) (arrived : List UInt8) : Prop where
  stop : r.g_stop = true → r'.g_stop = true
  connected : r.g_connected_once = true → r'.g_connected_once = true
  input : r'.g_input_buffer = r.g_input_buffer ++ arrived

theorem sendToClient_advances (r : Runtime) (data : List UInt8) : Advances r (sendToClient r data) [] := by
  unfold sendToClient
  split
  · exact ⟨id, id, by simp⟩
  · exact ⟨fun hstop => by simp [hstop], id, by simp⟩

theorem serialWrite_advances (r : Runtime) (data : List UInt8) : Advances r (serialWrite r data).2 [] := by
  unfold serialWrite
  split
  · exact ⟨id, id, by simp⟩
  · have hsend := sendToClient_advances (appendOutputLocked r data) data
    rw [appendOutputLocked_frame] at hsend ⊢
    exact ⟨hsend.stop, hsend.connected, hsend.input⟩

theorem flushOutput_advances (r : Runtime) : Advances r (flushOutput r) [] := by
  unfold flushOutput
  split
  · exact ⟨id, id, by simp⟩
  · exact sendToClient_advances r r.g_output_buffer

/-- The bytes that an event brings in. -/
def Event.arrived : Event → List UInt8
  | .receive data => data
  | _ => []

theorem step_advances (hstep : r.step e = some r') : Advances r r' e.arrived := by
  cases Runtime.step_cases hstep with
  | serialWrite data => exact serialWrite_advances r data
  | flush =>
    have hflush := flushOutput_advances r
    exact ⟨hflush.stop, hflush.connected, hflush.input⟩
  | receive data => exact ⟨id, id, rfl⟩
  | acceptFails => exact ⟨id, id, by simp [Event.arrived, Runtime.tested]⟩
  | accept => exact ⟨id, id, by simp [Event.arrived]⟩
  | setConnected => exact ⟨id, fun _ => rfl, by simp [Event.arrived]⟩
  | connectTimeout => exact ⟨fun _ => rfl, id, by simp [Event.arrived]⟩
  | leaveAccept => exact ⟨id, id, by simp [Event.arrived]⟩
  | disconnect => exact ⟨fun _ => rfl, id, by simp [Event.arrived, Runtime.tested]⟩
  | close => exact ⟨fun _ => rfl, id, by simp [Event.arrived]⟩
  | runtimeStop => exact ⟨fun _ => rfl, id, by simp [Event.arrived]⟩

end Globals

namespace Process

variable {p p' : Process} {call : SketchCall}

/-- What the server thread and the calls of the sketch leave to the main thread. -/
structure Background (p p' : Process) : Prop where
  main : p'.main = p.main
  joined : p'.joined = p.joined
  loop_count : p'.loop_count = p.loop_count
  announced : p'.announced = p.announced
  hook_calls : p'.hook_calls = p.hook_calls
  connected : p.globals.g_connected_once = true → p'.globals.g_connected_once = true

theorem sending_background {r : Runtime} {arrived : List UInt8} (hr : Advances p.globals r arrived) :
    Background p (p.sending r) := by
  unfold sending
  split
  · exact ⟨rfl, rfl, rfl, rfl, rfl, hr.connected⟩
  · exact ⟨rfl, rfl, rfl, rfl, rfl, hr.connected⟩

theorem sketch_background (p : Process) (call : SketchCall) : Background p (p.sketch call) := by
  cases call with
  | serialWrite data => exact sending_background (serialWrite_advances p.globals data)
  | serialRead =>
    refine ⟨rfl, rfl, rfl, rfl, rfl, fun hconnected => ?_⟩
    simp only [sketch, serialRead]
    split <;> exact hconnected
  | serialAvailable => exact ⟨rfl, rfl, rfl, rfl, rfl, id⟩
  | serialPeek => exact ⟨rfl, rfl, rfl, rfl, rfl, id⟩
  | setLifecycleHook => exact ⟨rfl, rfl, rfl, rfl, rfl, id⟩
  | clearLifecycleHook => exact ⟨rfl, rfl, rfl, rfl, rfl, id⟩

theorem serverStep_background {e : Event} (hstep : p.serverStep e = some p') : Background p p' := by
  obtain ⟨r, hr, rfl⟩ := Option.map_eq_some_iff.mp hstep
  have hadvances := step_advances hr
  cases e with
  | flush => exact sending_background hadvances
  | _ => exact ⟨rfl, rfl, rfl, rfl, rfl, hadvances.connected⟩

theorem sketch_step (hstep : p.step (.sketch call) = some p') : p.sketch call = p' := by
  cases step_cases hstep with
  | sketch => rfl

end Process

/-- All that is ever announced up to the end of the `n`-th iteration, each point with the
    number of iterations completed by then. -/
def lifecycle (n : Nat) : List (LifecyclePhase × UInt64) :=
  (.kPreSetup, 0) :: (.kPostSetup, 0) ::
    (List.range n).flatMap fun i => [(.kPreLoop, .ofNat i), (.kPostLoop, .ofNat (i + 1))]

theorem lifecycle_succ (n : Nat) :
    lifecycle (n + 1) = lifecycle n ++ [(.kPreLoop, .ofNat n), (.kPostLoop, .ofNat (n + 1))] := by
  simp [lifecycle, List.range_succ, List.flatMap_append]

/-- What the main thread has announced, and counted, where it stands. -/
def MainThread.Announced (announced : List (LifecyclePhase × UInt64)) (loop_count : UInt64) :
    MainThread → Prop
  | .inSetup | .postSetup => announced = [(.kPreSetup, 0)] ∧ loop_count = 0
  | .testing | .preLoop | .stopping | .joining | .returned 0 =>
    ∃ n, announced = lifecycle n ∧ loop_count = .ofNat n
  | .inLoop | .postLoop => ∃ n, announced = lifecycle n ++ [(.kPreLoop, .ofNat n)] ∧ loop_count = .ofNat n
  | .starting | .waiting | .polling | .waited | .preSetup | .returned (_ + 1) =>
    announced = [] ∧ loop_count = 0

/-- Where the main thread is behind `waitForClient`. -/
def MainThread.Ready : MainThread → Prop
  | .starting | .waiting | .polling | .waited | .returned (_ + 1) => False
  | _ => True

theorem MainThread.Moves.announced {r : Runtime} {before after : MainThread} (h : before.Moves r after)
    {announced : List (LifecyclePhase × UInt64)} {loop_count : UInt64}
    (hannounced : before.Announced announced loop_count)
    (hready : before.Ready → r.g_connected_once = true) :
    after.Announced announced loop_count ∧ (after.Ready → r.g_connected_once = true) := by
  cases h with
  | wait => exact ⟨hannounced, False.elim⟩
  | leave => exact ⟨hannounced, False.elim⟩
  | poll => exact ⟨hannounced, False.elim⟩
  | notConnected => exact ⟨hannounced, False.elim⟩
  | connected hconnected => exact ⟨hannounced, fun _ => hconnected⟩
  | iterate => exact ⟨hannounced, hready⟩
  | stop => exact ⟨hannounced, hready⟩

namespace Process

variable {p p' : Process}

structure Lifecycle (p : Process) : Prop where
  announced : p.main.Announced p.announced p.loop_count
  ready : p.main.Ready → p.globals.g_connected_once = true
  hook_calls : p.hook_calls.Sublist p.announced

theorem lifecycle_initial (g_output_limit : Nat) (sends : Nat → SendResult) (lifecycle_hook : Bool) :
    (Process.initial g_output_limit sends lifecycle_hook).Lifecycle :=
  ⟨⟨rfl, rfl⟩, False.elim, List.Sublist.refl _⟩

theorem Lifecycle.background (h : p.Lifecycle) (hp : Background p p') : p'.Lifecycle where
  announced := by
    rw [hp.main, hp.announced, hp.loop_count]
    exact h.announced
  ready := by
    rw [hp.main]
    exact fun hready => hp.connected (h.ready hready)
  hook_calls := by
    rw [hp.hook_calls, hp.announced]
    exact h.hook_calls

theorem announce_hook_calls (h : p.hook_calls.Sublist p.announced) (phase : LifecyclePhase) :
    (p.announce phase).hook_calls.Sublist (p.announce phase).announced := by
  simp only [announce]
  split
  · exact h.append (List.Sublist.refl _)
  · exact h.trans (List.sublist_append_left _ _)

theorem Lifecycle.announce (h : p.Lifecycle) {phase : LifecyclePhase} {main : MainThread}
    (hmain : p.main.Announces phase main) : ({ p.announce phase with main } : Process).Lifecycle := by
  obtain ⟨hannounced, hready, hhook⟩ := h
  have hafter : main.Announced (p.announce phase).announced (p.announce phase).loop_count := by
    simp only [Process.announce]
    generalize p.main = before at hmain hannounced
    cases hmain with
    | preSetup =>
      obtain ⟨hnil, hzero⟩ := hannounced
      rw [hnil, hzero]
      exact ⟨rfl, rfl⟩
    | postSetup =>
      obtain ⟨hpre, hzero⟩ := hannounced
      rw [hpre, hzero]
      exact ⟨0, rfl, rfl⟩
    | preLoop =>
      obtain ⟨n, hlifecycle, hcount⟩ := hannounced
      rw [hlifecycle, hcount]
      exact ⟨n, rfl, rfl⟩
    | postLoop =>
      obtain ⟨n, hlifecycle, hcount⟩ := hannounced
      have hnext : p.loop_count + 1 = .ofNat (n + 1) := by
        rw [hcount, UInt64.ofNat_add]
        rfl
      refine ⟨n + 1, ?_, hnext⟩
      rw [if_pos rfl, hlifecycle, hnext, lifecycle_succ, List.append_assoc]
      rfl
  have hconnected : p.globals.g_connected_once = true := by
    refine hready ?_
    generalize p.main = before at hmain
    cases hmain <;> trivial
  exact ⟨hafter, fun _ => hconnected, announce_hook_calls hhook _⟩

theorem Lifecycle.step (h : p.Lifecycle) {e : ProcessEvent} (hstep : p.step e = some p') : p'.Lifecycle := by
  have ⟨hannounced, hready, hhook⟩ := h
  cases step_cases hstep with
  | server _ _ hserver => exact h.background (serverStep_background hserver)
  | disconnect _ hr => exact h.background ⟨rfl, rfl, rfl, rfl, rfl, (step_advances hr).connected⟩
  | sketch call => exact h.background (sketch_background p call)
  | moves hmain =>
    obtain ⟨hafter, hbehind⟩ := hmain.announced hannounced hready
    exact ⟨hafter, hbehind, hhook⟩
  | announces hmain => exact h.announce hmain
  | started hmain =>
    rw [hmain] at hannounced
    exact ⟨hannounced, False.elim, hhook⟩
  | startFailed hmain =>
    rw [hmain] at hannounced
    exact ⟨hannounced, False.elim, hhook⟩
  | deadline hmain =>
    rw [hmain] at hannounced
    exact ⟨hannounced, False.elim, hhook⟩
  | stops hmain =>
    rw [hmain] at hannounced hready
    exact ⟨hannounced, fun _ => hready trivial, hhook⟩
  | joins hmain =>
    rw [hmain] at hannounced hready
    exact ⟨hannounced, fun _ => hready trivial, hhook⟩
  | sketchReturns hmain =>
    generalize p.main = before at hmain hannounced hready
    cases hmain with
    | setup => exact ⟨hannounced, fun _ => hready trivial, hhook⟩
    | loop => exact ⟨hannounced, fun _ => hready trivial, hhook⟩

theorem visited_lifecycle {g_output_limit : Nat} {sends : Nat → SendResult} {lifecycle_hook : Bool}
    {events : List ProcessEvent} :
    ∀ p ∈ machine.visited (.initial g_output_limit sends lifecycle_hook) events, p.Lifecycle :=
  Lib.EventMachine.visited_invariant (fun _ _ _ h => h.step) (lifecycle_initial _ _ _)

/-- A hook that is registered and stays so is called at every point. -/
theorem hook_step (hook : p.lifecycle_hook = true ∧ p.hook_calls = p.announced) {e : ProcessEvent}
    (hkeeps : e ≠ .sketch .clearLifecycleHook) (hstep : p.step e = some p') :
    p'.lifecycle_hook = true ∧ p'.hook_calls = p'.announced := by
  have hannounce : ∀ phase, (p.announce phase).lifecycle_hook = true ∧
      (p.announce phase).hook_calls = (p.announce phase).announced := by
    intro phase
    simp [announce, hook.1, hook.2]
  have hsending : ∀ r, (p.sending r).lifecycle_hook = true ∧
      (p.sending r).hook_calls = (p.sending r).announced := by
    intro r
    unfold sending
    split <;> exact hook
  cases step_cases hstep with
  | server e _ hserver =>
    obtain ⟨r, -, rfl⟩ := Option.map_eq_some_iff.mp hserver
    cases e with
    | flush => exact hsending r
    | _ => exact hook
  | sketch call =>
    cases call with
    | serialWrite data => exact hsending _
    | clearLifecycleHook => exact absurd rfl hkeeps
    | setLifecycleHook => exact ⟨rfl, hook.2⟩
    | serialAvailable => exact hook
    | serialRead => exact hook
    | serialPeek => exact hook
  | announces => exact hannounce _
  | started => exact hook
  | startFailed => exact hook
  | disconnect => exact hook
  | moves => exact hook
  | stops => exact hook
  | joins => exact hook
  | deadline => exact hook
  | sketchReturns => exact hook

end Process

theorem MainThread.Announced.prefix_lifecycle {main : MainThread}
    {announced : List (LifecyclePhase × UInt64)} {loop_count : UInt64}
    (h : main.Announced announced loop_count) :
    (∃ n, announced <+: lifecycle n) ∧ ∀ last, announced.getLast? = some last → loop_count = last.2 := by
  have hnone : announced = [] ∧ loop_count = 0 → (∃ n, announced <+: lifecycle n) ∧
      ∀ last, announced.getLast? = some last → loop_count = last.2 := by
    rintro ⟨rfl, rfl⟩
    exact ⟨⟨0, List.nil_prefix⟩, by simp⟩
  have hpre : announced = [(.kPreSetup, 0)] ∧ loop_count = 0 → (∃ n, announced <+: lifecycle n) ∧
      ∀ last, announced.getLast? = some last → loop_count = last.2 := by
    rintro ⟨rfl, rfl⟩
    exact ⟨⟨0, List.prefix_append [_] [_]⟩, by simp⟩
  have hwhole : (∃ n, announced = lifecycle n ∧ loop_count = .ofNat n) →
      (∃ n, announced <+: lifecycle n) ∧ ∀ last, announced.getLast? = some last → loop_count = last.2 := by
    rintro ⟨n, rfl, rfl⟩
    refine ⟨⟨n, List.prefix_refl _⟩, ?_⟩
    cases n with
    | zero => simp [lifecycle]
    | succ n => simp [lifecycle_succ]
  have hopen : (∃ n, announced = lifecycle n ++ [(.kPreLoop, .ofNat n)] ∧ loop_count = .ofNat n) →
      (∃ n, announced <+: lifecycle n) ∧ ∀ last, announced.getLast? = some last → loop_count = last.2 := by
    rintro ⟨n, rfl, rfl⟩
    refine ⟨⟨n + 1, ?_⟩, by simp⟩
    rw [lifecycle_succ]
    exact (List.prefix_append_right_inj _).mpr (List.prefix_append [_] [_])
  cases main with
  | returned code =>
    cases code with
    | zero => exact hwhole h
    | succ code => exact hnone h
  | starting => exact hnone h
  | waiting => exact hnone h
  | polling => exact hnone h
  | waited => exact hnone h
  | preSetup => exact hnone h
  | inSetup => exact hpre h
  | postSetup => exact hpre h
  | testing => exact hwhole h
  | preLoop => exact hwhole h
  | stopping => exact hwhole h
  | joining => exact hwhole h
  | inLoop => exact hopen h
  | postLoop => exact hopen h

/-- Whoever has announced something is behind `waitForClient`. -/
theorem MainThread.Announced.ready {main : MainThread} {announced : List (LifecyclePhase × UInt64)}
    {loop_count : UInt64} (h : main.Announced announced loop_count) (hne : announced ≠ []) : main.Ready := by
  cases main with
  | returned code =>
    cases code with
    | zero => trivial
    | succ code => exact absurd h.1 hne
  | starting => exact absurd h.1 hne
  | waiting => exact absurd h.1 hne
  | polling => exact absurd h.1 hne
  | waited => exact absurd h.1 hne
  | _ => trivial

/-- However the server thread, the main thread and the sketch interleave, the points are
    announced in one order, `kPreSetup`, `kPostSetup` and then `kPreLoop` and `kPostLoop` by
    turns, each with the number of iterations completed by then, the one it closes included;
    none is announced, and so neither `setup` nor `loop` runs, before a client has
    connected; and a hook that stays registered is called at each of them. -/
theorem process_lifecycle {g_output_limit : Nat} {sends : Nat → SendResult} {lifecycle_hook : Bool}
    {events : List ProcessEvent} :
    ∀ p ∈ Process.machine.visited (.initial g_output_limit sends lifecycle_hook) events,
      (∃ n, p.announced <+: lifecycle n) ∧
        (∀ last, p.announced.getLast? = some last → p.loop_count = last.2) ∧
        (p.announced ≠ [] ∨ p.main.Ready → p.globals.g_connected_once = true) ∧
        p.hook_calls.Sublist p.announced ∧
        (lifecycle_hook = true → .sketch .clearLifecycleHook ∉ events → p.hook_calls = p.announced) := by
  intro p hp
  have h := Process.visited_lifecycle p hp
  obtain ⟨hpre, hlast⟩ := h.announced.prefix_lifecycle
  refine ⟨hpre, hlast, ?_, h.hook_calls, fun hhook hkeeps => ?_⟩
  · rintro (hne | hready)
    · exact h.ready (h.announced.ready hne)
    · exact h.ready hready
  · refine (Lib.EventMachine.visited_of_meets
      (P := fun p : Process => p.lifecycle_hook = true ∧ p.hook_calls = p.announced)
      (G := fun _ e => e ≠ .sketch .clearLifecycleHook)
      (fun _ _ _ hook hkeep hstep => Process.hook_step hook hkeep hstep) ⟨hhook, rfl⟩ ?_ p hp).2
    exact Lib.EventMachine.meets_of_forall
      (G := fun _ (e : ProcessEvent) => e ≠ .sketch .clearLifecycleHook)
      (fun e he _ heq => hkeeps (heq ▸ he)) _

/-- A client connects while the main thread waits, and the first iteration begins. -/
theorem process_lifecycle_first :
    ∃ p ∈ Process.machine.visited (.initial 16 (fun _ => .accepted 16) true)
        [.startServer true, .main, .server .accept, .server .setConnected, .main, .main, .main, .main,
          .sketchReturns, .main, .main, .main],
      (∃ n, p.announced <+: lifecycle n) ∧ p.hook_calls = p.announced ∧
        p.announced = [(.kPreSetup, 0), (.kPostSetup, 0), (.kPreLoop, 0)] ∧ p.main = .inLoop := by
  refine ⟨?process, ?mem, (process_lifecycle _ ?mem).1,
    (process_lifecycle _ ?mem).2.2.2.2 rfl ?keeps, ?announced, ?main⟩
  case mem =>
    refine Lib.EventMachine.mem_visited_iff.mpr ⟨_, List.prefix_refl _, ?_⟩
    rfl
  case keeps => simp
  case announced => rfl
  case main => rfl

end HostArduino.runtime
