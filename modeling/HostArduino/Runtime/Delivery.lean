import HostArduino.Runtime.Server

namespace HostArduino.runtime

/-- What the client has got so far, by the server thread's position. `early` is
    what was written while the socket was installed and not yet flushed: it has
    been sent at once, and the flush sends it again with the rest of the buffer. -/
def Received (w early : List UInt8) (r : Runtime) : Prop :=
  match r.server with
  | .accepting => r.g_client_socket = false ∧ r.received = [] ∧ early = []
  | .accepted | .flushing => r.g_client_socket = true ∧ r.received = early
  | .serving => r.g_client_socket = true ∧ r.received = early ++ w
  | .exited => False

/-- The state of a run in which the connection stays up: `w` is all that was
    written, still whole in the buffer as long as it fits the limit. -/
structure Running (limit : Nat) (sends : Nat → SendResult) (w early : List UInt8) (r : Runtime) :
    Prop where
  stop : r.g_stop = false
  limit_eq : r.g_output_limit = limit
  sends_eq : r.sends = sends
  buffer : r.g_output_buffer = w.rtake limit
  received : Received w early r

theorem running_initial (limit : Nat) (sends : Nat → SendResult) :
    Running limit sends [] [] (Runtime.initial limit sends) :=
  ⟨rfl, rfl, rfl, by simp [Runtime.initial, List.rtake], ⟨rfl, rfl, rfl⟩⟩

variable {limit : Nat} {sends : Nat → SendResult} {w early : List UInt8} {r : Runtime}

theorem Running.tested (h : Running limit sends w early r) : Running limit sends w early r.tested :=
  ⟨h.stop, h.limit_eq, h.sends_eq, h.buffer, h.received⟩

/-- What a write adds to the early bytes: all of it, inside the window. -/
def earlyBytes (r : Runtime) (data : List UInt8) : List UInt8 :=
  if r.server = .accepted ∨ r.server = .flushing then data else []

theorem earlyBytes_nil (r : Runtime) : earlyBytes r [] = [] := by
  unfold earlyBytes
  split <;> rfl

/-- A write appends to the buffer, and to what the client got once there is one. -/
theorem Running.serialWrite (h : Running limit sends w early r)
    (hsends : ∀ i, ∃ n, 0 < n ∧ sends i = .accepted n) (data : List UInt8) :
    Running limit sends (w ++ data) (early ++ earlyBytes r data) (serialWrite r data).2 := by
  obtain ⟨hstop, hlimit, hsends_eq, hbuffer, hreceived⟩ := h
  unfold runtime.serialWrite
  by_cases hempty : data.length = 0
  · obtain rfl := List.eq_nil_of_length_eq_zero hempty
    simp only [List.length_nil, if_true, List.append_nil]
    rw [earlyBytes_nil, List.append_nil]
    exact ⟨hstop, hlimit, hsends_eq, hbuffer, hreceived⟩
  · simp only [if_neg hempty]
    have happend := appendOutputLocked_buffer (hbuffer.trans (by rw [hlimit])) data
    have hsend := sendToClient_received (r := appendOutputLocked r data)
      (by rw [appendOutputLocked_frame]; simpa [hsends_eq] using hsends)
      (by rw [appendOutputLocked_frame]; exact hstop) data
    rw [sendToClient_frame]
    rw [appendOutputLocked_frame] at happend hsend ⊢
    refine ⟨hsend.2, hlimit, hsends_eq, by simpa [hlimit] using happend, ?_⟩
    unfold Received earlyBytes at *
    cases hserver : r.server <;> simp_all

/-- The flush sends the whole buffer, the early bytes included, after them. -/
theorem Running.flush (h : Running limit sends w early r)
    (hsends : ∀ i, ∃ n, 0 < n ∧ sends i = .accepted n) (hfits : w.length ≤ limit)
    (hserver : r.server = .flushing) :
    Running limit sends w early { flushOutput r with server := .serving } := by
  obtain ⟨hstop, hlimit, hsends_eq, hbuffer, hreceived⟩ := h
  have hwhole : r.g_output_buffer = w := by
    rw [hbuffer, List.rtake, Nat.sub_eq_zero_of_le hfits, List.drop_zero]
  obtain ⟨hsocket, hearly⟩ : r.g_client_socket = true ∧ r.received = early := by
    simpa [Received, hserver] using hreceived
  unfold flushOutput
  split
  · rename_i hempty
    refine ⟨hstop, hlimit, hsends_eq, hbuffer, hsocket, ?_⟩
    simp [hearly, ← hwhole, hempty]
  · have hsend := sendToClient_received (r := r) (by simpa [hsends_eq] using hsends) hstop r.g_output_buffer
    rw [sendToClient_frame]
    refine ⟨hsend.2, hlimit, hsends_eq, hbuffer, hsocket, ?_⟩
    change (sendToClient r r.g_output_buffer).received = early ++ w
    rw [hsend.1, if_pos hsocket, hearly, hwhole]

/-- One event of a connection that stays up. -/
theorem Running.step (h : Running limit sends w early r)
    (hsends : ∀ i, ∃ n, 0 < n ∧ sends i = .accepted n) (hfits : w.length ≤ limit)
    {event : Event} (hkeeps : event.KeepsConnection) {r' : Runtime} (hstep : r.step event = some r') :
    Running limit sends (w ++ event.written) (early ++ earlyBytes r event.written) r' := by
  -- An event that writes nothing leaves what was written and what was early as they are.
  have hquiet : ∀ {r' : Runtime}, Running limit sends w early r' →
      Running limit sends (w ++ []) (early ++ earlyBytes r []) r' := by
    intro r' hrunning
    rwa [List.append_nil, earlyBytes_nil, List.append_nil]
  cases Runtime.step_cases hstep with
  | serialWrite data => exact h.serialWrite hsends data
  | flush hserver => exact hquiet (h.flush hsends hfits hserver).tested
  | acceptFails hserver =>
    obtain ⟨-, hreceived⟩ : r.g_client_socket = false ∧ r.received = [] ∧ early = [] := by
      simpa [Received, hserver] using h.received
    refine hquiet (Running.tested { h with received := ?_ })
    simpa [Received, hserver] using hreceived
  | accept hserver =>
    obtain ⟨-, hreceived, hearly⟩ : r.g_client_socket = false ∧ r.received = [] ∧ early = [] := by
      simpa [Received, hserver] using h.received
    exact hquiet { h with received := ⟨rfl, hreceived.trans hearly.symm⟩ }
  | setConnected hserver =>
    have hreceived : r.g_client_socket = true ∧ r.received = early := by
      simpa [Received, hserver] using h.received
    exact hquiet { h with received := hreceived }
  | receive data hserver =>
    have hreceived : r.g_client_socket = true ∧ r.received = early ++ w := by
      simpa [Received, hserver] using h.received
    refine hquiet (Running.tested { h with received := ?_ })
    simpa [Received, hserver] using hreceived
  | connectTimeout => exact hkeeps.elim
  | leaveAccept => exact hkeeps.elim
  | disconnect => exact hkeeps.elim
  | close => exact hkeeps.elim
  | runtimeStop => exact hkeeps.elim

/-- A run's early bytes are none exactly when nothing was written in the window. -/
theorem run_running (hsends : ∀ i, ∃ n, 0 < n ∧ sends i = .accepted n) {events : List Event}
    (hkeeps : ∀ event ∈ events, event.KeepsConnection) (hfits : (written events).length ≤ limit)
    (hrun : machine.run (Runtime.initial limit sends) events = some r) :
    ∃ early, Running limit sends (written events) early r ∧
      (early = [] ↔ machine.Meets WindowQuiet (Runtime.initial limit sends) events) := by
  suffices h : (∀ event ∈ events, event.KeepsConnection) → (written events).length ≤ limit →
      ∃ early, Running limit sends (written events) early r ∧
        (early = [] ↔ machine.Meets WindowQuiet (Runtime.initial limit sends) events) ∧
          machine.run (Runtime.initial limit sends) events = some r by
    obtain ⟨early, hrunning, hearly, -⟩ := h hkeeps hfits
    exact ⟨early, hrunning, hearly⟩
  refine machine.run_history (P := fun events r => (∀ event ∈ events, event.KeepsConnection) →
    (written events).length ≤ limit → ∃ early, Running limit sends (written events) early r ∧
      (early = [] ↔ machine.Meets WindowQuiet (Runtime.initial limit sends) events) ∧
        machine.run (Runtime.initial limit sends) events = some r) ?_ ?_ hrun
  · exact fun _ _ => ⟨[], running_initial limit sends, by simp [Lib.EventMachine.Meets], rfl⟩
  · intro events r event r' ih hstep hkeeps hfits
    rw [written_concat, List.length_append] at hfits
    obtain ⟨early, hrunning, hearly, hbefore⟩ :=
      ih (fun e he => hkeeps e (by simp [he])) (by omega)
    refine ⟨early ++ earlyBytes r event.written, ?_, ?_, ?_⟩
    · rw [written_concat]
      exact hrunning.step hsends (by omega) (hkeeps event (by simp)) hstep
    · rw [Lib.EventMachine.meets_concat, List.append_eq_nil_iff, hearly]
      simp [hbefore, WindowQuiet, earlyBytes]
    · exact Lib.EventMachine.run_concat_eq_some.mpr ⟨r, hbefore, hstep⟩

/-- Once the server has flushed, the client has received exactly the bytes written,
    each once and in order, if and only if nothing was written between the accept
    and the flush: a byte written there is sent at once and then flushed again. -/
theorem received_eq_written_iff (hsends : ∀ i, ∃ n, 0 < n ∧ sends i = .accepted n)
    {events : List Event} (hkeeps : ∀ event ∈ events, event.KeepsConnection)
    (hfits : (written events).length ≤ limit)
    (hrun : machine.run (Runtime.initial limit sends) events = some r) (hflushed : r.server = .serving) :
    r.received = written events ↔
      machine.Meets WindowQuiet (Runtime.initial limit sends) events := by
  obtain ⟨early, hrunning, hearly⟩ := run_running hsends hkeeps hfits hrun
  obtain ⟨-, hreceived⟩ : r.g_client_socket = true ∧ r.received = early ++ written events := by
    simpa [Received, hflushed] using hrunning.received
  rw [← hearly, hreceived]
  simp

/-- A byte written before the client is accepted waits for the flush and arrives once. -/
theorem received_eq_written_before_accept :
    ∃ r, machine.run (Runtime.initial 65536 fun _ => .accepted 1024)
        [.serialWrite [65], .accept, .setConnected, .flush] = some r ∧ r.received = [65] := by
  have hquiet : machine.Meets WindowQuiet (Runtime.initial 65536 fun _ => .accepted 1024)
      [.serialWrite [65], .accept, .setConnected, .flush] := by
    simp [Lib.EventMachine.Meets, WindowQuiet, Event.written, machine, Runtime.step,
      Runtime.initial, runtime.serialWrite, appendOutputLocked, sendToClient]
  refine ⟨_, rfl, ?_⟩
  exact (received_eq_written_iff (fun _ => ⟨1024, by decide, rfl⟩) (by decide) (by decide) rfl
    rfl).mpr hquiet

/-- A byte written between the accept and the flush reaches the client twice. -/
theorem received_twice :
    (machine.run (Runtime.initial 65536 fun _ => .accepted 1024)
        [.accept, .setConnected, .serialWrite [65], .flush]).map
      (fun r => (r.server, r.received)) = some (.serving, [65, 65]) ∧
    written [.accept, .setConnected, .serialWrite [65], .flush] = [65] := by
  decide +kernel

end HostArduino.runtime
