import HostArduino.Runtime.Server

namespace HostArduino.runtime

section SendLoop

variable (sends : Nat → SendResult) (calls : Nat) (data : List UInt8) (retries : Nat)

/-- Whatever the socket answers, what has been handed over is the front of the data, and
    all of it unless a send failed. -/
theorem sendLoop_sent :
    (sendLoop sends calls data retries).sent <+: data ∧
      ((sendLoop sends calls data retries).sent = data ∨
        (sendLoop sends calls data retries).failed = true) := by
  fun_induction sendLoop sends calls data retries with
  | case1 calls data retries hempty =>
    exact ⟨List.nil_prefix, .inl (List.eq_nil_of_length_eq_zero hempty).symm⟩
  | case2 calls data retries hdata n hsend sent hpos rest ih =>
    obtain ⟨hfront, hend⟩ := ih
    have hparts : data.take sent ++ data.drop sent = data := List.take_append_drop sent data
    constructor
    · change data.take sent ++ rest.sent <+: data
      obtain ⟨left, hleft⟩ := hfront
      exact ⟨left, by rw [List.append_assoc, hleft, hparts]⟩
    · refine hend.imp_left fun hall => ?_
      change data.take sent ++ rest.sent = data
      rw [hall, hparts]
  | case3 calls data retries hdata n hsend sent hzero => exact ⟨List.nil_prefix, .inr rfl⟩
  | case4 calls data retries hdata hsend hretry ih => exact ih
  | case5 calls data retries hdata hsend hretry => exact ⟨List.nil_prefix, .inr rfl⟩
  | case6 calls data retries hdata hsend => exact ⟨List.nil_prefix, .inr rfl⟩

theorem failed_calls {calls retries length : Nat} (hlength : ¬length = 0) (hretries : retries ≤ 1000) :
    calls + 1 + (if length = 0 then 0 else retries) ≤ calls + 1001 * length := by
  rw [if_neg hlength]
  omega

/-- Between two bytes that are taken there are at most 1000 answers that the socket would
    block: progress clears their count, and one more ends the loop. -/
theorem sendLoop_calls (hretries : retries ≤ 1000) :
    (sendLoop sends calls data retries).calls + (if data.length = 0 then 0 else retries) ≤
      calls + 1001 * data.length := by
  fun_induction sendLoop sends calls data retries with
  | case1 calls data retries hempty => simp [hempty]
  | case2 calls data retries hdata n hsend sent hpos rest ih =>
    have hbound : rest.calls + (if (data.drop sent).length = 0 then 0 else 0) ≤
        calls + 1 + 1001 * (data.drop sent).length := ih (Nat.zero_le _)
    have htaken : sent ≤ data.length := Nat.le_trans (Nat.min_le_right _ _) (Nat.min_le_left _ _)
    rw [ite_self, List.length_drop] at hbound
    change rest.calls + (if data.length = 0 then 0 else retries) ≤ calls + 1001 * data.length
    rw [if_neg hdata]
    omega
  | case3 calls data retries hdata n hsend sent hzero => exact failed_calls hdata hretries
  | case4 calls data retries hdata hsend hretry ih =>
    have hbound := ih hretry
    rw [if_neg hdata] at hbound ⊢
    omega
  | case5 calls data retries hdata hsend hretry => exact failed_calls hdata hretries
  | case6 calls data retries hdata hsend => exact failed_calls hdata hretries

end SendLoop

/-- With a client, `sendToClient` hands over the front of the payload, each byte once,
    and at its return that is the whole payload or `g_stop` is set; to get there it calls
    `send` no more often than 1001 times for each byte. Without a client it does nothing. -/
theorem sendToClient_delivers (r : Runtime) (data : List UInt8) :
    ∃ sent, sent <+: data ∧ (sendToClient r data).received = r.received ++ sent ∧
      (sendToClient r data).send_calls ≤ r.send_calls + 1001 * data.length ∧
      if r.g_client_socket then sent = data ∨ (sendToClient r data).g_stop = true
      else sendToClient r data = r := by
  unfold sendToClient
  split
  · rename_i hskip
    refine ⟨[], List.nil_prefix, (List.append_nil _).symm, Nat.le_add_right _ _, ?_⟩
    split
    · rename_i hsocket
      simp only [hsocket, Bool.not_true, Bool.false_or, Bool.or_eq_true, beq_iff_eq] at hskip
      exact hskip.imp_left fun hempty => (List.eq_nil_of_length_eq_zero hempty).symm
    · rfl
  · rename_i hsend
    simp only [Bool.or_eq_true, Bool.not_eq_true', beq_iff_eq, not_or, Bool.not_eq_false] at hsend
    obtain ⟨hfront, hend⟩ := sendLoop_sent r.sends r.send_calls data 0
    have hcalls := sendLoop_calls r.sends r.send_calls data 0 (Nat.zero_le _)
    rw [ite_self] at hcalls
    refine ⟨_, hfront, rfl, hcalls, ?_⟩
    rw [if_pos hsend.1.1]
    refine hend.imp_right fun hfailed => ?_
    simp [hfailed]

/-- The buffer keeps the newest bytes of what was written, as far as the limit reaches. -/
structure Buffered (limit : Nat) (w : List UInt8) (r : Runtime) : Prop where
  limit_eq : r.g_output_limit = limit
  buffer : r.g_output_buffer = w.rtake limit

section Run

variable {limit : Nat} {w : List UInt8} {r r' : Runtime}

theorem buffered_initial (limit : Nat) (sends : Nat → SendResult) :
    Buffered limit [] (.initial limit sends) :=
  ⟨rfl, by simp [Runtime.initial, List.rtake]⟩

theorem Buffered.sendToClient (h : Buffered limit w r) (data : List UInt8) :
    Buffered limit w (sendToClient r data) := by
  rw [sendToClient_frame]
  exact ⟨h.limit_eq, h.buffer⟩

theorem Buffered.serialWrite (h : Buffered limit w r) (data : List UInt8) :
    Buffered limit (w ++ data) (serialWrite r data).2 := by
  unfold runtime.serialWrite
  split
  · rename_i hempty
    rw [List.eq_nil_of_length_eq_zero hempty, List.append_nil]
    exact h
  · refine Buffered.sendToClient ⟨?_, ?_⟩ data
    · rw [appendOutputLocked_frame]
      exact h.limit_eq
    · rw [appendOutputLocked_buffer (h.buffer.trans (by rw [h.limit_eq])), h.limit_eq]

theorem Buffered.flushOutput (h : Buffered limit w r) : Buffered limit w (flushOutput r) := by
  unfold runtime.flushOutput
  split
  · exact h
  · exact h.sendToClient _

/-- Nothing but `serialWrite` touches the buffer: the server thread sends it, and keeps it. -/
theorem Buffered.step (h : Buffered limit w r) {event : Event} (hstep : r.step event = some r') :
    Buffered limit (w ++ event.written) r' := by
  have hkept {r'' : Runtime} (h'' : Buffered limit w r'') : Buffered limit (w ++ []) r'' := by
    rw [List.append_nil]
    exact h''
  cases event with
  | serialWrite data =>
    obtain rfl := Option.some.inj hstep
    exact h.serialWrite data
  | flush =>
    obtain ⟨-, rfl⟩ := Option.ite_some_none_eq_some.mp hstep
    exact hkept ⟨h.flushOutput.limit_eq, h.flushOutput.buffer⟩
  | runtimeStop =>
    obtain rfl := Option.some.inj hstep
    exact hkept ⟨h.limit_eq, h.buffer⟩
  | acceptFails | accept | setConnected | connectTimeout | leaveAccept | receive _ | disconnect | close =>
    obtain ⟨-, rfl⟩ := Option.ite_some_none_eq_some.mp hstep
    exact hkept ⟨h.limit_eq, h.buffer⟩

theorem Buffered.run {sends : Nat → SendResult} {events : List Event}
    (hrun : machine.run (.initial limit sends) events = some r) : Buffered limit (written events) r := by
  refine Lib.EventMachine.run_history (P := fun events r => Buffered limit (written events) r)
    (buffered_initial limit sends) ?_ hrun
  intro events r event r' h hstep
  rw [written_concat]
  exact h.step hstep

end Run

/-- After any schedule of writes and of the server thread's steps the output buffer holds
    the last bytes of all that was written, as many as there are up to the limit. -/
theorem output_buffer_newest {limit : Nat} {sends : Nat → SendResult} {events : List Event} {r : Runtime}
    (hrun : machine.run (.initial limit sends) events = some r) :
    r.g_output_buffer <:+ written events ∧
      r.g_output_buffer.length = min (written events).length limit := by
  have hbuffer := (Buffered.run hrun).buffer
  rw [hbuffer, List.rtake]
  refine ⟨List.drop_suffix _ _, ?_⟩
  rw [List.length_drop]
  omega

theorem output_buffer_newest_evicted :
    ∃ r, machine.run (.initial 3 fun _ => .failed) [.serialWrite [1, 2], .serialWrite [3, 4]] = some r ∧
      r.g_output_buffer <:+ [1, 2, 3, 4] ∧ r.g_output_buffer.length = 3 := by
  have hrun : machine.run (.initial 3 fun _ => .failed) [.serialWrite [1, 2], .serialWrite [3, 4]] = some _ := rfl
  exact ⟨_, hrun, output_buffer_newest hrun⟩

end HostArduino.runtime
