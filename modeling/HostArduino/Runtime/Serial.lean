import Mathlib.Data.List.DropRight

namespace HostArduino.runtime

/-- What one `send` on the client socket answers: a number of bytes taken, which
    the socket caps at the chunk it was given, a would-block, or another error. -/
inductive SendResult where
  | accepted (n : Nat)
  | wouldBlock
  | failed
  deriving DecidableEq, Repr

/-- Where the server thread stands in `serverLoop`. -/
inductive ServerLoop where
  | accepting
  | accepted
  | flushing
  | serving
  | exited
  deriving DecidableEq, Repr

/-- The runtime's globals, the server thread's position, and the client's end of
    the socket: `received` is all the bytes `send` took, `sends` what the next
    calls of `send` will answer, counted by `send_calls`. `looping` says that no stop
    was requested when the server thread last came to the test of its loop: it may be
    behind that test, in `select`, when one is requested. -/
structure Runtime where
  g_stop : Bool
  g_connected_once : Bool
  g_output_buffer : List UInt8
  g_input_buffer : List UInt8
  g_output_limit : Nat
  g_client_socket : Bool
  server : ServerLoop
  looping : Bool
  sends : Nat → SendResult
  send_calls : Nat
  received : List UInt8

def Runtime.initial (g_output_limit : Nat) (sends : Nat → SendResult) : Runtime where
  g_stop := false
  g_connected_once := false
  g_output_buffer := []
  g_input_buffer := []
  g_output_limit
  g_client_socket := false
  server := .accepting
  looping := true
  sends
  send_calls := 0
  received := []

def appendOutputLocked (r : Runtime) (data : List UInt8) : Runtime :=
  if r.g_output_limit = 0 then r
  else if data.length ≥ r.g_output_limit then
    { r with g_output_buffer := data.drop (data.length - r.g_output_limit) }
  else if r.g_output_buffer.length + data.length > r.g_output_limit then
    { r with
      g_output_buffer :=
        r.g_output_buffer.drop (r.g_output_buffer.length + data.length - r.g_output_limit) ++ data }
  else { r with g_output_buffer := r.g_output_buffer ++ data }

/-- The outcome of the loop in `sendToClient`. -/
structure SendOutcome where
  sent : List UInt8
  calls : Nat
  failed : Bool
  deriving DecidableEq

/-- The loop of `sendToClient` over the data not sent yet. A send takes at most
    a chunk of 1024 bytes, progress clears the retry count, and a would-block is
    retried until the count has reached 1000. -/
def sendLoop (sends : Nat → SendResult) (calls : Nat) (data : List UInt8) (would_block_retries : Nat) :
    SendOutcome :=
  if data.length = 0 then { sent := [], calls, failed := false }
  else
    match sends calls with
    | .accepted n =>
      let sent := min n (min data.length 1024)
      if 0 < sent then
        let rest := sendLoop sends (calls + 1) (data.drop sent) 0
        { rest with sent := data.take sent ++ rest.sent }
      else { sent := [], calls := calls + 1, failed := true }
    | .wouldBlock =>
      if would_block_retries < 1000 then sendLoop sends (calls + 1) data (would_block_retries + 1)
      else { sent := [], calls := calls + 1, failed := true }
    | .failed => { sent := [], calls := calls + 1, failed := true }
termination_by data.length * 1001 + (1000 - would_block_retries)
decreasing_by
  · simp only [List.length_drop]
    omega
  · omega

def sendToClient (r : Runtime) (data : List UInt8) : Runtime :=
  if !r.g_client_socket || data.length == 0 || r.g_stop then r
  else
    let outcome := sendLoop r.sends r.send_calls data 0
    { r with
      received := r.received ++ outcome.sent, send_calls := outcome.calls,
      g_stop := r.g_stop || outcome.failed }

/-- One atomic step: the call holds `g_serial_mutex` throughout. -/
def serialWrite (r : Runtime) (data : List UInt8) : Nat × Runtime :=
  if data.length = 0 then (0, r)
  else (data.length, sendToClient (appendOutputLocked r data) data)

theorem appendOutputLocked_frame (r : Runtime) (data : List UInt8) :
    appendOutputLocked r data =
      { r with g_output_buffer := (appendOutputLocked r data).g_output_buffer } := by
  unfold appendOutputLocked
  split
  · rfl
  · split
    · rfl
    · split <;> rfl

/-- The output buffer keeps the newest `g_output_limit` bytes of what was written. -/
theorem appendOutputLocked_buffer {r : Runtime} {written : List UInt8}
    (hbuffer : r.g_output_buffer = written.rtake r.g_output_limit) (data : List UInt8) :
    (appendOutputLocked r data).g_output_buffer = (written ++ data).rtake r.g_output_limit := by
  have hlength : r.g_output_buffer.length = min r.g_output_limit written.length := by
    rw [hbuffer]
    simp only [List.rtake, List.length_drop]
    omega
  unfold appendOutputLocked
  split
  · rename_i hzero
    simp [hbuffer, hzero]
  · rename_i hpos
    split
    · rename_i hlong
      simp only [List.rtake, List.length_append]
      rw [show written.length + data.length - r.g_output_limit =
        written.length + (data.length - r.g_output_limit) by omega, List.drop_append]
      simp
    · rename_i hshort
      split
      · rename_i hover
        rw [hlength, hbuffer]
        simp only [List.rtake, List.length_append, List.drop_drop]
        rw [List.drop_append_of_le_length (by omega)]
        congr 2
        omega
      · rename_i hfits
        rw [hbuffer]
        simp only [List.rtake, List.length_append]
        rw [List.drop_append_of_le_length (by omega)]
        congr 2
        omega

/-- When every send takes some byte, the loop hands over all the data, once and in order. -/
theorem sendLoop_all_sent {sends : Nat → SendResult}
    (hsends : ∀ i, ∃ n, 0 < n ∧ sends i = .accepted n) (calls : Nat) (data : List UInt8) (retries : Nat) :
    (sendLoop sends calls data retries).sent = data ∧
      (sendLoop sends calls data retries).failed = false := by
  fun_induction sendLoop sends calls data retries with
  | case1 calls data retries hempty => simpa using (List.eq_nil_of_length_eq_zero hempty).symm
  | case2 calls data retries hdata n hsend sent hpos rest ih =>
    refine ⟨?_, ih.2⟩
    change data.take sent ++ rest.sent = data
    rw [ih.1, List.take_append_drop]
  | case3 calls data retries hdata n hsend sent hzero =>
    obtain ⟨k, hk, hsent⟩ := hsends calls
    obtain rfl : k = n := by simpa [hsent] using hsend
    omega
  | case4 calls data retries hdata hsend hretry ih => simpa [hsend] using hsends calls
  | case5 calls data retries hdata hsend hretry => simpa [hsend] using hsends calls
  | case6 calls data retries hdata hsend => simpa [hsend] using hsends calls

/-- With a socket that takes every send and no stop requested, `sendToClient`
    delivers its data; without a socket it does nothing. -/
theorem sendToClient_received {r : Runtime} (hsends : ∀ i, ∃ n, 0 < n ∧ r.sends i = .accepted n)
    (hstop : r.g_stop = false) (data : List UInt8) :
    (sendToClient r data).received = r.received ++ (if r.g_client_socket then data else []) ∧
      (sendToClient r data).g_stop = false := by
  unfold sendToClient
  obtain ⟨hsent, hfailed⟩ := sendLoop_all_sent hsends r.send_calls data 0
  split
  · rename_i hskip
    simp only [hstop, Bool.or_false, Bool.or_eq_true, Bool.not_eq_true', beq_iff_eq] at hskip
    obtain hsocket | hempty := hskip
    · simp [hsocket, hstop]
    · simp [List.eq_nil_of_length_eq_zero hempty, hstop]
  · rename_i hsend
    simp only [Bool.or_eq_true, Bool.not_eq_true', not_or, Bool.not_eq_false] at hsend
    simp [hsent, hfailed, hstop, hsend.1.1]

theorem sendToClient_frame (r : Runtime) (data : List UInt8) :
    sendToClient r data =
      { r with
        received := (sendToClient r data).received, send_calls := (sendToClient r data).send_calls,
        g_stop := (sendToClient r data).g_stop } := by
  unfold sendToClient
  split <;> rfl

end HostArduino.runtime
