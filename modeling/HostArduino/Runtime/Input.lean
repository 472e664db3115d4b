import HostArduino.Runtime.Shutdown

namespace HostArduino.runtime

/-- The bytes that a result hands to the sketch for good. -/
@[simp] def SerialResult.bytes : SerialResult → List UInt8
  | .read c => c.toList
  | _ => []

def taken (results : List SerialResult) : List UInt8 :=
  results.flatMap SerialResult.bytes

@[simp] theorem taken_append (results more : List SerialResult) :
    taken (results ++ more) = taken results ++ taken more := by
  simp [taken]

@[simp] theorem taken_cons (result : SerialResult) (results : List SerialResult) :
    taken (result :: results) = result.bytes ++ taken results := by
  simp [taken]

@[simp] theorem taken_nil : taken [] = [] := rfl

/-- The count of the buffered bytes wraps, and so is never more than they are. -/
theorem available_le (r : Runtime) : (serialAvailable r).toInt ≤ (r.g_input_buffer.length : Int) := by
  unfold serialAvailable
  rw [Int32.toInt_ofNat']
  simp only [Int.bmod, Int32.size]
  split <;> omega

theorem sending_input (p : Process) (r : Runtime) :
    (p.sending r).results = p.results ∧ (p.sending r).arrived = p.arrived := by
  unfold Process.sending
  split <;> exact ⟨rfl, rfl⟩

theorem serverStep_input {p p' : Process} {e : Event} (hstep : p.serverStep e = some p') :
    p'.results = p.results ∧ p'.arrived = p.arrived ++ e.arrived := by
  obtain ⟨r, -, rfl⟩ := Option.map_eq_some_iff.mp hstep
  cases e with
  | receive data => exact ⟨rfl, rfl⟩
  | flush =>
    obtain ⟨hresults, harrived⟩ := sending_input p r
    exact ⟨hresults, harrived.trans (List.append_nil _).symm⟩
  | _ => exact ⟨rfl, (List.append_nil _).symm⟩

/-- What the server thread and the main thread can do to the input: append what arrives. -/
theorem input_step {p p' : Process} {e : ProcessEvent} (hsketch : ∀ call, e ≠ .sketch call)
    (hstep : p.step e = some p') :
    p'.results = p.results ∧ ∃ data, p'.globals.g_input_buffer = p.globals.g_input_buffer ++ data ∧
      p'.arrived = p.arrived ++ data := by
  have hsame : ∀ q : Process, q.results = p.results → q.globals.g_input_buffer = p.globals.g_input_buffer →
      q.arrived = p.arrived → q.results = p.results ∧
        ∃ data, q.globals.g_input_buffer = p.globals.g_input_buffer ++ data ∧ q.arrived = p.arrived ++ data :=
    fun q hresults hinput harrived => ⟨hresults, [], by simp [hinput], by simp [harrived]⟩
  cases Process.step_cases hstep with
  | server e _ hserver =>
    obtain ⟨hresults, harrived⟩ := serverStep_input hserver
    exact ⟨hresults, e.arrived, (step_advances (Process.serverStep_globals hserver)).input, harrived⟩
  | disconnect _ hr =>
    exact hsame _ rfl (by simpa [Event.arrived, Process.setExitReason] using (step_advances hr).input) rfl
  | sketch call => exact absurd rfl (hsketch call)
  | started => exact hsame _ rfl rfl rfl
  | startFailed => exact hsame _ rfl rfl rfl
  | moves => exact hsame _ rfl rfl rfl
  | announces => exact hsame _ rfl rfl rfl
  | stops => exact hsame _ rfl rfl rfl
  | joins => exact hsame _ rfl rfl rfl
  | deadline => exact hsame _ rfl rfl rfl
  | sketchReturns => exact hsame _ rfl rfl rfl

/-- A list with one more element at its end splits there or before. -/
theorem concat_split {α : Type*} {xs pre post : List α} {x last : α} (h : xs ++ [last] = pre ++ x :: post) :
    (xs = pre ∧ last = x ∧ post = []) ∨ ∃ post', post = post' ++ [last] ∧ xs = pre ++ x :: post' := by
  obtain rfl | ⟨post', y, rfl⟩ := List.eq_nil_or_concat post
  · obtain ⟨hinit, hlast⟩ := List.append_inj' h rfl
    exact .inl ⟨hinit, List.head_eq_of_cons_eq hlast, rfl⟩
  · have hsplit : xs ++ [last] = (pre ++ x :: post') ++ [y] := by simpa using h
    obtain ⟨hinit, hlast⟩ := List.append_inj' hsplit rfl
    obtain rfl : last = y := List.head_eq_of_cons_eq hlast
    exact .inr ⟨post', by simp, hinit⟩

namespace Process

/-- What the sketch has read and what is still buffered is what has arrived, and the
    results tell the truth about it: a peek shows the byte after those read by then, a count
    is of bytes that have arrived, and no read before so many fails. -/
structure Accounted (p : Process) : Prop where
  conserved : taken p.results ++ p.globals.g_input_buffer = p.arrived
  peeked : ∀ pre b post, p.results = pre ++ .peek (some b) :: post → p.arrived[(taken pre).length]? = some b
  counted : ∀ pre n post, p.results = pre ++ .available n :: post →
    ((taken pre).length : Int) + n.toInt ≤ p.arrived.length
  kept : ∀ pre n mid post, p.results = pre ++ .available n :: (mid ++ .read none :: post) →
    n.toInt ≤ ((taken mid).length : Int)

theorem accounted_initial (g_output_limit : Nat) (sends : Nat → SendResult) (lifecycle_hook : Bool) :
    (Process.initial g_output_limit sends lifecycle_hook).Accounted where
  conserved := rfl
  peeked _ _ _ hlog := absurd hlog.symm (List.append_ne_nil_of_right_ne_nil _ nofun)
  counted _ _ _ hlog := absurd hlog.symm (List.append_ne_nil_of_right_ne_nil _ nofun)
  kept _ _ _ _ hlog := absurd hlog.symm (List.append_ne_nil_of_right_ne_nil _ nofun)

/-- What only appends to the input keeps the account. -/
theorem Accounted.arrive {p p' : Process} (h : p.Accounted) (hresults : p'.results = p.results)
    {data : List UInt8} (hinput : p'.globals.g_input_buffer = p.globals.g_input_buffer ++ data)
    (harrived : p'.arrived = p.arrived ++ data) : p'.Accounted where
  conserved := by rw [hresults, hinput, harrived, ← List.append_assoc, h.conserved]
  peeked := by
    intro pre b post hlog
    have hpeek := h.peeked pre b post (hresults ▸ hlog)
    rw [harrived]
    exact List.getElem?_append_left (List.getElem?_eq_some_iff.mp hpeek).1 |>.trans hpeek
  counted := by
    intro pre n post hlog
    have hcount := h.counted pre n post (hresults ▸ hlog)
    rw [harrived, List.length_append]
    omega
  kept := by
    rw [hresults]
    exact h.kept

/-- A call that takes no byte and shows at most the next one keeps the account. -/
theorem Accounted.answer {p : Process} (h : p.Accounted) {result : SerialResult} {rest : List UInt8}
    (htaken : result.bytes ++ rest = p.globals.g_input_buffer)
    (hpeek : ∀ b, result = .peek (some b) → rest.head? = some b)
    (havailable : ∀ n, result = .available n → n.toInt ≤ (rest.length : Int))
    (hread : result = .read none → rest = []) :
    ({ p with globals := { p.globals with g_input_buffer := rest }
              results := p.results ++ [result] }).Accounted where
  conserved := by
    rw [taken_append, taken_cons, taken_nil, List.append_nil, List.append_assoc, htaken]
    exact h.conserved
  peeked := by
    intro pre b post hlog
    obtain ⟨rfl, rfl, -⟩ | ⟨post, -, hbefore⟩ := concat_split hlog
    · have hnext : p.globals.g_input_buffer.head? = some b := htaken ▸ hpeek b rfl
      rw [← h.conserved, List.getElem?_append_right (le_refl _), Nat.sub_self, ← List.head?_eq_getElem?]
      exact hnext
    · exact h.peeked pre b post hbefore
  counted := by
    intro pre n post hlog
    obtain ⟨rfl, rfl, -⟩ | ⟨post, -, hbefore⟩ := concat_split hlog
    · have hcount := havailable n rfl
      have hlength := congrArg List.length h.conserved
      have hrest := congrArg List.length htaken
      simp only [List.length_append, SerialResult.bytes, List.length_nil] at hlength hrest
      change ((taken p.results).length : Int) + n.toInt ≤ (p.arrived.length : Int)
      omega
    · exact h.counted pre n post hbefore
  kept := by
    intro pre n mid post hlog
    obtain ⟨-, -, hpost⟩ | ⟨post', hpost, hbefore⟩ := concat_split hlog
    · simp at hpost
    · obtain ⟨rfl, rfl, -⟩ | ⟨post, -, rfl⟩ := concat_split hpost.symm
      · -- Nothing is left where a read fails, so all that was counted has been read.
        have hcount := h.counted pre n _ hbefore
        have hempty : p.globals.g_input_buffer = [] := by
          rw [← htaken, hread rfl]
          rfl
        have hlength := congrArg List.length h.conserved
        rw [hempty, List.append_nil, hbefore] at hlength
        simp only [taken_append, taken_cons, SerialResult.bytes, List.nil_append, List.length_append]
          at hlength
        omega
      · exact h.kept pre n mid post hbefore

theorem Accounted.sketch {p : Process} (h : p.Accounted) (call : SketchCall) : (p.sketch call).Accounted := by
  cases call with
  | serialWrite data =>
    obtain ⟨hresults, harrived⟩ := sending_input p (serialWrite p.globals data).2
    have hinput : (p.sketch (.serialWrite data)).globals.g_input_buffer = p.globals.g_input_buffer ++ [] :=
      (congrArg Runtime.g_input_buffer (sending_globals p _)).trans (serialWrite_advances _ data).input
    exact h.arrive hresults hinput (harrived.trans (List.append_nil _).symm)
  | serialAvailable =>
    refine h.answer rfl (by simp) ?_ (by simp)
    rintro n ⟨⟩
    exact available_le p.globals
  | serialRead =>
    simp only [Process.sketch, serialRead]
    split
    · rename_i hempty
      exact h.answer rfl (by simp) (by simp) fun _ => hempty
    · rename_i ch rest hbuffer
      exact h.answer hbuffer.symm (by simp) (by simp) (by simp)
  | serialPeek =>
    refine h.answer rfl ?_ (by simp) (by simp)
    intro b hb
    exact SerialResult.peek.inj hb
  | setLifecycleHook => exact ⟨h.conserved, h.peeked, h.counted, h.kept⟩
  | clearLifecycleHook => exact ⟨h.conserved, h.peeked, h.counted, h.kept⟩

theorem Accounted.step {p p' : Process} (h : p.Accounted) {e : ProcessEvent} (hstep : p.step e = some p') :
    p'.Accounted := by
  by_cases hsketch : ∃ call, e = .sketch call
  · obtain ⟨call, rfl⟩ := hsketch
    obtain rfl := sketch_step hstep
    exact h.sketch call
  · obtain ⟨hresults, data, hinput, harrived⟩ := input_step (fun call he => hsketch ⟨call, he⟩) hstep
    exact h.arrive hresults hinput harrived

end Process

/-- However the client's bytes come in between the calls of the sketch, and wherever the
    connection ends, the sketch reads a prefix of what has arrived, in order and each byte
    once, and the rest is still there. A peek shows the byte that is read next, and a read
    fails only after as many bytes as `available` has counted before it. -/
theorem serial_input {g_output_limit : Nat} {sends : Nat → SendResult} {lifecycle_hook : Bool}
    {events : List ProcessEvent} :
    ∀ p ∈ Process.machine.visited (.initial g_output_limit sends lifecycle_hook) events,
      taken p.results ++ p.globals.g_input_buffer = p.arrived ∧
        (∀ pre b post, p.results = pre ++ .peek (some b) :: post →
          ∀ c, (taken post).head? = some c → c = b) ∧
        ∀ pre n mid post, p.results = pre ++ .available n :: (mid ++ .read none :: post) →
          n.toInt ≤ ((taken mid).length : Int) := by
  intro p hp
  have h : p.Accounted := Lib.EventMachine.visited_invariant (P := Process.Accounted)
    (fun _ _ _ hacc => hacc.step) (Process.accounted_initial _ _ _) p hp
  refine ⟨h.conserved, fun pre b post hlog c hc => ?_, h.kept⟩
  have hnext := h.peeked pre b post hlog
  obtain ⟨rest, hrest⟩ := List.head?_eq_some_iff.mp hc
  rw [← h.conserved, hlog, taken_append, taken_cons, hrest] at hnext
  simpa using hnext

/-- The client leaves with a byte unread, which a read returns after the peek that showed it. -/
theorem serial_input_after_disconnect :
    ∃ p ∈ Process.machine.visited (.initial 16 (fun _ => .accepted 16) false)
        [.startServer true, .server .accept, .server .setConnected, .server .flush,
          .server (.receive [72, 105]), .sketch .serialAvailable, .sketch .serialRead, .disconnect false,
          .server .close, .sketch .serialPeek, .sketch .serialRead, .sketch .serialRead],
      taken p.results ++ p.globals.g_input_buffer = p.arrived ∧ taken p.results = [72, 105] ∧
        (2 : Int32).toInt ≤ ((taken [.read (some 72), .peek (some 105), .read (some 105)]).length : Int) := by
  refine ⟨?process, ?mem, (serial_input _ ?mem).1, ?taken, (serial_input _ ?mem).2.2 [] _ _ [] ?results⟩
  case mem =>
    refine Lib.EventMachine.mem_visited_iff.mpr ⟨_, List.prefix_refl _, ?_⟩
    rfl
  case taken => rfl
  case results => rfl

end HostArduino.runtime
