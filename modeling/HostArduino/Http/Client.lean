import HostArduino.Http.Text
import HostArduino.Lib.Feed

namespace HostArduino.http

/-- The receiving side of a connection, apart from the bytes themselves: the clock in
    microseconds, how many bytes `available` reports, how many each later look at the
    socket finds (a 0 is a look that finds nothing), and whether the peer closes after
    the last of them. A read stops at what `available` reports, so a short read is a
    delivery in smaller pieces. -/
structure Wire where
  now : Nat
  available : Nat
  arrivals : List Nat
  closes : Bool
  deriving DecidableEq, Repr

/-- A connected client; the bytes it has not read yet are those its wire still delivers. -/
abbrev Client :=
  Lib.Source Wire UInt8

namespace Wire

def millis (w : Wire) : UInt32 :=
  UInt32.ofNat (w.now / 1000)

def delay (w : Wire) (ms : Nat) : Wire :=
  { w with now := w.now + 1000 * ms }

/-- A call of `available()`: only when nothing is there does it look at the socket. -/
def poll (w : Wire) : Wire :=
  if 0 < w.available then w
  else
    match w.arrivals with
    | [] => w
    | n :: arrivals => { w with available := n, arrivals }

def connected (w : Wire) : Bool :=
  0 < w.available || !w.arrivals.isEmpty || !w.closes

theorem millis_delay_one {w : Wire} {deadline : UInt32} (h : w.millis < deadline) :
    (w.delay 1).millis.toNat = w.millis.toNat + 1 := by
  have hlt := UInt32.lt_iff_toNat_lt.mp h
  have hbound := deadline.toNat_lt
  have hdiv : (w.now + 1000 * 1) / 1000 = w.now / 1000 + 1 := by omega
  simp only [millis, delay, hdiv, UInt32.toNat_ofNat'] at hlt ⊢
  omega

theorem now_poll (w : Wire) : w.poll.now = w.now := by
  unfold poll
  split
  · rfl
  · split <;> rfl

@[simp] theorem millis_poll (w : Wire) : w.poll.millis = w.millis := by
  rw [millis, now_poll, millis]

/-- The loop of `waitData`. -/
def waitLoop (deadline : UInt32) (w : Wire) : Bool × Wire :=
  if w.millis < deadline then
    let w' := w.poll
    if 0 < w'.available then (true, w')
    else if !w'.connected then
      let w'' := w'.poll
      (0 < w''.available, w'')
    else waitLoop deadline (w'.delay 1)
  else (false, w)
termination_by deadline.toNat - w.millis.toNat
decreasing_by
  rename_i hwaiting _ _
  have hnext := millis_delay_one (w := w.poll) (by rwa [millis_poll])
  have hlt := UInt32.lt_iff_toNat_lt.mp hwaiting
  rw [millis_poll] at hnext
  omega

/-- `waitData` on a client: the deadline is a 32-bit sum of milliseconds. -/
def waitData (timeout_ms : UInt16) (w : Wire) : Bool × Wire :=
  let w' := w.poll
  if 0 < w'.available then (true, w')
  else waitLoop (w'.millis + timeout_ms.toUInt32) w'

def announced (w : Wire) : Nat :=
  w.available + w.arrivals.sum

def take (n : Nat) (w : Wire) : Wire :=
  { w with available := w.available - n }

/-- What a look at the socket, a delay or a wait does to the bytes to come: none is
    lost, and what has become available was announced in `arrivals` before. -/
structure Waits (w w' : Wire) : Prop where
  announced_eq : w'.announced = w.announced
  length_le : w'.arrivals.length ≤ w.arrivals.length
  length_lt : w.available = 0 → 0 < w'.available → w'.arrivals.length < w.arrivals.length

theorem Waits.trans {w w' w'' : Wire} (h : Waits w w') (h' : Waits w' w'')
    (hnone : w'.available = 0) : Waits w w'' := by
  refine ⟨h'.announced_eq.trans h.announced_eq, Nat.le_trans h'.length_le h.length_le, ?_⟩
  intro _ hsome
  exact Nat.lt_of_lt_of_le (h'.length_lt hnone hsome) h.length_le

theorem poll_waits (w : Wire) : Waits w w.poll := by
  unfold poll
  split
  · exact ⟨rfl, Nat.le_refl _, fun hnone hsome => by omega⟩
  · rename_i hnone
    split
    · exact ⟨rfl, Nat.le_refl _, fun _ hsome => absurd hsome hnone⟩
    · rename_i n arrivals harrivals
      refine ⟨?_, ?_, ?_⟩
      · simp only [announced, harrivals, List.sum_cons]
        omega
      · simp only [harrivals, List.length_cons]
        omega
      · intro _ _
        simp only [harrivals, List.length_cons]
        omega

theorem waitLoop_waits (deadline : UInt32) (w : Wire) :
    Waits w (waitLoop deadline w).2 ∧
      ((waitLoop deadline w).1 = true → 0 < (waitLoop deadline w).2.available) := by
  fun_induction waitLoop deadline w with
  | case1 w hwaiting w' hsome => exact ⟨poll_waits w, fun _ => hsome⟩
  | case2 w hwaiting w' hnone hclosed w'' =>
    refine ⟨(poll_waits w).trans (poll_waits w') (Nat.eq_zero_of_not_pos hnone), ?_⟩
    intro hready
    simpa using hready
  | case3 w hwaiting w' hnone hconnected ih =>
    have hzero : w'.available = 0 := Nat.eq_zero_of_not_pos hnone
    have hdelay : Waits w' (w'.delay 1) :=
      ⟨rfl, Nat.le_refl _, fun _ hsome => absurd hsome hnone⟩
    exact ⟨((poll_waits w).trans hdelay hzero).trans ih.1 hzero, ih.2⟩
  | case4 w hexpired =>
    exact ⟨⟨rfl, Nat.le_refl _, fun hnone hsome => absurd hnone (Nat.ne_of_gt hsome)⟩, nofun⟩

theorem waitData_waits (timeout_ms : UInt16) (w : Wire) :
    Waits w (w.waitData timeout_ms).2 ∧
      ((w.waitData timeout_ms).1 = true → 0 < (w.waitData timeout_ms).2.available) := by
  by_cases hsome : 0 < w.poll.available
  · have hwait : w.waitData timeout_ms = (true, w.poll) := if_pos hsome
    rw [hwait]
    exact ⟨poll_waits w, fun _ => hsome⟩
  · have hwait : w.waitData timeout_ms = waitLoop (w.poll.millis + timeout_ms.toUInt32) w.poll :=
      if_neg hsome
    obtain ⟨hwaits, hready⟩ := waitLoop_waits (w.poll.millis + timeout_ms.toUInt32) w.poll
    rw [hwait]
    exact ⟨(poll_waits w).trans hwaits (Nat.eq_zero_of_not_pos hsome), hready⟩

/-- A wire as a feed of bytes under `waitData` with a given timeout. -/
def feed (timeout_ms : UInt16) : Lib.Feed Wire where
  arrived := available
  announced := announced
  rank w := w.arrivals.length
  take := take
  wait := waitData timeout_ms
  arrived_le_announced w := Nat.le_add_right _ _
  arrived_take _ _ := rfl
  announced_take k w hk := by
    change w.available - k + w.arrivals.sum = w.available + w.arrivals.sum - k
    omega
  rank_take _ _ := rfl
  take_zero _ := rfl
  take_take j k w := by
    simp only [take]
    congr 1
    omega
  wait_of_arrived w hsome := by
    have hpoll : w.poll = w := if_pos hsome
    rw [waitData, hpoll]
    exact if_pos hsome
  arrived_of_wait w hready := (waitData_waits timeout_ms w).2 hready
  announced_wait w := (waitData_waits timeout_ms w).1.announced_eq
  rank_wait w hnone hready :=
    (waitData_waits timeout_ms w).1.length_lt hnone ((waitData_waits timeout_ms w).2 hready)

end Wire

/-- `read(buf, n)` of a client with bytes available. -/
def Client.read (c : Client) (n : Nat) : Text × Client :=
  (c.unread.take (min n c.wire.available),
    { wire := c.wire.take (min n c.wire.available),
      unread := c.unread.drop (min n c.wire.available) })

def Client.waitData (timeout_ms : UInt16) (c : Client) : Bool × Client :=
  ((c.wire.waitData timeout_ms).1, { c with wire := (c.wire.waitData timeout_ms).2 })

end HostArduino.http
