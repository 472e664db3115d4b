import HostArduino.Clock.Delay
import HostArduino.Http.Client

namespace HostArduino.http

open clock

variable {ω : Type*}

/-- What `waitData` asks of the client it was given. -/
structure Connection (ω : Type*) where
  available : ω → Int × ω
  connected : ω → Bool × ω

/-- An open connection on which no byte arrives: a look at it finds nothing and, the
    socket answering would-block, changes nothing. -/
structure Connection.Idle (client : Connection ω) : Prop where
  available_eq : ∀ w, client.available w = (0, w)
  connected_eq : ∀ w, client.connected w = (true, w)

/-- One turn of the loop of `waitData`. -/
def waitTurn (client : Connection ω) (P : Platform ω) (deadline : UInt32) (fuel : Nat) (p : Process ω) :
    Option (Lib.Turn (Process ω) (Bool × Process ω)) :=
  let (now, p) := P.millis p
  if now < deadline then
    let (n, w) := client.available p.world
    if 0 < n then some (.leave (true, { p with world := w }))
    else
      let (open_, w) := client.connected w
      if !open_ then
        let (n, w) := client.available w
        some (.leave (decide (0 < n), { p with world := w }))
      else (P.delay 1 { p with world := w } fuel).map .again
  else some (.leave (false, p))

/-- `client_` is `none` for a null pointer, and `timeout_ms_` a field of 16 bits. -/
def waitData (client_ : Option (Connection ω)) (P : Platform ω) (timeout_ms_ : UInt16) (p : Process ω)
    (fuel : Nat) : Option (Bool × Process ω) :=
  match client_ with
  | none => some (false, p)
  | some client =>
    let (n, w) := client.available p.world
    if 0 < n then some (true, { p with world := w })
    else
      let (now, p) := P.millis { p with world := w }
      let deadline := now + timeout_ms_.toUInt32
      Lib.loop (waitTurn client P deadline fuel) fuel p

/-- How many rounds of `delay(1)` a wait for data makes on a clock of milliseconds when
    nothing comes: none when the deadline is past the wrap of the counter. -/
def waitRounds (millis : UInt32) (timeout_ms : UInt16) : Nat :=
  if millis.toNat + timeout_ms.toNat < 2 ^ 32 then timeout_ms.toNat else 0

/-- The second process is some rounds after the first, and no round moved the clock back. -/
def Forward (P : Platform ω) (p q : Process ω) : Prop :=
  ∃ n, q = P.after n p ∧ ∀ k < n, P.reading (P.after k p) ≤ P.reading (P.after (k + 1) p)

variable {client : Connection ω} {P : Platform ω}

theorem toNat_deadline (millis : UInt32) (timeout_ms : UInt16) :
    (millis + timeout_ms.toUInt32).toNat = (millis.toNat + timeout_ms.toNat) % 2 ^ 32 := by
  rw [UInt32.toNat_add, UInt16.toNat_toUInt32]

theorem toNat_millis (now : UInt64) : (now / 1000).toUInt32.toNat = now.toNat / 1000 % 2 ^ 32 := by
  rw [UInt64.toNat_toUInt32, UInt64.toNat_div]
  rfl

theorem Forward.reading_le {p q : Process ω} (h : Forward P p q) : P.reading p ≤ P.reading q := by
  obtain ⟨n, rfl, hforward⟩ := h
  induction n with
  | zero => simp
  | succ n ih =>
    have hn := ih fun k hk => hforward k (Nat.lt_succ_of_lt hk)
    exact UInt64.le_trans hn (hforward n (Nat.lt_succ_self n))

section Idle

variable (hidle : client.Idle)

include hidle

theorem waitTurn_idle {p : Process ω} (hp : P.Settled p) (deadline : UInt32) (fuel : Nat) :
    waitTurn client P deadline fuel p =
      if (P.reading p / 1000).toUInt32 < deadline then (P.delay 1 p fuel).map .again
      else some (.leave (false, p)) := by
  simp [waitTurn, Platform.millis_settled hp, hidle.available_eq, hidle.connected_eq]

theorem waitData_idle (timeout_ms : UInt16) (p : Process ω) (fuel : Nat) :
    waitData (some client) P timeout_ms p fuel =
      Lib.loop (waitTurn client P ((P.reading p / 1000).toUInt32 + timeout_ms.toUInt32) fuel) fuel
        (P.after 0 p) := by
  simp [waitData, hidle.available_eq, Platform.millis, Platform.clockNowMicros_eq]

/-- An idle wait ends, after whole rounds, at a reading that is not before its deadline. -/
theorem waitData_idle_ends {timeout_ms : UInt16} {p q : Process ω} {r : Bool}
    (h : Lib.Ends (waitData (some client) P timeout_ms p) (r, q)) :
    r = false ∧ ∃ k, q = P.after k p ∧
      (P.reading p / 1000).toUInt32 + timeout_ms.toUInt32 ≤ (P.reading q / 1000).toUInt32 := by
  obtain ⟨fuel, h⟩ := h
  rw [waitData_idle hidle] at h
  generalize (P.reading p / 1000).toUInt32 + timeout_ms.toUInt32 = deadline at h ⊢
  have hagain : ∀ t t', (∃ k, t = P.after k p) →
      waitTurn client P deadline fuel t = some (.again t') → ∃ k, t' = P.after k p := by
    rintro t t' ⟨k, rfl⟩ hturn
    rw [waitTurn_idle hidle (Platform.settled_after k p)] at hturn
    split at hturn
    · obtain ⟨t'', hdelay, hsame⟩ := Option.map_eq_some_iff.mp hturn
      obtain rfl := Lib.Turn.again.inj hsame
      obtain ⟨j, rfl, -⟩ := Platform.delay_eq_some hdelay
      exact ⟨k + j, Platform.after_after j k p⟩
    · cases hturn
  obtain ⟨t, ⟨k, rfl⟩, hleave⟩ := Lib.loop_invariant hagain ⟨0, rfl⟩ h
  rw [waitTurn_idle hidle (Platform.settled_after k p)] at hleave
  split at hleave
  · obtain ⟨_, _, hcontra⟩ := Option.map_eq_some_iff.mp hleave
    cases hcontra
  · rename_i hlate
    cases hleave
    exact ⟨rfl, k, rfl, UInt32.not_lt.mp hlate⟩

/-- While a virtual clock has not reached the deadline a turn is one round. -/
theorem waitTurn_virtual {p : Process ω} {now : ClockNowHook ω} {wait : ClockWaitHook ω}
    (hclock : VirtualClock p now wait) (hsettled : P.Settled p) {deadline : UInt32}
    (hearly : (P.reading p / 1000).toUInt32 < deadline)
    (hfits : (P.reading p).toNat + 1000 < 2 ^ 64)
    (hrunning : P.runtimeShouldStop p.world = false) (fuel : Nat) :
    waitTurn client P deadline (fuel + 2) p = some (.again (P.after 1 p)) := by
  have hdelay : P.delay 1 p 2 = some (P.after 1 p) := by
    refine Platform.delay_virtual hclock hfits fun j hj => ?_
    obtain rfl : j = 0 := Nat.lt_one_iff.mp hj
    rwa [Platform.after_zero, hsettled]
  have hmore := Platform.delay_mono 1 p 2 (fuel + 2) _ (Nat.le_add_left _ _) hdelay
  rw [waitTurn_idle hidle hsettled, if_pos hearly, hmore]
  rfl

/-- On a virtual clock an idle wait makes `waitRounds` rounds, and ends. -/
theorem waitData_idle_virtual {timeout_ms : UInt16} {p : Process ω} {now : ClockNowHook ω}
    {wait : ClockWaitHook ω} (hclock : VirtualClock p now wait)
    (hfits : (P.reading p).toNat + 1000 * timeout_ms.toNat < 2 ^ 64)
    (hrunning : ∀ k, P.runtimeShouldStop (P.after k p).world = false) :
    Lib.Ends (waitData (some client) P timeout_ms p)
      (false, P.after (waitRounds (P.reading p / 1000).toUInt32 timeout_ms) p) := by
  have hdeadline := toNat_deadline (P.reading p / 1000).toUInt32 timeout_ms
  have htimeout := timeout_ms.toNat_lt
  have hmillis : ∀ j ≤ timeout_ms.toNat, ((P.reading (P.after j p)) / 1000).toUInt32.toNat =
      ((P.reading p / 1000).toUInt32.toNat + j) % 2 ^ 32 := by
    intro j hj
    rw [toNat_millis, toNat_millis, hclock.reading_after_toNat (by omega)]
    omega
  generalize hmillisStart : (P.reading p / 1000).toUInt32 = start at hmillis hdeadline ⊢
  have hstart := start.toNat_lt
  obtain ⟨n, hn⟩ : ∃ n, waitRounds start timeout_ms = n := ⟨_, rfl⟩
  refine ⟨n + 2, ?_⟩
  rw [waitData_idle hidle, hn, hmillisStart]
  unfold waitRounds at hn
  refine Lib.loop_mono (fun _ _ ht => ht) (Nat.le_succ (n + 1)) ?_
  refine Lib.loop_iterate P.slice (fun j hj => ?_) ?_
  · have hbefore : start.toNat + timeout_ms.toNat < 2 ^ 32 ∧ j < timeout_ms.toNat := by
      split at hn <;> omega
    have hearly : (P.reading (P.after j p) / 1000).toUInt32 < start + timeout_ms.toUInt32 := by
      rw [UInt32.lt_iff_toNat_lt, hmillis j (by omega), hdeadline]
      omega
    have hroom : (P.reading (P.after j p)).toNat + 1000 < 2 ^ 64 := by
      rw [hclock.reading_after_toNat (by omega)]
      omega
    have hround := waitTurn_virtual hidle (hclock.after j) (Platform.settled_after j p) hearly hroom
      (hrunning j) n
    rwa [Platform.after_after] at hround
  · have hlate : ¬(P.reading (P.after n p) / 1000).toUInt32 < start + timeout_ms.toUInt32 := by
      rw [UInt32.lt_iff_toNat_lt, hdeadline, hmillis n (by split at hn <;> omega)]
      split at hn <;> omega
    exact (waitTurn_idle hidle (Platform.settled_after n p) _ _).trans (if_neg hlate)

end Idle

/-- A wait for data on an idle connection that reports a timeout has let its
    milliseconds pass exactly when the 32-bit deadline does not wrap: past the wrap the
    deadline is below the counter, and the wait is over before it has begun. In either
    case it ends, on a clock that each `delay(1)` moves by a millisecond. What has passed
    is counted as the code counts it, in whole milliseconds of the clock. -/
theorem waitData_elapsed_iff {client : Connection ω} (hidle : client.Idle) (P : Platform ω)
    (timeout_ms_ : UInt16) (p : Process ω) :
    ((∀ q, Lib.Ends (waitData (some client) P timeout_ms_ p) (false, q) → Forward P p q →
        timeout_ms_.toNat ≤ (P.reading q).toNat / 1000 - (P.reading p).toNat / 1000) ↔
      (P.millis p).1.toNat + timeout_ms_.toNat < 2 ^ 32) ∧
    (∀ now wait, VirtualClock p now wait →
      (P.reading p).toNat + 1000 * timeout_ms_.toNat < 2 ^ 64 →
      (∀ k, P.runtimeShouldStop (P.after k p).world = false) →
      ∃ n ≤ timeout_ms_.toNat,
        Lib.Ends (waitData (some client) P timeout_ms_ p) (false, P.after n p)) := by
  have htimeout := timeout_ms_.toNat_lt
  have hdeadline := toNat_deadline (P.reading p / 1000).toUInt32 timeout_ms_
  have hstart := toNat_millis (P.reading p)
  change ((∀ q, _) ↔ (P.reading p / 1000).toUInt32.toNat + _ < _) ∧ _
  refine ⟨⟨fun helapsed => ?_, fun hnowrap q hends hforward => ?_⟩, fun now wait hclock hfits hrunning => ?_⟩
  · by_contra hwrap
    -- Past the wrap the first check of the loop is also its last.
    have hlate : ¬(P.reading (P.after 0 p) / 1000).toUInt32 <
        (P.reading p / 1000).toUInt32 + timeout_ms_.toUInt32 := by
      rw [Platform.after_zero, Platform.reading_latched, UInt32.lt_iff_toNat_lt, hdeadline]
      omega
    have hends : Lib.Ends (waitData (some client) P timeout_ms_ p) (false, P.after 0 p) := by
      refine ⟨1, ?_⟩
      rw [waitData_idle hidle]
      exact Lib.loop_leave ((waitTurn_idle hidle (Platform.settled_after 0 p) _ _).trans (if_neg hlate)) 0
    have hnone := helapsed _ hends ⟨0, rfl, nofun⟩
    rw [Platform.after_zero, Platform.reading_latched] at hnone
    omega
  · obtain ⟨-, k, -, hlate⟩ := waitData_idle_ends hidle hends
    have hle := UInt64.le_iff_toNat_le.mp hforward.reading_le
    rw [UInt32.le_iff_toNat_le, hdeadline, toNat_millis (P.reading q)] at hlate
    omega
  · refine ⟨_, ?_, waitData_idle_virtual hidle hclock hfits hrunning⟩
    unfold waitRounds
    split <;> omega

def idleConnection (ω : Type*) : Connection ω where
  available w := (0, w)
  connected w := (true, w)

theorem idleConnection_idle (ω : Type*) : (idleConnection ω).Idle :=
  ⟨fun _ => rfl, fun _ => rfl⟩

theorem waitData_elapsed_before_wrap :
    (∀ q, Lib.Ends (waitData (some (idleConnection UInt64)) testPlatform 3 (testProcess 4294967000000))
        (false, q) → Forward testPlatform (testProcess 4294967000000) q →
      3 ≤ (testPlatform.reading q).toNat / 1000 - 4294967000) ∧
      ∃ n ≤ 3, Lib.Ends
        (waitData (some (idleConnection UInt64)) testPlatform 3 (testProcess 4294967000000))
        (false, testPlatform.after n (testProcess 4294967000000)) := by
  have helapsed := waitData_elapsed_iff (idleConnection_idle UInt64) testPlatform 3
    (testProcess 4294967000000)
  exact ⟨helapsed.1.mpr (by decide), helapsed.2 _ _ (testProcess_virtual _) (by decide) fun _ => rfl⟩

/-- At 3 ms before the wrap, with a timeout of 5000 ms, the wait is over at once. -/
theorem waitData_returns_at_wrap :
    (testPlatform.millis (testProcess 4294967293000)).1 = 0xFFFFFFFD ∧
      Lib.Ends (waitData (some (idleConnection UInt64)) testPlatform 5000 (testProcess 4294967293000))
        (false, testProcess 4294967293000) :=
  ⟨rfl, 1, rfl⟩

section OnWire

/-- What a wire answers to `available()` and `connected()`. -/
def Wire.connection : Connection Wire where
  available w := (w.poll.available, w.poll)
  connected w := (w.connected, w)

/-- A process whose world is a wire and whose clock is the one of the wire; nothing asks it
    to stop. -/
structure OnWire (P : Platform Wire) (p : Process Wire) (w : Wire) : Prop where
  world_eq : p.world = w
  now_hook : p.now_hook = some fun w => UInt64.ofNat w.now
  wait_hook : p.wait_hook = some fun micros w => { w with now := w.now + micros.toNat }
  running : ∀ w, P.runtimeShouldStop w = false

variable {P : Platform Wire} {p : Process Wire} {w : Wire}

theorem OnWire.virtualClock (h : OnWire P p w) :
    VirtualClock p (fun w => UInt64.ofNat w.now) fun micros w => { w with now := w.now + micros.toNat } where
  now_hook := h.now_hook
  wait_hook := h.wait_hook
  now_wait micros w := by
    rw [UInt64.ofNat_add, UInt64.ofNat_uInt32ToNat]

theorem OnWire.reading (h : OnWire P p w) (hfits : w.now < 2 ^ 64) : (P.reading p).toNat = w.now := by
  rw [h.virtualClock.reading_eq, h.world_eq]
  exact UInt64.toNat_ofNat_of_lt' hfits

theorem OnWire.millis (h : OnWire P p w) (hfits : w.now < 2 ^ 64) : P.millis p = (w.millis, p) := by
  rw [Platform.millis_settled (Platform.settled_of_hook h.now_hook)]
  congr 1
  rw [← UInt32.toNat_inj, toNat_millis, h.reading hfits, Wire.millis, UInt32.toNat_ofNat']

/-- A look at the socket moves no clock. -/
theorem OnWire.poll (h : OnWire P p w) : OnWire P { p with world := w.poll } w.poll :=
  ⟨rfl, h.now_hook, h.wait_hook, h.running⟩

theorem OnWire.delay (h : OnWire P p w) (hfits : w.now + 1000 < 2 ^ 64) :
    ∃ q, P.delay 1 p 2 = some q ∧ OnWire P q (w.delay 1) := by
  have hroom : (P.reading p).toNat + 1000 < 2 ^ 64 := by
    rw [h.reading (by omega)]
    exact hfits
  refine ⟨P.after 1 p, Platform.delay_virtual h.virtualClock hroom fun _ _ => h.running _, ?_⟩
  refine ⟨?_, (Platform.after_now_hook 1 p).trans h.now_hook, (Platform.after_wait_hook 1 p).trans h.wait_hook,
    h.running⟩
  rw [Platform.after_succ, Platform.after_zero, Platform.settled_of_hook h.now_hook]
  simp [Platform.slice, Platform.clockWaitMicros, Process.runtimePoll, h.wait_hook, h.world_eq, Wire.delay]

theorem waitTurn_mono {ω : Type*} {client : Connection ω} {P : Platform ω} {deadline : UInt32} {fuel fuel' : Nat}
    (hle : fuel ≤ fuel') (p : Process ω) (t : Lib.Turn (Process ω) (Bool × Process ω))
    (h : waitTurn client P deadline fuel p = some t) : waitTurn client P deadline fuel' p = some t := by
  simp only [waitTurn] at h ⊢
  by_cases hwaiting : (P.millis p).1 < deadline
  · rw [if_pos hwaiting] at h ⊢
    by_cases hsome : 0 < (client.available (P.millis p).2.world).1
    · rwa [if_pos hsome] at h ⊢
    · rw [if_neg hsome] at h ⊢
      split at h
      case isTrue hclosed => rwa [if_pos hclosed]
      case isFalse hopen =>
        rw [if_neg hopen]
        obtain ⟨q, hdelay, rfl⟩ := Option.map_eq_some_iff.mp h
        exact Option.map_eq_some_iff.mpr ⟨q, Platform.delay_mono 1 _ fuel fuel' q hle hdelay, rfl⟩
  · rwa [if_neg hwaiting] at h ⊢

/-- One turn of the loop over a wire. -/
theorem OnWire.waitTurn_eq (h : OnWire P p w) (hfits : w.now < 2 ^ 64) (deadline : UInt32) (fuel : Nat) :
    waitTurn Wire.connection P deadline fuel p =
      if w.millis < deadline then
        if 0 < w.poll.available then some (.leave (true, { p with world := w.poll }))
        else if !w.poll.connected then
          some (.leave (decide (0 < w.poll.poll.available), { p with world := w.poll.poll }))
        else (P.delay 1 { p with world := w.poll } fuel).map .again
      else some (.leave (false, p)) := by
  simp only [waitTurn, h.millis hfits, Wire.connection, h.world_eq, Int.natCast_pos]

/-- The loop over a wire in the client's model is the loop itself on that wire. -/
theorem OnWire.waitLoop_ends (h : OnWire P p w) (deadline : UInt32)
    (hfits : w.now + 1000 * (deadline.toNat - w.millis.toNat) < 2 ^ 64) :
    ∃ q, Lib.Ends (fun fuel => Lib.loop (waitTurn Wire.connection P deadline fuel) fuel p)
        ((Wire.waitLoop deadline w).1, q) ∧ OnWire P q (Wire.waitLoop deadline w).2 := by
  have hnow (w : Wire) (hfits : w.now + 1000 * (deadline.toNat - w.millis.toNat) < 2 ^ 64) : w.now < 2 ^ 64 :=
    Nat.lt_of_le_of_lt (Nat.le_add_right _ _) hfits
  revert p
  fun_induction Wire.waitLoop deadline w with
  | case1 w hwaiting w' hsome =>
    intro p h
    refine ⟨_, ⟨1, Lib.loop_leave ?_ 0⟩, h.poll⟩
    exact (h.waitTurn_eq (hnow _ hfits) _ _).trans ((if_pos hwaiting).trans (if_pos hsome))
  | case2 w hwaiting w' hnone hclosed =>
    intro p h
    refine ⟨_, ⟨1, Lib.loop_leave ?_ 0⟩, h.poll.poll⟩
    exact (h.waitTurn_eq (hnow _ hfits) _ _).trans ((if_pos hwaiting).trans ((if_neg hnone).trans (if_pos hclosed)))
  | case3 w hwaiting w' hnone hconnected ih =>
    intro p h
    have hlt := UInt32.lt_iff_toNat_lt.mp hwaiting
    have hmillis : w.poll.millis = w.millis := Wire.millis_poll w
    have hsame : w.poll.now = w.now := Wire.now_poll w
    have hnext := Wire.millis_delay_one (w := w.poll) (hmillis ▸ hwaiting)
    have hlater : (w.poll.delay 1).now = w.now + 1000 := congrArg (· + 1000) hsame
    obtain ⟨p', hdelay, hp'⟩ := h.poll.delay (hsame ▸ by omega)
    obtain ⟨q, ⟨fuel, hloop⟩, hq⟩ := ih (by
      rw [hlater, hnext, hmillis]
      omega) hp'
    refine ⟨q, ⟨fuel + 2, ?_⟩, hq⟩
    have hround := Platform.delay_mono 1 _ 2 (fuel + 2) p' (Nat.le_add_left _ _) hdelay
    have hagain : waitTurn Wire.connection P deadline (fuel + 2) p = some (.again p') := by
      rw [h.waitTurn_eq (hnow _ hfits), if_pos hwaiting, if_neg hnone, if_neg hconnected, hround]
      rfl
    refine (Lib.loop_again hagain (fuel + 1)).trans ?_
    exact Lib.loop_mono (waitTurn_mono (Nat.le_add_right fuel 2)) (Nat.le_succ fuel) hloop
  | case4 w hexpired =>
    intro p h
    refine ⟨p, ⟨1, Lib.loop_leave ?_ 0⟩, h⟩
    rw [h.waitTurn_eq (hnow _ hfits), if_neg hexpired]

/-- `waitData` in the client's model is `waitData` itself on that wire, as long as the clock
    in microseconds does not wrap: it returns the same and leaves the wire the same. -/
theorem OnWire.waitData_ends (h : OnWire P p w) (timeout_ms : UInt16)
    (hfits : w.now + 1000 * timeout_ms.toNat < 2 ^ 64) :
    ∃ q, Lib.Ends (waitData (some Wire.connection) P timeout_ms p) ((w.waitData timeout_ms).1, q) ∧
      OnWire P q (w.waitData timeout_ms).2 := by
  have hnow : w.poll.now = w.now := Wire.now_poll w
  by_cases hsome : 0 < w.poll.available
  · refine ⟨{ p with world := w.poll }, ⟨0, ?_⟩, ?_⟩
    · simp [waitData, Wire.connection, h.world_eq, hsome, Wire.waitData]
    · rw [Wire.waitData, if_pos hsome]
      exact h.poll
  · have hdeadline := toNat_deadline w.poll.millis timeout_ms
    have htimeout := timeout_ms.toNat_lt
    have hstart := w.poll.millis.toNat_lt
    have hwait : w.waitData timeout_ms = Wire.waitLoop (w.poll.millis + timeout_ms.toUInt32) w.poll := if_neg hsome
    obtain ⟨q, hends, hq⟩ := h.poll.waitLoop_ends (w.poll.millis + timeout_ms.toUInt32) (by omega)
    rw [hwait]
    have hmillis := h.poll.millis (hnow ▸ Nat.lt_of_le_of_lt (Nat.le_add_right _ _) hfits)
    refine ⟨q, hends.imp fun fuel hloop => ?_, hq⟩
    simpa [waitData, Wire.connection, h.world_eq, hsome, hmillis] using hloop

end OnWire

end HostArduino.http
