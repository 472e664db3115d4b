import HostArduino.Bus.WellFormed

namespace HostArduino.bus

/-- The payload of the last event recorded for a pin. -/
def lastFor (pin : Pin) (events : List (AnalogWriteEvent × AnalogOut)) : Option AnalogOut :=
  ((events.map Prod.snd).filter (·.pin = pin)).getLast?

/-- The events recorded between two states of the bus account for every slot: a
    reported slot is as last reported, any other is as it was. -/
def Bus.Accounts (before after : Bus) (events : List (AnalogWriteEvent × AnalogOut)) : Prop :=
  after.trace = before.trace ++ events ∧
    ∀ pin, after.tables.out pin = (lastFor pin events).getD (before.tables.out pin)

theorem lastFor_append (pin : Pin) (events more : List (AnalogWriteEvent × AnalogOut)) :
    lastFor pin (events ++ more) = (lastFor pin more).or (lastFor pin events) := by
  simp only [lastFor, List.map_append, List.filter_append, List.getLast?_append]

theorem Bus.accounts_refl (b : Bus) : b.Accounts b [] :=
  ⟨by simp, fun _ => rfl⟩

theorem Bus.Accounts.trans {a b c : Bus} {events more : List (AnalogWriteEvent × AnalogOut)}
    (hab : a.Accounts b events) (hbc : b.Accounts c more) : a.Accounts c (events ++ more) := by
  refine ⟨by rw [hbc.1, hab.1, List.append_assoc], fun pin => ?_⟩
  rw [hbc.2 pin, hab.2 pin, lastFor_append]
  cases lastFor pin more <;> simp

/-- Committing a slot reports it, and reports nothing about any other pin. -/
theorem Bus.accounts_commit (b : Bus) (hhook : b.analog_write_hook = true) (pin : Pin)
    (event : AnalogWriteEvent) {slot : AnalogOut} (hpin : slot.pin = pin) :
    b.Accounts (b.commit pin event slot) [(event, slot)] := by
  refine ⟨by simp [trace, commit_log b hhook], fun q => ?_⟩
  rw [commit_out]
  by_cases hq : q = pin
  · subst hq
    simp [lastFor, hpin]
  · have hother : slot.pin ≠ q := by
      rw [hpin]
      exact Ne.symm hq
    simp [lastFor, hother, hq]

theorem SlotStep.hook {retunes : Bool} {b b' : Bus} (hstep : SlotStep retunes b b') :
    b'.analog_write_hook = b.analog_write_hook := by
  cases hstep <;> simp

/-- With the recording hook installed, a slot step accounts for what it changes. -/
theorem SlotStep.accounts {retunes : Bool} {b b' : Bus} (hstep : SlotStep retunes b b')
    (hhook : b.analog_write_hook = true) (hwf : b.tables.WellFormed) : ∃ events, b.Accounts b' events := by
  cases hstep with
  | commit hmove => exact ⟨_, b.accounts_commit hhook _ _ (hmove.wellFormed hwf).pin_eq⟩
  | callback fn => exact ⟨[], by simp [Bus.trace], fun _ => rfl⟩
  | defaults bits hz tone => exact ⟨[], by simp [Bus.trace], fun _ => rfl⟩

/-- Slot steps in sequence account for all they change together. -/
theorem slotSteps_account {b b' : Bus} (hsteps : SlotSteps b b')
    (hhook : b.analog_write_hook = true) (hwf : b.tables.WellFormed) :
    ∃ events, b.Accounts b' events := by
  suffices h : (b'.analog_write_hook = true ∧ b'.tables.WellFormed) ∧ ∃ events, b.Accounts b' events from h.2
  induction hsteps with
  | refl => exact ⟨⟨hhook, hwf⟩, [], b.accounts_refl⟩
  | tail _ hlast ih =>
    obtain ⟨⟨hhook', hwf'⟩, events, hevents⟩ := ih
    obtain ⟨retunes, hlast⟩ := hlast
    obtain ⟨more, hmore⟩ := hlast.accounts hhook' hwf'
    exact ⟨⟨hlast.hook.trans hhook', hlast.wellFormed hwf'⟩, events ++ more, hevents.trans hmore⟩

theorem Bus.apply_hook (b : Bus) (call : Call) : (b.apply call).analog_write_hook = b.analog_write_hook := by
  by_cases hreset : call = .resetAnalogState
  · subst hreset
    rfl
  · exact slotSteps_invariant (P := fun b' => b'.analog_write_hook = b.analog_write_hook)
      (fun _ _ _ hstep h => hstep.hook.trans h) (b.apply_steps call hreset) rfl

theorem Bus.run_hook (b : Bus) (calls : List Call) : (b.run calls).analog_write_hook = b.analog_write_hook := by
  induction calls generalizing b with
  | nil => rfl
  | cons call calls ih => exact (ih (b.apply call)).trans (b.apply_hook call)

/-- One call that is not a reset accounts for every slot it changes. -/
theorem Bus.apply_accounts (b : Bus) (hhook : b.analog_write_hook = true) (hwf : b.tables.WellFormed)
    {call : Call} (hcall : call ≠ .resetAnalogState) : ∃ events, b.Accounts (b.apply call) events :=
  slotSteps_account (b.apply_steps call hcall) hhook hwf

/-- A run without a reset accounts for every slot it changes. -/
theorem Bus.run_accounts (calls : List Call) (hreset : Call.resetAnalogState ∉ calls) :
    ∃ events, (Bus.initial true).Accounts ((Bus.initial true).run calls) events := by
  induction calls using List.reverseRecOn with
  | nil => exact ⟨[], Bus.accounts_refl _⟩
  | append_singleton calls call ih =>
    simp only [List.mem_append, List.mem_singleton, not_or] at hreset
    obtain ⟨events, hevents⟩ := ih hreset.1
    obtain ⟨more, hmore⟩ := ((Bus.initial true).run calls).apply_accounts
      (Bus.run_hook _ calls) (Bus.run_initial_wellFormed true calls) (Ne.symm hreset.2)
    refine ⟨events ++ more, ?_⟩
    simpa [Bus.run] using hevents.trans hmore

theorem analogOut_pin (b : Bus) (pin : Pin) : analogOut b pin.val = b.tables.out pin := by
  have hpin : pin.val < kGpioPinCount := pin.isLt
  simp [analogOut]

/-- The recorded trace is complete. After any calls without a reset, with a hook
    that only records, each pin's slot is the payload of the last event recorded
    for it, or the initial slot; and each call on the way recorded, after the
    change, the slot of every pin it changed. -/
theorem trace_complete (calls : List Call) (hreset : Call.resetAnalogState ∉ calls) :
    (∀ pin : Pin, analogOut ((Bus.initial true).run calls) pin.val =
      (lastFor pin ((Bus.initial true).run calls).trace).getD { pin }) ∧
    ∀ pre call post, calls = pre ++ call :: post → ∃ events,
      ((Bus.initial true).run (pre ++ [call])).trace = ((Bus.initial true).run pre).trace ++ events ∧
      ∀ pin : Pin, analogOut ((Bus.initial true).run (pre ++ [call])) pin.val =
        (lastFor pin events).getD (analogOut ((Bus.initial true).run pre) pin.val) := by
  constructor
  · intro pin
    obtain ⟨events, htrace, hslots⟩ := Bus.run_accounts calls hreset
    have hevents : ((Bus.initial true).run calls).trace = events := by
      simpa [Bus.initial, Bus.trace] using htrace
    rw [analogOut_pin, hevents]
    exact hslots pin
  · rintro pre call post rfl
    have hcall : call ≠ .resetAnalogState := by
      rintro rfl
      exact hreset (by simp)
    obtain ⟨events, htrace, hslots⟩ := ((Bus.initial true).run pre).apply_accounts
      (Bus.run_hook _ pre) (Bus.run_initial_wellFormed true pre) hcall
    refine ⟨events, by simpa [Bus.run] using htrace, fun pin => ?_⟩
    simp only [analogOut_pin]
    simpa [Bus.run] using hslots pin

/-- A backlight attached, dimmed and released, as `trace_complete` sees it. -/
theorem trace_complete_backlight :
    Call.resetAnalogState ∉ [Call.ledcAttach 4 5000 8, .ledcWrite 4 128, .ledcDetach 4] ∧
    analogOut ((Bus.initial true).run [.ledcAttach 4 5000 8, .ledcWrite 4 128, .ledcDetach 4]) 4 =
      (lastFor 4 ((Bus.initial true).run [.ledcAttach 4 5000 8, .ledcWrite 4 128, .ledcDetach 4]).trace).getD
        { pin := 4 } :=
  ⟨by decide, (trace_complete [.ledcAttach 4 5000 8, .ledcWrite 4 128, .ledcDetach 4] (by decide)).1 4⟩

end HostArduino.bus
