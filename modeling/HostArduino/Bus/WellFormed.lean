import HostArduino.Bus.SlotStep

namespace HostArduino.bus

/-- What the fields of one pin's slot owe each other, whatever the pin is used for. -/
structure AnalogOut.WellFormed (slot : AnalogOut) (pin : Pin) : Prop where
  pin_eq : slot.pin = pin
  ledc : slot.attached = true → slot.dac = false →
    slot.channel.toNat < kLedcChannelCount ∧ 0 < slot.frequency ∧
      1 ≤ slot.resolution ∧ slot.resolution ≤ kLedcMaxResolution
  dac : slot.dac = true →
    slot.attached = true ∧ slot.channel = kNoLedcChannel ∧ slot.frequency = 0 ∧
      slot.resolution = 8 ∧ slot.duty ≤ 255
  detached : slot.attached = false →
    slot.channel = kNoLedcChannel ∧ slot.duty = 0 ∧ slot.dac = false

def AnalogTables.WellFormed (t : AnalogTables) : Prop :=
  ∀ pin, (t.out pin).WellFormed pin

theorem reset_wellFormed : AnalogTables.reset.WellFormed := by
  intro pin
  constructor <;> simp [AnalogTables.reset]

/-- An attach settles on usable values: the arguments were checked, and a shared
    channel hands over those of a pin whose own slot is well formed. -/
theorem AttachSettings.usable {t : AnalogTables} (hwf : t.WellFormed) {channel : UInt8}
    {freq : UInt32} {resolution : UInt8} (h : AttachSettings t channel freq resolution) :
    0 < freq ∧ 1 ≤ resolution ∧ resolution ≤ kLedcMaxResolution := by
  cases h with
  | adopted howner =>
    obtain ⟨hattached, hdac, _⟩ := channelOwner_some howner
    exact ((hwf _).ledc hattached hdac).2
  | requested hfree hfreq hpos hmax =>
    exact ⟨UInt32.pos_iff_ne_zero.mpr hfreq, UInt8.pos_iff_ne_zero.mpr hpos, hmax⟩

/-- Each move puts a well-formed slot in place of a well-formed one. -/
theorem Move.wellFormed {t : AnalogTables} (hwf : t.WellFormed) {pin : Pin}
    {retunes : Bool} {event : AnalogWriteEvent} {slot : AnalogOut}
    (hmove : Move t pin retunes event slot) : slot.WellFormed pin := by
  have hpin := (hwf pin).pin_eq
  cases hmove with
  | attach hchannel hdetached hsettings =>
    exact ⟨hpin, fun _ _ => ⟨hchannel, hsettings.usable hwf⟩, by simp, by simp⟩
  | duty duty hslot =>
    obtain ⟨-, hattached, hdac⟩ := ledcSlot_eq_some.mp hslot
    exact ⟨hpin, (hwf pin).ledc, by simp [hdac], by simp [hattached]⟩
  | tone hslot hfreq =>
    obtain ⟨-, hattached, hdac⟩ := ledcSlot_eq_some.mp hslot
    have hchannel := ((hwf pin).ledc hattached hdac).1
    have hbits : (1 : UInt8) ≤ 10 ∧ 10 ≤ kLedcMaxResolution := by decide
    exact ⟨hpin, fun _ _ => ⟨hchannel, UInt32.pos_iff_ne_zero.mpr hfreq, hbits⟩,
      by simp [hdac], by simp [hattached]⟩
  | config hslot hfreq hpos hmax =>
    obtain ⟨-, hattached, hdac⟩ := ledcSlot_eq_some.mp hslot
    have hchannel := ((hwf pin).ledc hattached hdac).1
    exact ⟨hpin, fun _ _ =>
      ⟨hchannel, UInt32.pos_iff_ne_zero.mpr hfreq, UInt8.pos_iff_ne_zero.mpr hpos, hmax⟩,
      by simp [hdac], by simp [hattached]⟩
  | invert inverted hslot =>
    obtain ⟨-, hattached, hdac⟩ := ledcSlot_eq_some.mp hslot
    exact ⟨hpin, (hwf pin).ledc, by simp [hdac], by simp [hattached]⟩
  | detach hslot =>
    obtain ⟨-, _, hdac⟩ := ledcSlot_eq_some.mp hslot
    exact ⟨hpin, by simp, by simp [hdac], by simp [hdac]⟩
  | dac value =>
    have hduty : value.toUInt32 ≤ 255 := by
      have := value.toNat_lt
      rw [UInt32.le_iff_toNat_le]
      simp
      omega
    exact ⟨hpin, by simp, fun _ => ⟨rfl, rfl, rfl, rfl, hduty⟩, by simp⟩
  | dacDisable hdac =>
    have hchannel := ((hwf pin).dac hdac).2.1
    exact ⟨hpin, by simp, by simp, fun _ => ⟨hchannel, rfl, rfl⟩⟩

theorem SlotStep.wellFormed {retunes : Bool} {b b' : Bus} (hstep : SlotStep retunes b b')
    (hwf : b.tables.WellFormed) : b'.tables.WellFormed := by
  cases hstep with
  | commit hmove =>
    rename_i pin event slot
    intro q
    rw [commit_out]
    by_cases hq : q = pin
    · subst hq
      simpa using hmove.wellFormed hwf
    · simpa [hq] using hwf q
  | callback fn => exact hwf
  | defaults bits hz tone => exact hwf

theorem Bus.run_keeps_wellFormed {b : Bus} (hwf : b.tables.WellFormed) (calls : List Call) :
    (b.run calls).tables.WellFormed :=
  Bus.run_invariant (P := fun b => b.tables.WellFormed) (fun _ _ _ hstep => hstep.wellFormed)
    (fun _ _ => reset_wellFormed) hwf calls

theorem Bus.run_initial_wellFormed (analog_write_hook : Bool) (calls : List Call) :
    ((Bus.initial analog_write_hook).run calls).tables.WellFormed :=
  Bus.run_keeps_wellFormed reset_wellFormed calls

/-- After any sequence of analog output calls, `resetAnalogState` included, every
    pin's slot is well formed, with or without a hook watching. -/
theorem run_wellFormed (analog_write_hook : Bool) (calls : List Call) (pin : Pin) :
    (((Bus.initial analog_write_hook).run calls).tables.out pin).WellFormed pin :=
  Bus.run_initial_wellFormed analog_write_hook calls pin

end HostArduino.bus
