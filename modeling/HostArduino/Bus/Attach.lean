import HostArduino.Bus.WellFormed
import Mathlib.Order.Bounds.Basic

namespace HostArduino.bus

/-- The pin is attached to LEDC: driven, and not by a DAC. -/
def AnalogTables.OnLedc (t : AnalogTables) (pin : Pin) : Prop :=
  (t.out pin).attached = true ∧ (t.out pin).dac = false

/-- A channel carries the pins that are attached to LEDC on it. -/
def AnalogTables.Carries (t : AnalogTables) (channel : Int) (pin : Pin) : Prop :=
  t.OnLedc pin ∧ ((t.out pin).channel.toNat : Int) = channel

/-- The channels an attach may take without sharing. -/
def AnalogTables.freeChannels (t : AnalogTables) : Set Nat :=
  {channel | channel < kLedcChannelCount ∧ ∀ pin, ¬t.Carries channel pin}

instance (t : AnalogTables) (pin : Pin) : Decidable (t.OnLedc pin) :=
  inferInstanceAs (Decidable (_ ∧ _))

instance (t : AnalogTables) (channel : Int) (pin : Pin) : Decidable (t.Carries channel pin) :=
  inferInstanceAs (Decidable (_ ∧ _))

theorem ledcSlot_of_onLedc {t : AnalogTables} {pin : Pin} (h : t.OnLedc pin) :
    ledcSlot t pin = some (t.out pin) :=
  ledcSlot_eq_some.mpr ⟨rfl, h⟩

theorem ledcSlot_eq_none {t : AnalogTables} {pin : Pin} : ledcSlot t pin = none ↔ ¬t.OnLedc pin := by
  constructor
  · intro hnone h
    rw [ledcSlot_of_onLedc h] at hnone
    cases hnone
  · intro h
    cases hslot : ledcSlot t pin with
    | none => rfl
    | some slot => exact absurd (ledcSlot_eq_some.mp hslot).2 h

theorem ledcSlot_isSome {t : AnalogTables} {pin : Pin} :
    (ledcSlot t pin).isSome = true ↔ t.OnLedc pin := by
  rw [← not_iff_not, ← ledcSlot_eq_none, Bool.not_eq_true, Option.isSome_eq_false_iff,
    Option.isNone_iff_eq_none]

/-- The test both loops over the pins make. -/
theorem carries_iff {t : AnalogTables} {channel : Nat} {pin : Pin} :
    ((ledcSlot t pin).any fun slot => slot.channel.toNat == channel) = true ↔ t.Carries channel pin := by
  unfold AnalogTables.Carries
  by_cases h : t.OnLedc pin
  · simp only [ledcSlot_of_onLedc h, Option.any_some, beq_iff_eq, h, true_and]
    exact Int.natCast_inj.symm
  · simp [ledcSlot_eq_none.mpr h, h]

/-- A search that goes up finds the least. -/
theorem find?_finRange_eq_some {n : Nat} {p : Fin n → Bool} {i : Fin n} :
    (List.finRange n).find? p = some i ↔ IsLeast {j | p j = true} i := by
  rw [List.find?_eq_some_iff_getElem]
  constructor
  · rintro ⟨hp, k, hk, rfl, hbefore⟩
    refine ⟨hp, fun j hj => ?_⟩
    rw [List.getElem_finRange]
    by_contra hlt
    have hnot := hbefore j.val (by simpa [Fin.lt_def] using hlt)
    rw [List.getElem_finRange] at hnot
    exact absurd hj (by simpa using hnot)
  · rintro ⟨hp, hleast⟩
    refine ⟨hp, i.val, by simp, by simp, fun j hj => ?_⟩
    rw [List.getElem_finRange, Bool.not_eq_true']
    by_contra htrue
    have hle : i ≤ ⟨j, by omega⟩ := hleast (by simpa using htrue)
    rw [Fin.le_def] at hle
    exact absurd hle (by simpa using hj)

theorem channelOwner_eq_some_iff {t : AnalogTables} {channel : Nat} (hlt : channel < kLedcChannelCount)
    {pin : Pin} : channelOwner t channel = some pin ↔ IsLeast {p | t.Carries channel p} pin := by
  unfold channelOwner
  rw [if_neg (by omega), find?_finRange_eq_some]
  simp only [carries_iff]

theorem channelOwner_eq_none_iff {t : AnalogTables} {channel : Nat} (hlt : channel < kLedcChannelCount) :
    channelOwner t channel = none ↔ ∀ pin, ¬t.Carries channel pin := by
  unfold channelOwner
  rw [if_neg (by omega), List.find?_eq_none]
  simp only [List.mem_finRange, carries_iff, true_implies]

theorem firstFreeChannel_eq_some_iff {t : AnalogTables} {channel : Nat} :
    firstFreeChannel t = some channel ↔ IsLeast t.freeChannels channel := by
  unfold firstFreeChannel
  rw [List.find?_range_eq_some]
  constructor
  · rintro ⟨hfree, hmem, hbefore⟩
    have hlt := List.mem_range.mp hmem
    refine ⟨⟨hlt, (channelOwner_eq_none_iff hlt).mp (by simpa using hfree)⟩, fun c hc => ?_⟩
    by_contra hless
    have howned := hbefore c (by omega)
    rw [(channelOwner_eq_none_iff hc.1).mpr hc.2] at howned
    cases howned
  · rintro ⟨⟨hlt, hfree⟩, hleast⟩
    refine ⟨by simp [(channelOwner_eq_none_iff hlt).mpr hfree], List.mem_range.mpr hlt, fun c hc => ?_⟩
    cases howner : channelOwner t c with
    | some owner => rfl
    | none =>
      have hle := hleast ⟨by omega, (channelOwner_eq_none_iff (by omega)).mp howner⟩
      omega

theorem firstFreeChannel_eq_none_iff {t : AnalogTables} :
    firstFreeChannel t = none ↔ ¬∃ channel, channel ∈ t.freeChannels := by
  unfold firstFreeChannel
  rw [List.find?_eq_none]
  simp only [List.mem_range, not_exists]
  refine forall_congr' fun channel => ?_
  constructor
  · rintro hnone ⟨hlt, hfree⟩
    exact hnone hlt (by simp [(channelOwner_eq_none_iff hlt).mpr hfree])
  · intro hnot hlt howner
    exact hnot ⟨hlt, (channelOwner_eq_none_iff hlt).mp (by simpa using howner)⟩

/-- In well-formed tables no pin is on a channel that does not exist. -/
theorem AnalogTables.WellFormed.channel_lt {t : AnalogTables} (hwf : t.WellFormed) {channel : Int}
    {pin : Pin} (h : t.Carries channel pin) : 0 ≤ channel ∧ channel < kLedcChannelCount := by
  have hlt := ((hwf pin).ledc h.1.1 h.1.2).1
  have hchannel := h.2
  omega

theorem ledcChannelPin_eq_some_iff {t : AnalogTables} (hwf : t.WellFormed) {channel : Int} {pin : Pin} :
    ledcChannelPin t channel = some pin ↔ IsLeast {p | t.Carries channel p} pin := by
  unfold ledcChannelPin
  by_cases hneg : channel < 0
  · rw [if_pos hneg]
    refine iff_of_false nofun fun h => ?_
    have := hwf.channel_lt h.1
    omega
  · rw [if_neg hneg]
    obtain ⟨channel, rfl⟩ := Int.eq_ofNat_of_zero_le (by omega : 0 ≤ channel)
    by_cases hlt : channel < kLedcChannelCount
    · exact channelOwner_eq_some_iff hlt
    · rw [Int.toNat_natCast, channelOwner, if_pos (by omega)]
      refine iff_of_false nofun fun h => ?_
      have := hwf.channel_lt h.1
      omega

theorem ledcChannelPin_eq_none_iff {t : AnalogTables} (hwf : t.WellFormed) {channel : Int} :
    ledcChannelPin t channel = none ↔ ∀ pin, ¬t.Carries channel pin := by
  constructor
  · intro hnone pin hcarries
    have hlt := hwf.channel_lt hcarries
    obtain ⟨channel, rfl⟩ := Int.eq_ofNat_of_zero_le hlt.1
    rw [ledcChannelPin, if_neg (by omega), Int.toNat_natCast,
      channelOwner_eq_none_iff (Int.ofNat_lt.mp hlt.2)] at hnone
    exact hnone pin hcarries
  · intro hfree
    cases hpin : ledcChannelPin t channel with
    | none => rfl
    | some pin => exact absurd ((ledcChannelPin_eq_some_iff hwf).mp hpin).1 (hfree pin)

/-- A frequency and resolution that an attach or a retune accepts. -/
def Usable (freq : UInt32) (resolution : UInt8) : Prop :=
  freq ≠ 0 ∧ 1 ≤ resolution ∧ resolution ≤ kLedcMaxResolution

instance (freq : UInt32) (resolution : UInt8) : Decidable (Usable freq resolution) :=
  inferInstanceAs (Decidable (_ ∧ _))

theorem usable_iff {freq : UInt32} {resolution : UInt8} :
    Usable freq resolution ↔ ¬(freq = 0 ∨ resolution = 0 ∨ resolution > kLedcMaxResolution) := by
  rw [Usable, not_or, not_or, gt_iff_lt, UInt8.not_lt]
  exact and_congr_right fun _ => and_congr_left fun _ => UInt8.pos_iff_ne_zero

/-- What an attach makes of a slot; its duty and inversion stay. -/
def AnalogOut.attachedTo (slot : AnalogOut) (channel : UInt8) (frequency : UInt32) (resolution : UInt8) :
    AnalogOut :=
  { slot with channel, frequency, resolution, attached := true, dac := false }

theorem attachChannel_eq_true_iff (b : Bus) (pin : Pin) (freq : UInt32) (resolution channel : UInt8) :
    (attachChannel b pin freq resolution channel).1 = true ↔
      channel.toNat < kLedcChannelCount ∧ Usable freq resolution ∧ ¬b.tables.OnLedc pin := by
  rw [usable_iff, ← ledcSlot_isSome]
  unfold attachChannel
  split
  · rename_i hchannel
    exact iff_of_false nofun fun h => absurd h.1 (by omega)
  · rename_i hchannel
    split
    · rename_i hargs
      exact iff_of_false nofun fun h => h.2.1 hargs
    · rename_i hargs
      split
      · rename_i hslot
        exact iff_of_false nofun fun h => h.2.2 hslot
      · rename_i hslot
        exact iff_of_true rfl ⟨by omega, hargs, hslot⟩

/-- A successful attach commits one slot, with the event for it. -/
theorem attachChannel_success {b : Bus} {pin : Pin} {freq : UInt32} {resolution channel : UInt8}
    (hattached : (attachChannel b pin freq resolution channel).1 = true) :
    ∃ freq' resolution', (attachChannel b pin freq resolution channel).2 =
      b.commit pin .kAnalogAttach ((b.tables.out pin).attachedTo channel freq' resolution') := by
  obtain ⟨hchannel, husable, hpin⟩ := (attachChannel_eq_true_iff b pin freq resolution channel).mp hattached
  unfold attachChannel
  rw [if_neg (by omega), if_neg (usable_iff.mp husable), if_neg (mt ledcSlot_isSome.mp hpin)]
  exact ⟨_, _, rfl⟩

/-- A channel that carries no pin is taken with the settings that were asked for. -/
theorem attachChannel_of_free {b : Bus} {pin : Pin} {freq : UInt32} {resolution channel : UInt8}
    (hattached : (attachChannel b pin freq resolution channel).1 = true)
    (hfree : ∀ q, ¬b.tables.Carries channel.toNat q) :
    (attachChannel b pin freq resolution channel).2 =
      b.commit pin .kAnalogAttach ((b.tables.out pin).attachedTo channel freq resolution) := by
  obtain ⟨hchannel, husable, hpin⟩ := (attachChannel_eq_true_iff b pin freq resolution channel).mp hattached
  have howner := (channelOwner_eq_none_iff hchannel).mpr hfree
  unfold attachChannel
  rw [if_neg (by omega), if_neg (usable_iff.mp husable), if_neg (mt ledcSlot_isSome.mp hpin), howner]
  rfl

theorem toNat_ofNat_of_lt_count {channel : Nat} (hlt : channel < kLedcChannelCount) :
    (UInt8.ofNat channel).toNat = channel := by
  simp only [kLedcChannelCount] at hlt
  simp only [UInt8.toNat_ofNat']
  omega

theorem ledcAttach_eq_true_iff (b : Bus) (pin : Pin) (freq : UInt32) (resolution : UInt8) :
    (ledcAttach b pin freq resolution).1 = true ↔
      ¬b.tables.OnLedc pin ∧ Usable freq resolution ∧ ∃ channel, channel ∈ b.tables.freeChannels := by
  unfold ledcAttach
  cases hchannel : firstFreeChannel b.tables with
  | none =>
    exact iff_of_false nofun fun h => firstFreeChannel_eq_none_iff.mp hchannel h.2.2
  | some channel =>
    have hleast := firstFreeChannel_eq_some_iff.mp hchannel
    rw [attachChannel_eq_true_iff, toNat_ofNat_of_lt_count hleast.1.1]
    constructor
    · rintro ⟨-, husable, hpin⟩
      exact ⟨hpin, husable, channel, hleast.1⟩
    · rintro ⟨hpin, husable, -⟩
      exact ⟨hleast.1.1, husable, hpin⟩

/-- A successful `ledcAttach` takes the lowest free channel, and commits one slot. -/
theorem ledcAttach_success {b : Bus} {pin : Pin} {freq : UInt32} {resolution : UInt8}
    (hattached : (ledcAttach b pin freq resolution).1 = true) :
    ∃ channel : UInt8, IsLeast b.tables.freeChannels channel.toNat ∧
      (ledcAttach b pin freq resolution).2 =
        b.commit pin .kAnalogAttach ((b.tables.out pin).attachedTo channel freq resolution) := by
  unfold ledcAttach at hattached ⊢
  cases hchannel : firstFreeChannel b.tables with
  | none => simp [hchannel] at hattached
  | some channel =>
    have hleast := firstFreeChannel_eq_some_iff.mp hchannel
    have hnat := toNat_ofNat_of_lt_count hleast.1.1
    rw [hchannel] at hattached
    refine ⟨UInt8.ofNat channel, hnat.symm ▸ hleast, attachChannel_of_free hattached ?_⟩
    rw [hnat]
    exact hleast.1.2

/-- The pin just attached is the only one on its channel. -/
theorem carries_attachedTo {b : Bus} {pin : Pin} {event : AnalogWriteEvent} {freq : UInt32}
    {resolution channel : UInt8} (hfree : ∀ q, ¬b.tables.Carries channel.toNat q) (q : Pin) :
    (b.commit pin event ((b.tables.out pin).attachedTo channel freq resolution)).tables.Carries
      channel.toNat q ↔ q = pin := by
  unfold AnalogTables.Carries AnalogTables.OnLedc
  rw [commit_out]
  by_cases hq : q = pin
  · subst hq
    simp [AnalogOut.attachedTo]
  · rw [Function.update_of_ne hq]
    exact iff_of_false (hfree q) hq

/-- Only a detach and a DAC write take a pin off LEDC. -/
theorem Move.onLedc {t : AnalogTables} {pin : Pin} {retunes : Bool} {event : AnalogWriteEvent}
    {slot : AnalogOut} (hmove : Move t pin retunes event slot) (hdetach : event ≠ .kAnalogDetach)
    (hdac : event ≠ .kAnalogDac) : slot.attached = true ∧ slot.dac = false := by
  cases hmove with
  | attach hchannel hdetached hsettings => exact ⟨rfl, rfl⟩
  | duty duty hslot => exact (ledcSlot_eq_some.mp hslot).2
  | tone hslot hfreq => exact (ledcSlot_eq_some.mp hslot).2
  | config hslot hfreq hpos hmax => exact (ledcSlot_eq_some.mp hslot).2
  | invert inverted hslot => exact (ledcSlot_eq_some.mp hslot).2
  | detach hslot => exact absurd rfl hdetach
  | dac value => exact absurd rfl hdac
  | dacDisable hslot => exact absurd rfl hdetach

theorem onLedc_commit_of_ne {b : Bus} {pin q : Pin} (hq : q ≠ pin) (event : AnalogWriteEvent)
    (slot : AnalogOut) : (b.commit pin event slot).tables.OnLedc q ↔ b.tables.OnLedc q := by
  rw [AnalogTables.OnLedc, AnalogTables.OnLedc, commit_out, Function.update_of_ne hq]

theorem onLedc_commit_self {b : Bus} {pin : Pin} {event : AnalogWriteEvent} {slot : AnalogOut} :
    (b.commit pin event slot).tables.OnLedc pin ↔ slot.attached = true ∧ slot.dac = false := by
  rw [AnalogTables.OnLedc, commit_out, Function.update_self]

/-- A call with neither of these moves leaves every attached pin attached. -/
theorem Acts.keeps_onLedc {moves : List (Bool × AnalogWriteEvent)} {sets : Bool} {b b' : Bus}
    (h : Acts moves sets b b')
    (hmoves : ∀ m ∈ moves, m.2 ≠ .kAnalogDetach ∧ m.2 ≠ .kAnalogDac) {pin : Pin}
    (hpin : b.tables.OnLedc pin) : b'.tables.OnLedc pin := by
  refine h.invariant (P := fun c => c.tables.OnLedc pin) (fun c c' hact hc => ?_) hpin
  cases hact with
  | commit hmove hmem =>
    rename_i moved retunes event slot
    obtain ⟨hdetach, hdac⟩ := hmoves _ hmem
    by_cases hmoved : pin = moved
    · subst hmoved
      exact onLedc_commit_self.mpr (hmove.onLedc hdetach hdac)
    · exact (onLedc_commit_of_ne hmoved event slot).mpr hc
  | callback fn => exact hc
  | defaults bits hz tone hsets => exact hc

/-- In every state that analog output calls lead to, `ledcAttach` succeeds exactly
    for a pin off LEDC, usable settings and a channel to spare; it then takes the
    lowest free channel and touches no other pin. `ledcChannelPin` names the
    lowest pin on a channel. -/
theorem run_ledcAttach (analog_write_hook : Bool) (calls : List Call) :
    let b := (Bus.initial analog_write_hook).run calls
    (∀ pin freq resolution,
      ((ledcAttach b pin freq resolution).1 = true ↔
        ¬b.tables.OnLedc pin ∧ Usable freq resolution ∧ ∃ channel, channel ∈ b.tables.freeChannels) ∧
      ((ledcAttach b pin freq resolution).1 = true → ∃ channel : UInt8,
        IsLeast b.tables.freeChannels channel.toNat ∧
        (ledcAttach b pin freq resolution).2.tables.out = Function.update b.tables.out pin
          { b.tables.out pin with
            channel, frequency := freq, resolution, attached := true, dac := false } ∧
        ledcChannelPin (ledcAttach b pin freq resolution).2.tables channel.toNat = some pin)) ∧
    ∀ channel : Int,
      (∀ pin, ledcChannelPin b.tables channel = some pin ↔ IsLeast {p | b.tables.Carries channel p} pin) ∧
      (ledcChannelPin b.tables channel = none ↔ ∀ pin, ¬b.tables.Carries channel pin) := by
  intro b
  have hwf : b.tables.WellFormed := Bus.run_initial_wellFormed analog_write_hook calls
  refine ⟨fun pin freq resolution => ⟨ledcAttach_eq_true_iff b pin freq resolution, fun hattached => ?_⟩,
    fun channel => ⟨fun pin => ledcChannelPin_eq_some_iff hwf, ledcChannelPin_eq_none_iff hwf⟩⟩
  obtain ⟨channel, hleast, hafter⟩ := ledcAttach_success hattached
  refine ⟨channel, hleast, by rw [hafter, commit_out]; rfl, ?_⟩
  rw [ledcChannelPin, if_neg (by omega), Int.toNat_natCast, channelOwner_eq_some_iff hleast.1.1, hafter]
  simp only [carries_attachedTo hleast.1.2, Set.ofPred_eq_eq_singleton]
  exact isLeast_singleton

end HostArduino.bus
