import HostArduino.Bus.Analog

namespace HostArduino.bus

/-- The LEDC notes, octave 8 as `ledcWriteNote` tables them. -/
inductive note_t where
  | NOTE_C | NOTE_Cs | NOTE_D | NOTE_Eb | NOTE_E | NOTE_F
  | NOTE_Fs | NOTE_G | NOTE_Gs | NOTE_A | NOTE_Bb | NOTE_B | NOTE_MAX
  deriving DecidableEq, Repr

/-- Attach `pin` to `channel`. When the channel is already carrying another pin
    the frequency and resolution arguments are ignored. The slot's duty and
    inversion are left as they were. -/
def attachChannel (b : Bus) (pin : Pin) (freq : UInt32) (resolution channel : UInt8) : Bool × Bus :=
  if channel.toNat ≥ kLedcChannelCount then (false, b)
  else if freq = 0 ∨ resolution = 0 ∨ resolution > kLedcMaxResolution then (false, b)
  else if (ledcSlot b.tables pin).isSome then (false, b)
  else
    let sharing := channelOwner b.tables channel.toNat
    let frequency := sharing.elim freq fun owner => (b.tables.out owner).frequency
    let resolution := sharing.elim resolution fun owner => (b.tables.out owner).resolution
    (true, b.commit pin .kAnalogAttach
      { b.tables.out pin with channel, frequency, resolution, attached := true, dac := false })

def writeDuty (b : Bus) (pin : Pin) (duty : UInt32) : Bool × Bus :=
  match ledcSlot b.tables pin with
  | none => (false, b)
  | some slot => (true, b.commit pin .kAnalogWrite { slot with duty := clampDuty duty slot.resolution })

def ledcAttachChannel (b : Bus) (pin : Pin) (freq : UInt32) (resolution channel : UInt8) : Bool × Bus :=
  attachChannel b pin freq resolution channel

def ledcAttach (b : Bus) (pin : Pin) (freq : UInt32) (resolution : UInt8) : Bool × Bus :=
  match firstFreeChannel b.tables with
  | none => (false, b)
  | some channel => attachChannel b pin freq resolution (UInt8.ofNat channel)

def ledcWrite (b : Bus) (pin : Pin) (duty : UInt32) : Bool × Bus :=
  writeDuty b pin duty

/-- The body of the loop over all pins in `ledcWriteChannel`. -/
def ledcWriteChannelStep (channel : UInt8) (duty : UInt32) (r : Bool × Bus) (pin : Pin) : Bool × Bus :=
  match ledcSlot r.2.tables pin with
  | none => r
  | some slot =>
    if slot.channel = channel then
      let (written, b) := writeDuty r.2 pin duty
      (written || r.1, b)
    else r

def ledcWriteChannel (b : Bus) (channel : UInt8) (duty : UInt32) : Bool × Bus :=
  if channel.toNat ≥ kLedcChannelCount then (false, b)
  else (List.finRange kGpioPinCount).foldl (ledcWriteChannelStep channel duty) (false, b)

def ledcWriteTone (b : Bus) (pin : Pin) (freq : UInt32) : UInt32 × Bus :=
  match ledcSlot b.tables pin with
  | none => (0, b)
  | some slot =>
    if freq = 0 then
      -- Silence is an ordinary duty write.
      (0, (writeDuty b pin 0).2)
    else
      (freq, b.commit pin .kAnalogTone { slot with frequency := freq, resolution := 10, duty := 0x1FF })

def note_t.base : note_t → UInt32
  | .NOTE_C => 4186 | .NOTE_Cs => 4435 | .NOTE_D => 4699 | .NOTE_Eb => 4978
  | .NOTE_E => 5274 | .NOTE_F => 5588 | .NOTE_Fs => 5920 | .NOTE_G => 6272
  | .NOTE_Gs => 6645 | .NOTE_A => 7040 | .NOTE_Bb => 7459 | .NOTE_B => 7902
  | .NOTE_MAX => 0

def ledcWriteNote (b : Bus) (pin : Pin) (note : note_t) (octave : UInt8) : UInt32 × Bus :=
  if octave > 8 ∨ note = .NOTE_MAX then (0, b)
  else ledcWriteTone b pin (note.base / ((1 : UInt32) <<< (8 - octave.toUInt32)))

def ledcRead (b : Bus) (pin : Pin) : UInt32 :=
  (ledcSlot b.tables pin).elim 0 AnalogOut.duty

def ledcReadFreq (b : Bus) (pin : Pin) : UInt32 :=
  match ledcSlot b.tables pin with
  | none => 0
  | some slot => if slot.duty = 0 then 0 else slot.frequency

def ledcDetach (b : Bus) (pin : Pin) : Bool × Bus :=
  match ledcSlot b.tables pin with
  | none => (false, b)
  | some slot =>
    (true, b.commit pin .kAnalogDetach
      { slot with attached := false, channel := kNoLedcChannel, duty := 0, inverted := false })

def ledcChangeFrequency (b : Bus) (pin : Pin) (freq : UInt32) (resolution : UInt8) : UInt32 × Bus :=
  match ledcSlot b.tables pin with
  | none => (0, b)
  | some slot =>
    if freq = 0 ∨ resolution = 0 ∨ resolution > kLedcMaxResolution then (0, b)
    else (freq, b.commit pin .kAnalogConfig { slot with frequency := freq, resolution })

def ledcOutputInvert (b : Bus) (pin : Pin) (out_invert : Bool) : Bool × Bus :=
  match ledcSlot b.tables pin with
  | none => (false, b)
  | some slot => (true, b.commit pin .kAnalogConfig { slot with inverted := out_invert })

def runUserFunc (b : Bus) (userFunc : Option Nat) : Bus :=
  userFunc.elim b fun fn => { b with log := b.log ++ [.userFunc fn] }

/-- Both endpoints of a fade land at once, and the completion callback runs
    before the call returns. -/
def ledcFadeImpl (b : Bus) (pin : Pin) (start_duty target_duty : UInt32) (userFunc : Option Nat) :
    Bool × Bus :=
  let (started, b') := writeDuty b pin start_duty
  if !started then (false, b')
  else (true, runUserFunc (writeDuty b' pin target_duty).2 userFunc)

def ledcFade (b : Bus) (pin : Pin) (start_duty target_duty : UInt32) (_max_fade_time_ms : Int32) :
    Bool × Bus :=
  ledcFadeImpl b pin start_duty target_duty none

def ledcFadeWithInterrupt (b : Bus) (pin : Pin) (start_duty target_duty : UInt32)
    (_max_fade_time_ms : Int32) (userFunc : Option Nat) : Bool × Bus :=
  match userFunc with
  | none => ledcFadeImpl b pin start_duty target_duty none
  | some fn => ledcFadeImpl b pin start_duty target_duty (some fn)

def ledcFadeWithInterruptArg (b : Bus) (pin : Pin) (start_duty target_duty : UInt32)
    (_max_fade_time_ms : Int32) (userFunc : Option Nat) : Bool × Bus :=
  ledcFadeImpl b pin start_duty target_duty userFunc

def ledcFadeGamma (b : Bus) (pin : Pin) (start_duty target_duty : UInt32) (max_fade_time_ms : Int32) :
    Bool × Bus :=
  ledcFade b pin start_duty target_duty max_fade_time_ms

def ledcFadeGammaWithInterrupt (b : Bus) (pin : Pin) (start_duty target_duty : UInt32)
    (max_fade_time_ms : Int32) (userFunc : Option Nat) : Bool × Bus :=
  ledcFadeWithInterrupt b pin start_duty target_duty max_fade_time_ms userFunc

def ledcFadeGammaWithInterruptArg (b : Bus) (pin : Pin) (start_duty target_duty : UInt32)
    (max_fade_time_ms : Int32) (userFunc : Option Nat) : Bool × Bus :=
  ledcFadeWithInterruptArg b pin start_duty target_duty max_fade_time_ms userFunc

end HostArduino.bus
