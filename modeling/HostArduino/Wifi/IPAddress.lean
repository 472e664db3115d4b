import HostArduino.Http.Text
import HostArduino.Lib.Spans

namespace HostArduino.wifi

open Lib
open http (Text isspace isdigit readDigits ascii)

structure IPAddress where
  a : UInt8
  b : UInt8
  c : UInt8
  d : UInt8
  deriving DecidableEq, Repr

def IPAddress.zero : IPAddress := ⟨0, 0, 0, 0⟩

/-- What `%u` stores for a number and its sign. C says what it is for a number without a
    minus sign that an `unsigned int` holds, and leaves the rest open. -/
structure Conversion where
  store : Bool → Nat → UInt32
  store_eq : ∀ n, n < 2 ^ 32 → (store false n).toNat = n

/-- The conversion of the GNU library on a 64-bit machine: that of `strtoul`, cut to 32 bits. -/
def Conversion.gnu : Conversion where
  store negative n :=
    if 2 ^ 64 ≤ n then UInt32.ofNat (2 ^ 64 - 1)
    else if negative then UInt32.ofNat (2 ^ 64 - n)
    else UInt32.ofNat n
  store_eq n hn := by
    have hword : ¬2 ^ 64 ≤ n := by omega
    rw [if_neg hword, if_neg Bool.false_ne_true, UInt32.toNat_ofNat', Nat.mod_eq_of_lt hn]

variable (conv : Conversion)

/-- A sign in front of a number, and the rest. -/
def splitSign (s : Text) : Option UInt8 × Text :=
  if s.head? = some 45 ∨ s.head? = some 43 then (s.head?, s.tail) else (none, s)

/-- The directive `%u`; `none` is a matching failure. -/
def scanUnsigned (s : Text) : Option (UInt32 × Text) :=
  let signed := splitSign (s.dropWhile isspace)
  let digits := signed.2.takeWhile isdigit
  if digits = [] then none
  else some (conv.store (signed.1 == some 45) (readDigits 10 0 digits), signed.2.dropWhile isdigit)

/-- The directive `.`. -/
def scanDot : Text → Option Text
  | 46 :: s => some s
  | _ => none

/-- `sscanf(address, "%u.%u.%u.%u", ..)` where it assigns all four. -/
def sscanf (address : Text) : Option (UInt32 × UInt32 × UInt32 × UInt32) := do
  let (a, s) ← scanUnsigned conv address
  let (b, s) ← scanUnsigned conv (← scanDot s)
  let (c, s) ← scanUnsigned conv (← scanDot s)
  let (d, _) ← scanUnsigned conv (← scanDot s)
  some (a, b, c, d)

/-- `none` is a null pointer. -/
def IPAddress.fromString (ip : IPAddress) (address : Option Text) : Bool × IPAddress :=
  match address with
  | none => (false, ip)
  | some address =>
    match sscanf conv address with
    | none => (false, ip)
    | some (a, b, c, d) =>
      if 255 < a ∨ 255 < b ∨ 255 < c ∨ 255 < d then (false, ip)
      else (true, ⟨a.toUInt8, b.toUInt8, c.toUInt8, d.toUInt8⟩)

/-- What `%u` reads: white space, a sign and digits. -/
structure Field where
  spaces : Text
  sign : Option UInt8
  digits : Text
  spaces_isspace : ∀ c ∈ spaces, isspace c = true
  sign_minus_plus : ∀ c ∈ sign, c = 45 ∨ c = 43
  digits_ne_nil : digits ≠ []
  digits_isdigit : ∀ c ∈ digits, isdigit c = true

namespace Field

/-- A number of one digit. -/
def ofDigit (c : UInt8) (hc : isdigit c = true) : Field where
  spaces := []
  sign := none
  digits := [c]
  spaces_isspace := by simp
  sign_minus_plus := by simp
  digits_ne_nil := by simp
  digits_isdigit := by simpa using hc

/-- A byte in decimals. -/
def ofByte (byte : UInt8) : Field where
  spaces := []
  sign := none
  digits := http.formatUnsigned byte.toNat
  spaces_isspace := by simp
  sign_minus_plus := by simp
  digits_ne_nil := (http.formatUnsigned_spec _).2.1
  digits_isdigit := http.isdigit_formatUnsigned _

def text (f : Field) : Text :=
  f.spaces ++ (f.sign.toList ++ f.digits)

def number (f : Field) : Nat :=
  readDigits 10 0 f.digits

def value (f : Field) : UInt32 :=
  conv.store (f.sign == some 45) f.number

/-- A decimal number in 0..255 and nothing else. -/
structure Octet (f : Field) : Prop where
  spaces : f.spaces = []
  sign : f.sign = none
  number_le : f.number ≤ 255

end Field

/-- Four fields with dots between them, and what follows. -/
structure Quad where
  a : Field
  b : Field
  c : Field
  d : Field
  rest : Text
  rest_stops : ∀ c ∈ rest.head?, isdigit c = false

namespace Quad

def text (q : Quad) : Text :=
  q.a.text ++ 46 :: (q.b.text ++ 46 :: (q.c.text ++ 46 :: (q.d.text ++ q.rest)))

/-- What is stored for each field fits into a byte. -/
def Small (q : Quad) : Prop :=
  ∀ f ∈ [q.a, q.b, q.c, q.d], f.value conv ≤ 255

instance (q : Quad) : Decidable (q.Small conv) :=
  inferInstanceAs (Decidable (∀ f ∈ [q.a, q.b, q.c, q.d], f.value conv ≤ 255))

def address (q : Quad) : IPAddress :=
  ⟨(q.a.value conv).toUInt8, (q.b.value conv).toUInt8, (q.c.value conv).toUInt8, (q.d.value conv).toUInt8⟩

/-- Four decimal numbers in 0..255 with dots between them, and nothing else. -/
structure Strict (q : Quad) : Prop where
  octets : ∀ f ∈ [q.a, q.b, q.c, q.d], f.Octet
  rest : q.rest = []

end Quad

/-- The text is an address in dotted decimals. -/
def Dotted (s : Text) (ip : IPAddress) : Prop :=
  ∃ q : Quad, q.Strict ∧ s = q.text ∧
    [ip.a.toNat, ip.b.toNat, ip.c.toNat, ip.d.toNat] = [q.a, q.b, q.c, q.d].map Field.number

/-- The text is more than four numbers: there is white space or a sign in front of one of
    them, one does not fit into an octet although what is stored for it does, or something
    follows the last one. -/
def Loose (s : Text) : Prop :=
  ∃ q : Quad, ¬q.Strict ∧ s = q.text ∧ q.Small conv

namespace Field

variable (f : Field)

/-- Behind the white space stands a sign or a digit. -/
theorem isspace_head (rest : Text) : ∀ c ∈ (f.sign.toList ++ (f.digits ++ rest)).head?, isspace c = false := by
  intro c hc
  cases hsign : f.sign with
  | none =>
    obtain ⟨d, digits, hdigits⟩ := List.exists_cons_of_ne_nil f.digits_ne_nil
    obtain rfl : d = c := by simpa [hsign, hdigits] using hc
    exact (http.isdigit_ne (f.digits_isdigit d (by simp [hdigits]))).1
  | some sign =>
    obtain rfl : sign = c := by simpa [hsign] using hc
    obtain rfl | rfl := f.sign_minus_plus sign hsign <;> rfl

theorem splitSign_text (rest : Text) :
    splitSign (f.sign.toList ++ (f.digits ++ rest)) = (f.sign, f.digits ++ rest) := by
  cases hsign : f.sign with
  | none =>
    obtain ⟨d, digits, hdigits⟩ := List.exists_cons_of_ne_nil f.digits_ne_nil
    obtain ⟨-, hminus, hplus⟩ := http.isdigit_ne (f.digits_isdigit d (by simp [hdigits]))
    simp [splitSign, hdigits, hminus, hplus]
  | some sign => obtain rfl | rfl := f.sign_minus_plus sign hsign <;> simp [splitSign]

/-- A field is read up to the first byte behind its digits. -/
theorem scanUnsigned_text {rest : Text} (hrest : ∀ c ∈ rest.head?, isdigit c = false) :
    scanUnsigned conv (f.text ++ rest) = some (f.value conv, rest) := by
  have hassoc : f.text ++ rest = f.spaces ++ (f.sign.toList ++ (f.digits ++ rest)) := by
    simp only [text, List.append_assoc]
  obtain ⟨-, hdrop⟩ := takeWhile_stops f.spaces_isspace (f.isspace_head rest)
  obtain ⟨htake, hrest⟩ := takeWhile_stops f.digits_isdigit hrest
  simp only [scanUnsigned, hassoc, hdrop, f.splitSign_text, htake, hrest, if_neg f.digits_ne_nil]
  rfl

theorem ext_parts {f g : Field} (hspaces : f.spaces = g.spaces) (hsign : f.sign = g.sign)
    (hdigits : f.digits = g.digits) : f = g := by
  cases f
  cases g
  simp_all

/-- A text starts with one field at most. -/
theorem unique {f g : Field} {rest rest' : Text} (hrest : ∀ c ∈ rest.head?, isdigit c = false)
    (hrest' : ∀ c ∈ rest'.head?, isdigit c = false) (htext : f.text ++ rest = g.text ++ rest') :
    f = g ∧ rest = rest' := by
  simp only [text, List.append_assoc] at htext
  have hspaces : f.spaces = g.spaces := by
    rw [← (takeWhile_stops f.spaces_isspace (f.isspace_head rest)).1, htext]
    exact (takeWhile_stops g.spaces_isspace (g.isspace_head rest')).1
  rw [hspaces, List.append_cancel_left_eq] at htext
  have hsign : f.sign = g.sign := by
    have hsplit := congrArg (fun s => (splitSign s).1) htext
    simpa only [splitSign_text] using hsplit
  rw [hsign, List.append_cancel_left_eq] at htext
  have hdigits : f.digits = g.digits := by
    rw [← (takeWhile_stops f.digits_isdigit hrest).1, htext]
    exact (takeWhile_stops g.digits_isdigit hrest').1
  rw [hdigits, List.append_cancel_left_eq] at htext
  exact ⟨ext_parts hspaces hsign hdigits, htext⟩

end Field

theorem splitSign_append (s : Text) :
    (splitSign s).1.toList ++ (splitSign s).2 = s ∧ ∀ c ∈ (splitSign s).1, c = 45 ∨ c = 43 := by
  unfold splitSign
  split
  · rename_i hsign
    cases s with
    | nil => simp at hsign
    | cons c s => exact ⟨rfl, by simpa using hsign⟩
  · exact ⟨rfl, by simp⟩

/-- What the directive has read is a field. -/
theorem exists_field {s rest : Text} {value : UInt32} (hscan : scanUnsigned conv s = some (value, rest)) :
    ∃ f : Field, s = f.text ++ rest ∧ (∀ c ∈ rest.head?, isdigit c = false) ∧ f.value conv = value := by
  simp only [scanUnsigned, Option.ite_none_left_eq_some, Option.some.injEq, Prod.mk.injEq] at hscan
  obtain ⟨hne, hvalue, rfl⟩ := hscan
  obtain ⟨hsplit, hsign⟩ := splitSign_append (s.dropWhile isspace)
  refine ⟨⟨s.takeWhile isspace, (splitSign (s.dropWhile isspace)).1,
    (splitSign (s.dropWhile isspace)).2.takeWhile isdigit, ?_, hsign, hne, ?_⟩, ?_, stops_dropWhile _ _, hvalue⟩
  · exact fun c hc => List.mem_takeWhile_imp hc
  · exact fun c hc => List.mem_takeWhile_imp hc
  · simp only [Field.text, List.append_assoc, List.takeWhile_append_dropWhile, hsplit]

namespace Quad

variable (q : Quad)

theorem stops_dot (s : Text) : ∀ c ∈ (46 :: s : Text).head?, isdigit c = false := by
  intro c hc
  obtain rfl : 46 = c := by simpa using hc
  rfl

theorem sscanf_text :
    sscanf conv q.text = some (q.a.value conv, q.b.value conv, q.c.value conv, q.d.value conv) := by
  simp only [sscanf, text, Field.scanUnsigned_text conv _ (stops_dot _), scanDot,
    q.d.scanUnsigned_text conv q.rest_stops, Option.bind_eq_bind, Option.bind_some]

theorem unique {q q' : Quad} (htext : q.text = q'.text) : q = q' := by
  obtain ⟨a, b, c, d, rest, hrest⟩ := q
  obtain ⟨a', b', c', d', rest', hrest'⟩ := q'
  simp only [text] at htext
  obtain ⟨rfl, hrestA⟩ := Field.unique (stops_dot _) (stops_dot _) htext
  obtain ⟨rfl, hrestB⟩ := Field.unique (stops_dot _) (stops_dot _) (List.cons.inj hrestA).2
  obtain ⟨rfl, hrestC⟩ := Field.unique (stops_dot _) (stops_dot _) (List.cons.inj hrestB).2
  obtain ⟨rfl, rfl⟩ := Field.unique hrest hrest' (List.cons.inj hrestC).2
  rfl

end Quad

theorem exists_scanDot {s rest : Text} (hscan : scanDot s = some rest) : s = 46 :: rest := by
  unfold scanDot at hscan
  split at hscan
  · rw [Option.some.inj hscan]
  · cases hscan

theorem exists_quad {s : Text} {a b c d : UInt32} (hscan : sscanf conv s = some (a, b, c, d)) :
    ∃ q : Quad, s = q.text ∧ q.a.value conv = a ∧ q.b.value conv = b ∧ q.c.value conv = c ∧
      q.d.value conv = d := by
  simp only [sscanf, Option.bind_eq_bind, Option.bind_eq_some_iff, Prod.exists, Option.some.injEq,
    Prod.mk.injEq] at hscan
  obtain ⟨a, s₁, hscanA, s₂, hdotA, b, s₃, hscanB, s₄, hdotB, c, s₅, hscanC, s₆, hdotC, d, s₇, hscanD,
    rfl, rfl, rfl, rfl⟩ := hscan
  obtain ⟨fa, rfl, -, rfl⟩ := exists_field conv hscanA
  obtain ⟨fb, rfl, -, rfl⟩ := exists_field conv hscanB
  obtain ⟨fc, rfl, -, rfl⟩ := exists_field conv hscanC
  obtain ⟨fd, rfl, hrest, rfl⟩ := exists_field conv hscanD
  rw [exists_scanDot hdotA, exists_scanDot hdotB, exists_scanDot hdotC]
  exact ⟨⟨fa, fb, fc, fd, s₇, hrest⟩, rfl, rfl, rfl, rfl, rfl⟩

namespace IPAddress

variable (ip : IPAddress)

/-- Four fields are taken as an address if what is stored for each fits into a byte,
    whatever follows them. -/
theorem fromString_text (q : Quad) :
    (q.Small conv → ip.fromString conv (some q.text) = (true, q.address conv)) ∧
      (¬q.Small conv → ip.fromString conv (some q.text) = (false, ip)) := by
  have hsmall : (255 < q.a.value conv ∨ 255 < q.b.value conv ∨ 255 < q.c.value conv ∨ 255 < q.d.value conv) ↔
      ¬q.Small conv := by
    simp only [Quad.Small, List.forall_mem_cons, List.not_mem_nil, false_implies, implies_true, and_true,
      not_and_or, UInt32.not_le]
  constructor
  · intro h
    have hfits : ¬(255 < q.a.value conv ∨ 255 < q.b.value conv ∨ 255 < q.c.value conv ∨ 255 < q.d.value conv) :=
      fun hlarge => hsmall.mp hlarge h
    simp only [fromString, q.sscanf_text, if_neg hfits]
    rfl
  · intro h
    simp only [fromString, q.sscanf_text, if_pos (hsmall.mpr h)]

theorem fromString_eq_true_iff {s : Text} {ip' : IPAddress} :
    ip.fromString conv (some s) = (true, ip') ↔ ∃ q : Quad, s = q.text ∧ q.Small conv ∧ ip' = q.address conv := by
  constructor
  · intro htrue
    cases hscan : sscanf conv s with
    | none => simp [fromString, hscan] at htrue
    | some stored =>
      obtain ⟨a, b, c, d⟩ := stored
      obtain ⟨q, rfl, -⟩ := exists_quad conv hscan
      by_cases hsmall : q.Small conv
      · rw [(ip.fromString_text conv q).1 hsmall] at htrue
        exact ⟨q, rfl, hsmall, (Prod.mk.inj htrue).2.symm⟩
      · rw [(ip.fromString_text conv q).2 hsmall] at htrue
        cases htrue
  · rintro ⟨q, rfl, hsmall, rfl⟩
    exact (ip.fromString_text conv q).1 hsmall

/-- A text that is refused leaves the address as it is. -/
theorem fromString_refused {address : Option Text} (hrefused : (ip.fromString conv address).1 = false) :
    (ip.fromString conv address).2 = ip := by
  unfold fromString at hrefused ⊢
  split
  · rfl
  · split
    · rfl
    · split
      · rfl
      · rename_i hscan hsmall
        simp [hscan, hsmall] at hrefused

end IPAddress

/-- A strict field stores its number. -/
theorem Field.Octet.value_eq {f : Field} (hoctet : f.Octet) :
    (f.value conv).toNat = f.number ∧ f.value conv ≤ 255 := by
  have hle := hoctet.number_le
  have hvalue : (f.value conv).toNat = f.number := by
    rw [Field.value, hoctet.sign]
    exact conv.store_eq _ (by omega)
  refine ⟨hvalue, ?_⟩
  rw [UInt32.le_iff_toNat_le, hvalue]
  exact hle

theorem Quad.Strict.small {q : Quad} (hstrict : q.Strict) : q.Small conv :=
  fun f hf => ((hstrict.octets f hf).value_eq conv).2

theorem Field.Octet.byte_eq {f : Field} (hoctet : f.Octet) {b : UInt8} :
    b = (f.value conv).toUInt8 ↔ b.toNat = f.number := by
  have hle := hoctet.number_le
  rw [← UInt8.toNat_inj, UInt32.toNat_toUInt8, (hoctet.value_eq conv).1, Nat.mod_eq_of_lt (by omega)]

theorem dotted_iff {s : Text} {ip : IPAddress} :
    Dotted s ip ↔ ∃ q : Quad, q.Strict ∧ s = q.text ∧ ip = q.address conv := by
  refine exists_congr fun q => and_congr_right fun hstrict => and_congr_right fun _ => ?_
  have hbyte (f : Field) (hf : f ∈ [q.a, q.b, q.c, q.d]) (b : UInt8) :=
    (hstrict.octets f hf).byte_eq conv (b := b)
  have haddress : ip = q.address conv ↔ ip.a = (q.a.value conv).toUInt8 ∧ ip.b = (q.b.value conv).toUInt8 ∧
      ip.c = (q.c.value conv).toUInt8 ∧ ip.d = (q.d.value conv).toUInt8 := by
    cases ip
    exact IPAddress.mk.injEq .. ▸ Iff.rfl
  rw [haddress, hbyte q.a (by simp), hbyte q.b (by simp), hbyte q.c (by simp), hbyte q.d (by simp)]
  simp only [List.map_cons, List.map_nil, List.cons.injEq, and_true]

/-- The network of a host: `connect` and `beginPacket` to an address, and the resolver. -/
structure Network (σ : Type) where
  connect : IPAddress → UInt16 → σ → Int × σ
  getaddrinfo : Text → σ → Option IPAddress × σ

variable {σ : Type}

/-- The part of `connect(host, port)` behind the resolver. -/
def Network.connectResolved (N : Network σ) (host : Text) (port : UInt16) (w : σ) : Int × σ :=
  match N.getaddrinfo host w with
  | (none, w) => (0, w)
  | (some resolved, w) => N.connect resolved port w

/-- `WiFiClient::connect(host, port)`. -/
def Network.connectHost (N : Network σ) (host : Option Text) (port : UInt16) (w : σ) : Int × σ :=
  match host with
  | none => (0, w)
  | some host =>
    let parsed := IPAddress.zero.fromString conv (some host)
    if parsed.1 then N.connect parsed.2 port w else N.connectResolved host port w

/-- The sending side of a `WiFiUDP`, `sock_` saying whether its socket is open. -/
structure WiFiUDP where
  sock_ : Bool
  tx_buf_ : List UInt8
  tx_addr_ : IPAddress × UInt16
  tx_port_ : UInt16
  deriving DecidableEq, Repr

namespace WiFiUDP

def beginPacket (u : WiFiUDP) (ip : IPAddress) (port : UInt16) : Int × WiFiUDP :=
  if !u.sock_ then (0, u) else (1, { u with tx_buf_ := [], tx_addr_ := (ip, port), tx_port_ := port })

/-- The part of `beginPacket(host, port)` behind the resolver. -/
def beginResolved (getaddrinfo : Text → Option IPAddress) (u : WiFiUDP) (host : Text) (port : UInt16) :
    Int × WiFiUDP :=
  match getaddrinfo host with
  | none => (0, u)
  | some resolved => (1, { u with tx_buf_ := [], tx_addr_ := (resolved, port), tx_port_ := port })

/-- `beginPacket(host, port)`. -/
def beginPacketHost (getaddrinfo : Text → Option IPAddress) (u : WiFiUDP) (host : Option Text)
    (port : UInt16) : Int × WiFiUDP :=
  if !u.sock_ then (0, u)
  else
    match host with
    | none => (0, u)
    | some host =>
      let parsed := IPAddress.zero.fromString conv (some host)
      if parsed.1 then u.beginPacket parsed.2 port else u.beginResolved getaddrinfo host port

end WiFiUDP

/-- `fromString` accepts the addresses in dotted decimals and nothing else. -/
def FromStringCorrect (s : Text) : Prop :=
  ∀ ip ip', IPAddress.fromString conv ip (some s) = (true, ip') ↔ Dotted s ip'

/-- `connect` goes to an address without asking the resolver only where the host is one. -/
def ConnectCorrect (s : Text) : Prop :=
  ∀ (σ : Type) (N : Network σ) (port : UInt16) (w : σ),
    (∀ ip, Dotted s ip → N.connectHost conv (some s) port w = N.connect ip port w) ∧
      ((∀ ip, ¬Dotted s ip) → N.connectHost conv (some s) port w = N.connectResolved s port w)

/-- The same of `beginPacket`. -/
def BeginPacketCorrect (s : Text) : Prop :=
  ∀ (getaddrinfo : Text → Option IPAddress) (u : WiFiUDP) (port : UInt16), u.sock_ = true →
    (∀ ip, Dotted s ip → u.beginPacketHost conv getaddrinfo (some s) port = u.beginPacket ip port) ∧
      ((∀ ip, ¬Dotted s ip) →
        u.beginPacketHost conv getaddrinfo (some s) port = u.beginResolved getaddrinfo s port)

/-- More than four numbers are taken for the four. -/
theorem Loose.accepted {s : Text} (hloose : Loose conv s) :
    (∀ ip, ¬Dotted s ip) ∧ ∃ ip', ∀ ip, IPAddress.fromString conv ip (some s) = (true, ip') := by
  obtain ⟨q, hloose, rfl, hsmall⟩ := hloose
  constructor
  · rintro ip ⟨q', hstrict, htext, -⟩
    rw [← Quad.unique htext] at hstrict
    exact hloose hstrict
  · exact ⟨q.address conv, fun ip => (ip.fromString_text conv q).1 hsmall⟩

theorem fromStringCorrect_iff {s : Text} : FromStringCorrect conv s ↔ ¬Loose conv s := by
  constructor
  · intro hcorrect hloose
    obtain ⟨hdotted, ip', hip'⟩ := hloose.accepted
    exact hdotted ip' ((hcorrect IPAddress.zero ip').mp (hip' _))
  · intro hloose ip ip'
    rw [IPAddress.fromString_eq_true_iff, dotted_iff conv]
    constructor
    · rintro ⟨q, htext, hsmall, haddress⟩
      exact ⟨q, not_not.mp fun hstrict => hloose ⟨q, hstrict, htext, hsmall⟩, htext, haddress⟩
    · rintro ⟨q, hstrict, htext, haddress⟩
      exact ⟨q, htext, hstrict.small conv, haddress⟩

/-- What a correct `fromString` says of a host that is no address. -/
theorem FromStringCorrect.refuses {s : Text} (hcorrect : FromStringCorrect conv s) (hno : ∀ ip, ¬Dotted s ip)
    (ip : IPAddress) : (ip.fromString conv (some s)).1 = false := by
  by_contra htaken
  rw [Bool.not_eq_false] at htaken
  exact hno _ ((hcorrect ip _).mp (Prod.ext htaken rfl))

theorem connectCorrect_iff {s : Text} : ConnectCorrect conv s ↔ ¬Loose conv s := by
  constructor
  · intro hcorrect hloose
    obtain ⟨hdotted, ip', hip'⟩ := hloose.accepted
    have hresolved := (hcorrect Unit ⟨fun _ _ w => (1, w), fun _ w => (none, w)⟩ 80 ()).2 hdotted
    simp [Network.connectHost, Network.connectResolved, hip'] at hresolved
  · intro hloose σ N port w
    have hcorrect := (fromStringCorrect_iff conv).mpr hloose
    constructor
    · intro ip hdotted
      simp only [Network.connectHost, (hcorrect IPAddress.zero ip).mpr hdotted, if_true]
    · intro hno
      simp only [Network.connectHost, hcorrect.refuses conv hno, Bool.false_eq_true, if_false]

theorem beginPacketCorrect_iff {s : Text} : BeginPacketCorrect conv s ↔ ¬Loose conv s := by
  constructor
  · intro hcorrect hloose
    obtain ⟨hdotted, ip', hip'⟩ := hloose.accepted
    have hresolved := (hcorrect (fun _ => none) ⟨true, [], (IPAddress.zero, 0), 0⟩ 80 rfl).2 hdotted
    simp [WiFiUDP.beginPacketHost, WiFiUDP.beginPacket, WiFiUDP.beginResolved, hip'] at hresolved
  · intro hloose getaddrinfo u port hopen
    have hcorrect := (fromStringCorrect_iff conv).mpr hloose
    constructor
    · intro ip hdotted
      simp only [WiFiUDP.beginPacketHost, hopen, (hcorrect IPAddress.zero ip).mpr hdotted, Bool.not_true,
        Bool.false_eq_true, if_false, if_true]
    · intro hno
      simp only [WiFiUDP.beginPacketHost, hopen, hcorrect.refuses conv hno, Bool.not_true, Bool.false_eq_true,
        if_false]

/-- `fromString` accepts an address in dotted decimals and nothing else, and `connect` and
    `beginPacket` ask the resolver for every other host, exactly when the text is not one
    that the scan takes although it is more than four numbers. A text that is refused
    never changes the address. -/
theorem fromString_correct_iff (s : Text) :
    (FromStringCorrect conv s ↔ ¬Loose conv s) ∧ (ConnectCorrect conv s ↔ ¬Loose conv s) ∧
      (BeginPacketCorrect conv s ↔ ¬Loose conv s) ∧
      ∀ ip address, (IPAddress.fromString conv ip address).1 = false →
        (IPAddress.fromString conv ip address).2 = ip :=
  ⟨fromStringCorrect_iff conv, connectCorrect_iff conv, beginPacketCorrect_iff conv,
    fun ip _ => ip.fromString_refused conv⟩

theorem fromString_correct_refused :
    ((⟨10, 0, 0, 1⟩ : IPAddress).fromString .gnu (some (ascii "10.0.256.1"))).2 = ⟨10, 0, 0, 1⟩ :=
  (fromString_correct_iff .gnu (ascii "10.0.256.1")).2.2.2 _ _ (by decide +kernel)

/-- What the scan makes of the host name `1.2.3.4.example.com`. -/
def hostnameQuad : Quad where
  a := .ofDigit 49 rfl
  b := .ofDigit 50 rfl
  c := .ofDigit 51 rfl
  d := .ofDigit 52 rfl
  rest := 46 :: ascii "example.com"
  rest_stops := by simp [isdigit]

/-- A host name that starts like an address. -/
theorem fromString_takes_hostname :
    IPAddress.zero.fromString .gnu (some (ascii "1.2.3.4.example.com")) = (true, ⟨1, 2, 3, 4⟩) ∧
      (∀ ip, ¬Dotted (ascii "1.2.3.4.example.com") ip) ∧
      ¬ConnectCorrect .gnu (ascii "1.2.3.4.example.com") := by
  have hloose : Loose .gnu (ascii "1.2.3.4.example.com") := by
    refine ⟨hostnameQuad, ?_, rfl, by decide +kernel⟩
    exact fun hstrict => absurd hstrict.rest (List.cons_ne_nil _ _)
  exact ⟨by decide +kernel, (hloose.accepted Conversion.gnu).1,
    fun hcorrect => (connectCorrect_iff _).mp hcorrect hloose⟩

end HostArduino.wifi
