import HostArduino.Preferences.SharedMap

namespace HostArduino.preferences

open Lib

/-- The types of the values, as a sketch sees them. -/
inductive ValueType where
  | int8
  | uint8
  | int16
  | uint16
  | int32
  | uint32
  | int64
  | uint64
  | float
  | double
  | bool
  | string
  | bytes
  deriving DecidableEq, Repr

namespace ScalarKind

def type : ScalarKind → ValueType
  | .char => .int8
  | .uchar => .uint8
  | .short => .int16
  | .ushort => .uint16
  | .int | .long => .int32
  | .uint | .ulong => .uint32
  | .long64 => .int64
  | .ulong64 => .uint64
  | .float => .float
  | .double => .double
  | .bool => .bool

/-- The type that the kind's `put` notes in the entry. -/
def tag : ScalarKind → PreferenceType
  | .char => .PT_I8
  | .uchar | .bool => .PT_U8
  | .short => .PT_I16
  | .ushort => .PT_U16
  | .int | .long => .PT_I32
  | .uint | .ulong | .float => .PT_U32
  | .long64 => .PT_I64
  | .ulong64 | .double => .PT_U64

/-- What a `get` takes a value for that was put as one of another type: the bits of a
    float for a number, a number for the bits of a float, and the same for a double and
    for a bool. There is nothing else that it would take. -/
def readAs : (put : ScalarKind) → put.Value → (get : ScalarKind) → Option get.Value
  | .float, v, .uint => some v
  | .float, v, .ulong => some v
  | .uint, v, .float => some v
  | .ulong, v, .float => some v
  | .double, v, .ulong64 => some v
  | .ulong64, v, .double => some v
  | .bool, v, .uchar => some (if v then 1 else 0)
  | .uchar, v, .bool => some (v != 0)
  | _, _, _ => none

theorem readAs_of_tag_ne {put get : ScalarKind} (hne : put.tag ≠ get.tag) (v : put.Value) :
    put.readAs v get = none := by
  cases put <;> cases get <;> first | rfl | exact absurd rfl hne

end ScalarKind

/-- The kinds of values, each with its `put` and its `get`. -/
inductive Kind where
  | scalar (kind : ScalarKind)
  | string
  | bytes
  deriving DecidableEq, Repr

namespace Kind

abbrev Value : Kind → Type
  | .scalar kind => kind.Value
  | .string | .bytes => List UInt8

def type : Kind → ValueType
  | .scalar kind => kind.type
  | .string => .string
  | .bytes => .bytes

def tag : Kind → PreferenceType
  | .scalar kind => kind.tag
  | .string => .PT_STR
  | .bytes => .PT_BLOB

def put (key : Name) : (kind : Kind) → kind.Value → Call
  | .scalar kind, v => .putScalar (some key) kind v
  | .string, v => .putString (some key) (some v)
  | .bytes, v => .putBytes (some key) (some v) v.length

/-- What comes back with the default `d`. For bytes that is what the buffer holds
    afterwards which held `d` before. -/
def get (p : Preferences) (store : Store) (key : Name) : (kind : Kind) → kind.Value → kind.Value
  | .scalar kind, d => kind.get p store (some key) d
  | .string, d => p.getString store (some key) d
  | .bytes, d =>
    let out := p.getBytes store (some key) true d.length
    out ++ d.drop out.length

def readAs : (put : Kind) → put.Value → (get : Kind) → Option get.Value
  | .scalar put, v, .scalar get => put.readAs v get
  | _, _, _ => none

theorem eq_string_of_tag {kind : Kind} (htag : kind.tag = .PT_STR) : kind = .string := by
  cases kind with
  | scalar kind => cases kind <;> cases htag
  | string => rfl
  | bytes => cases htag

theorem eq_bytes_of_tag {kind : Kind} (htag : kind.tag = .PT_BLOB) : kind = .bytes := by
  cases kind with
  | scalar kind => cases kind <;> cases htag
  | string => cases htag
  | bytes => rfl

theorem readAs_of_tag_ne {put get : Kind} (hne : put.tag ≠ get.tag) (v : put.Value) :
    put.readAs v get = none := by
  cases put with
  | scalar put =>
    cases get with
    | scalar get => exact ScalarKind.readAs_of_tag_ne hne v
    | string => rfl
    | bytes => rfl
  | string => rfl
  | bytes => rfl

end Kind

section OtherTag

variable {p : Preferences} {store : Store} {ns key : Name} {e : Entry}

theorem getScalar_of_tag_ne {α : Type} {c : Scalar α} {t : PreferenceType} (hbegun : Begun p ns)
    (hentry : store ns key = some e) (hne : e.type ≠ t) (d : α) :
    Preferences.getScalar c p store (some key) t d = d := by
  rw [getScalar_found hbegun hentry, if_pos hne]

theorem ScalarKind.get_of_tag_ne (hbegun : Begun p ns) (hentry : store ns key = some e)
    (kind : ScalarKind) (hne : e.type ≠ kind.tag) (d : kind.Value) :
    kind.get p store (some key) d = d := by
  cases kind with
  | bool =>
    change (Preferences.getScalar .uint8 p store (some key) .PT_U8 (if d then 1 else 0) != 0) = d
    rw [getScalar_of_tag_ne (t := .PT_U8) hbegun hentry hne]
    cases d <;> rfl
  | _ => exact getScalar_of_tag_ne hbegun hentry hne d

theorem getString_of_tag_ne (hbegun : Begun p ns) (hentry : store ns key = some e)
    (hne : e.type ≠ .PT_STR) (d : List UInt8) : p.getString store (some key) d = d := by
  rw [getString_found hbegun hentry, if_pos hne]

theorem getStringInto_of_tag_ne (hbegun : Begun p ns) (hentry : store ns key = some e)
    (hne : e.type ≠ .PT_STR) (out : Bool) (maxLen : Nat) :
    p.getStringInto store (some key) out maxLen = [] := by
  by_cases hnone : (!out || maxLen == 0) = true
  · exact if_pos hnone
  · obtain ⟨rfl, hroom⟩ : out = true ∧ maxLen ≠ 0 := by simpa using hnone
    rw [getStringInto_found hbegun hentry (Nat.pos_of_ne_zero hroom), if_pos hne]

theorem getBytesLength_of_tag_ne (hbegun : Begun p ns) (hentry : store ns key = some e)
    (hne : e.type ≠ .PT_BLOB) : p.getBytesLength store (some key) = 0 := by
  rw [getBytesLength_found hbegun hentry, if_pos hne]

theorem getBytes_of_tag_ne (hbegun : Begun p ns) (hentry : store ns key = some e)
    (hne : e.type ≠ .PT_BLOB) (maxLen : Nat) : p.getBytes store (some key) true maxLen = [] := by
  rw [getBytes_found hbegun hentry, if_pos hne]

/-- A get finds nothing under a tag that is not its own. -/
theorem Kind.get_of_tag_ne (hbegun : Begun p ns) (hentry : store ns key = some e)
    (kind : Kind) (hne : e.type ≠ kind.tag) (d : kind.Value) : kind.get p store key d = d := by
  cases kind with
  | scalar kind => exact kind.get_of_tag_ne hbegun hentry hne d
  | string => exact getString_of_tag_ne hbegun hentry hne d
  | bytes =>
    have hout := getBytes_of_tag_ne hbegun hentry hne (List.length d)
    change p.getBytes store (some key) true (List.length d) ++
      List.drop (p.getBytes store (some key) true (List.length d)).length d = d
    rw [hout]
    rfl

end OtherTag

section SharedTag

variable {p q : Preferences} {store later : Store} {ns key : Name}

theorem ScalarKind.put_tag (hwritable : Writable p ns) (kind : ScalarKind) (v : kind.Value) :
    ∃ bytes, (kind.put p store (some key) v).1 ns key = some ⟨kind.tag, bytes⟩ := by
  cases kind <;> exact ⟨_, putScalar_entry hwritable⟩

/-- Kinds of different types that note the same tag read each other's values. -/
theorem ScalarKind.get_of_tag_eq (hwritable : Writable p ns) (hbegun : Begun q ns)
    (put get : ScalarKind) (htypes : put.type ≠ get.type) (htag : put.tag = get.tag)
    (v : put.Value) (d : get.Value)
    (hkept : later ns key = (put.put p store (some key) v).1 ns key) :
    get.get q later (some key) d = (put.readAs v get).getD d := by
  cases put with
  | float =>
    cases get with
    | float => exact absurd rfl htypes
    | uint | ulong => exact getScalar_of_entry hbegun (hkept.trans (putScalar_entry hwritable)) d
    | _ => cases htag
  | uint | ulong =>
    cases get with
    | uint | ulong => exact absurd rfl htypes
    | float => exact getScalar_of_entry hbegun (hkept.trans (putScalar_entry hwritable)) d
    | _ => cases htag
  | double =>
    cases get with
    | double => exact absurd rfl htypes
    | ulong64 => exact getScalar_of_entry hbegun (hkept.trans (putScalar_entry hwritable)) d
    | _ => cases htag
  | ulong64 =>
    cases get with
    | ulong64 => exact absurd rfl htypes
    | double => exact getScalar_of_entry hbegun (hkept.trans (putScalar_entry hwritable)) d
    | _ => cases htag
  | bool =>
    cases get with
    | bool => exact absurd rfl htypes
    | uchar => exact getScalar_of_entry hbegun (hkept.trans (putScalar_entry hwritable)) d
    | _ => cases htag
  | uchar =>
    cases get with
    | uchar => exact absurd rfl htypes
    | bool =>
      have hread := getScalar_of_entry hbegun (hkept.trans (putScalar_entry hwritable)) (if d then 1 else 0)
      exact congrArg (· != 0) hread
    | _ => cases htag
  | char | short | ushort | int | long | long64 =>
    cases get <;> first | exact absurd rfl htypes | cases htag

theorem Kind.put_tag {H : Type} [DecidableEq H] {w : World H} {h : H}
    (hwritable : Writable (w.handles h) ns) (key : Name) (kind : Kind) (v : kind.Value) :
    ∃ bytes, (w.apply (h, kind.put key v)).store ns key = some ⟨kind.tag, bytes⟩ := by
  cases kind with
  | scalar kind => exact kind.put_tag hwritable v
  | string => exact ⟨_, putString_entry hwritable v⟩
  | bytes => exact ⟨_, putBytes_entry hwritable v⟩

/-- Whatever is put as one type, a get of another type gives what it takes that for, and
    else the default. -/
theorem Kind.get_of_type_ne {H : Type} [DecidableEq H] {w w' : World H} {h : H}
    (hwritable : Writable (w.handles h) ns) {put get : Kind} {v : put.Value}
    (hleads : w.LeadsTo h (put.put key v) ns key w') (hbegun : Begun q ns)
    (htypes : put.type ≠ get.type) (d : get.Value) :
    get.get q w'.store key d = (put.readAs v get).getD d := by
  by_cases htag : put.tag = get.tag
  · cases get with
    | scalar get =>
      cases put with
      | scalar put => exact put.get_of_tag_eq hwritable hbegun get htypes htag v d hleads.entry
      | string => cases get <;> cases htag
      | bytes => cases get <;> cases htag
    | string => exact absurd (congrArg Kind.type (eq_string_of_tag htag)) htypes
    | bytes => exact absurd (congrArg Kind.type (eq_bytes_of_tag htag)) htypes
  · obtain ⟨bytes, hput⟩ := put.put_tag hwritable key v
    rw [get.get_of_tag_ne hbegun (hleads.entry.trans hput) htag, readAs_of_tag_ne htag]
    rfl

theorem getD_eq_iff {α : Type} {found : Option α} {d : α} :
    found.getD d = d ↔ ∀ x, found = some x → x = d := by
  cases found with
  | none => exact iff_of_true rfl nofun
  | some x => simp

end SharedTag

/-- A get of one type on a key that was last put as another type gives the default
    exactly when it does not take the value for anything but the default. Only a float and
    a 32-bit number, a double and a 64-bit number, and a bool and an 8-bit number, none of
    them signed, are taken for each other; a string and bytes are taken for nothing, and
    nothing for them. -/
theorem get_other_type_iff {H : Type} [DecidableEq H] (w w' : World H) (h g : H) (ns key : Name)
    (put get : Kind) (v : put.Value) (d : get.Value) (htypes : put.type ≠ get.type)
    (hwritable : Writable (w.handles h) ns) (hleads : w.LeadsTo h (put.put key v) ns key w')
    (hbegun : Begun (w'.handles g) ns) :
    (get.get (w'.handles g) w'.store key d = d ↔ ∀ x, put.readAs v get = some x → x = d) ∧
      (get = .string → ∀ out maxLen, (w'.handles g).getStringInto w'.store (some key) out maxLen = []) ∧
      (get = .bytes → (w'.handles g).getBytesLength w'.store (some key) = 0) := by
  obtain ⟨bytes, hput⟩ := put.put_tag hwritable key v
  have hentry := hleads.entry.trans hput
  refine ⟨?_, ?_, ?_⟩
  · rw [Kind.get_of_type_ne hwritable hleads hbegun htypes]
    exact getD_eq_iff
  · rintro rfl out maxLen
    refine getStringInto_of_tag_ne hbegun hentry (fun htag => ?_) out maxLen
    exact htypes (congrArg Kind.type (Kind.eq_string_of_tag htag))
  · rintro rfl
    refine getBytesLength_of_tag_ne hbegun hentry fun htag => ?_
    exact htypes (congrArg Kind.type (Kind.eq_bytes_of_tag htag))

/-- One handle that may write, on an empty store. -/
def opened : World Unit where
  handles _ := (Preferences.default.begin (some [0x61]) false).1
  store _ _ := none

theorem opened_writable : Writable (opened.handles ()) [0x61] := ⟨rfl, rfl, rfl⟩

/-- What one put through it leaves. -/
def after (kind : Kind) (v : kind.Value) : World Unit :=
  opened.apply ((), kind.put [0x6b] v)

theorem opened_after (kind : Kind) (v : kind.Value) :
    opened.LeadsTo () (kind.put [0x6b] v) [0x61] [0x6b] (after kind v) :=
  ⟨[], trivial, rfl⟩

/-- `putUInt` of 42 and `getString` with the default "d" give "d". -/
theorem get_other_type_string :
    Kind.get ((after (.scalar .uint) 42).handles ()) (after (.scalar .uint) 42).store [0x6b] .string [0x64] =
      [0x64] :=
  (get_other_type_iff opened (after (.scalar .uint) 42) () () [0x61] [0x6b] (.scalar .uint) .string 42 [0x64]
    nofun opened_writable (opened_after _ _) ⟨rfl, rfl⟩).1.mpr nofun

/-- `putFloat` of 1.0 and `getUInt` with the default 0 give the bits of 1.0. -/
theorem float_read_as_uint :
    Kind.type (.scalar .float) ≠ Kind.type (.scalar .uint) ∧
      Kind.get ((after (.scalar .float) 0x3F800000).handles ()) (after (.scalar .float) 0x3F800000).store
        [0x6b] (.scalar .uint) 0 = (0x3F800000 : UInt32) := by
  have htypes : Kind.type (.scalar .float) ≠ Kind.type (.scalar .uint) := nofun
  have hbegun : Begun ((after (.scalar .float) 0x3F800000).handles ()) [0x61] := ⟨rfl, rfl⟩
  refine ⟨htypes, ?_⟩
  exact Kind.get_of_type_ne opened_writable (opened_after (.scalar .float) 0x3F800000) hbegun htypes 0

end HostArduino.preferences
