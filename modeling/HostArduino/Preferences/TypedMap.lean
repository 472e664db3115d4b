import HostArduino.Preferences.SharedMap

namespace HostArduino.preferences

open Lib

/-- A text that a C string can hold. -/
abbrev CText := { text : List UInt8 // ∀ b ∈ text, b ≠ 0 }

/-- A value that the map can hold. -/
inductive TypedValue where
  | i8 (v : Int8)
  | u8 (v : UInt8)
  | i16 (v : Int16)
  | u16 (v : UInt16)
  | i32 (v : Int32)
  | u32 (v : UInt32)
  | i64 (v : Int64)
  | u64 (v : UInt64)
  | str (text : CText)
  | blob (data : List UInt8)
  deriving DecidableEq

def CText.ofCString (text : List UInt8) : CText :=
  ⟨c_str text, fun b hb => by simpa using List.mem_takeWhile_imp hb⟩

namespace TypedValue

def entry : TypedValue → Entry
  | .i8 v => ⟨.PT_I8, Scalar.int8.encode v⟩
  | .u8 v => ⟨.PT_U8, Scalar.uint8.encode v⟩
  | .i16 v => ⟨.PT_I16, Scalar.int16.encode v⟩
  | .u16 v => ⟨.PT_U16, Scalar.uint16.encode v⟩
  | .i32 v => ⟨.PT_I32, Scalar.int32.encode v⟩
  | .u32 v => ⟨.PT_U32, Scalar.uint32.encode v⟩
  | .i64 v => ⟨.PT_I64, Scalar.int64.encode v⟩
  | .u64 v => ⟨.PT_U64, Scalar.uint64.encode v⟩
  | .str text => ⟨.PT_STR, text.1⟩
  | .blob data => ⟨.PT_BLOB, data⟩

/-- The value as a sketch gets it that asks for a scalar: floats are kept as numbers, and a
    bool as 0 or 1. -/
def scalar : TypedValue → (kind : ScalarKind) → Option kind.Value
  | .i8 v, .char => some v
  | .u8 v, .uchar => some v
  | .u8 v, .bool => some (v != 0)
  | .i16 v, .short => some v
  | .u16 v, .ushort => some v
  | .i32 v, .int => some v
  | .i32 v, .long => some v
  | .u32 v, .uint => some v
  | .u32 v, .ulong => some v
  | .u32 v, .float => some v
  | .i64 v, .long64 => some v
  | .u64 v, .ulong64 => some v
  | .u64 v, .double => some v
  | _, _ => none

def text : TypedValue → Option (List UInt8)
  | .str text => some text.1
  | _ => none

def data : TypedValue → Option (List UInt8)
  | .blob data => some data
  | _ => none

end TypedValue

namespace ScalarKind

def value : (kind : ScalarKind) → kind.Value → TypedValue
  | .char, v => .i8 v
  | .uchar, v => .u8 v
  | .short, v => .i16 v
  | .ushort, v => .u16 v
  | .int, v => .i32 v
  | .uint, v => .u32 v
  | .long, v => .i32 v
  | .ulong, v => .u32 v
  | .long64, v => .i64 v
  | .ulong64, v => .u64 v
  | .float, v => .u32 v
  | .double, v => .u64 v
  | .bool, v => .u8 (if v then 1 else 0)

def size : ScalarKind → Nat
  | .char | .uchar | .bool => 1
  | .short | .ushort => 2
  | .int | .uint | .long | .ulong | .float => 4
  | .long64 | .ulong64 | .double => 8

end ScalarKind

/-- What the shared map is for: begun handles, of which those that are not read-only may
    write, on a map of typed values for each namespace. -/
structure TypedMap (H : Type) where
  handles : H → Option (Name × Bool)
  map : Name → Name → Option TypedValue

namespace TypedMap

variable {H : Type} [DecidableEq H]

def empty : TypedMap H where
  handles _ := none
  map _ _ := none

/-- A change of its namespace's values that a handle may make or not. -/
def edit (t : TypedMap H) (h : H) (change : (Name → Option TypedValue) → Name → Option TypedValue) : TypedMap H :=
  match t.handles h with
  | some (ns, false) => { t with map := Function.update t.map ns (change (t.map ns)) }
  | _ => t

def set (t : TypedMap H) (h : H) (key : Option Name) (v : Option TypedValue) : TypedMap H :=
  match key with
  | none => t
  | some key => t.edit h fun values => Function.update values key v

def apply (t : TypedMap H) (e : H × Call) : TypedMap H :=
  match e.2 with
  | .begin (some (c :: name)) readOnly =>
    { t with handles := Function.update t.handles e.1 (some (c :: name, readOnly)) }
  | .begin _ _ => t
  | .end_ => { t with handles := Function.update t.handles e.1 none }
  | .clear => t.edit e.1 fun _ _ => none
  | .remove key => t.set e.1 key none
  | .putScalar key kind v => t.set e.1 key (some (kind.value v))
  | .putString key (some text) => t.set e.1 key (some (.str (.ofCString text)))
  | .putString _ none => t
  | .putBytes key buf len =>
    if buf = none ∧ 0 < len then t else t.set e.1 key (some (.blob ((buf.getD []).take len)))
  | .get _ => t

def find (t : TypedMap H) (h : H) (key : Option Name) : Option TypedValue :=
  (t.handles h).bind fun begun => key.bind (t.map begun.1)

def writes (t : TypedMap H) (h : H) : Bool :=
  (t.handles h).any fun begun => !begun.2

end TypedMap

/-- All that a handle's operations return, by what is found in a map of typed values. -/
structure Agrees (p : Preferences) (store : Store) (writes : Bool) (find : Option Name → Option TypedValue) :
    Prop where
  clear : (p.clear store).2 = writes
  remove : ∀ key, (p.remove store key).2 = (writes && (find key).isSome)
  isKey : ∀ key, p.isKey store key = (find key).isSome
  getType : ∀ key, p.getType store key = ((find key).map fun v => v.entry.type).getD .PT_INVALID
  putScalar : ∀ key (kind : ScalarKind) v,
    (kind.put p store key v).2 = if writes && key.isSome then kind.size else 0
  putString : ∀ key text,
    (p.putString store key (some text)).2 = if writes && key.isSome then (c_str text).length else 0
  putBytes : ∀ key buf len, (p.putBytes store key buf len).2 =
    if writes && key.isSome && (buf.isSome || len == 0) then len else 0
  getScalar : ∀ key (kind : ScalarKind) d, kind.get p store key d = ((find key).bind (·.scalar kind)).getD d
  getString : ∀ key d, p.getString store key d = ((find key).bind TypedValue.text).getD d
  getStringInto : ∀ key maxLen,
    p.getStringInto store key true maxLen = (((find key).bind TypedValue.text).getD []).take (maxLen - 1)
  getBytesLength : ∀ key, p.getBytesLength store key = (((find key).bind TypedValue.data).getD []).length
  getBytes : ∀ key maxLen,
    p.getBytes store key true maxLen = (((find key).bind TypedValue.data).getD []).take maxLen

/-- The store holds exactly the typed values, each as its entry. -/
structure Represents {H : Type} (w : World H) (t : TypedMap H) : Prop where
  handles : ∀ h, match t.handles h with
    | some (ns, readOnly) => w.handles h = ⟨ns, true, readOnly⟩
    | none => (w.handles h).started_ = false
  store : ∀ ns key, w.store ns key = (t.map ns key).map TypedValue.entry

theorem remove_eq (p : Preferences) (store : Store) (key : Option Name) :
    (p.remove store key).1 =
      match p.ready_to_write key with
      | none => store
      | some key => store.write p.ns_ key none := by
  cases key with
  | none => simp [Preferences.remove, Preferences.ready_to_write]
  | some key =>
    simp only [Preferences.remove, Preferences.ready_to_write]
    cases p.started_ <;> cases p.read_only_ <;> rfl

theorem ScalarKind.put_eq (p : Preferences) (store : Store) (key : Option Name) (kind : ScalarKind)
    (v : kind.Value) :
    kind.put p store key v =
      match p.ready_to_write key with
      | none => (store, 0)
      | some key => (store.write p.ns_ key (some (kind.value v).entry), kind.size) := by
  cases kind <;> rfl

theorem putString_none (p : Preferences) (store : Store) (key : Option Name) :
    p.putString store key none = (store, 0) := by
  unfold Preferences.putString
  cases p.ready_to_write key <;> rfl

theorem putString_eq (p : Preferences) (store : Store) (key : Option Name) (text : List UInt8) :
    p.putString store key (some text) =
      match p.ready_to_write key with
      | none => (store, 0)
      | some key => (store.write p.ns_ key (some ⟨.PT_STR, c_str text⟩), (c_str text).length) := by
  unfold Preferences.putString
  cases p.ready_to_write key <;> rfl

theorem putBytes_eq (p : Preferences) (store : Store) (key : Option Name) (buf : Option (List UInt8)) (len : Nat) :
    p.putBytes store key buf len =
      if buf = none ∧ 0 < len then (store, 0)
      else
        match p.ready_to_write key with
        | none => (store, 0)
        | some key => (store.write p.ns_ key (some ⟨.PT_BLOB, (buf.getD []).take len⟩), len) := by
  rw [Preferences.putBytes]
  cases p.ready_to_write key with
  | none => exact (ite_self _).symm
  | some key => rfl

theorem getScalar_eq {α : Type} {c : Scalar α} {expected : PreferenceType} {read : TypedValue → Option α}
    (hread : ∀ v, read v = if v.entry.type ≠ expected then none else c.decode v.entry.bytes)
    {p : Preferences} {store : Store} {key : Option Name} {found : Option TypedValue}
    (hfind : p.find store key = found.map TypedValue.entry) (d : α) :
    Preferences.getScalar c p store key expected d = (found.bind read).getD d := by
  rw [Preferences.getScalar, hfind]
  cases found with
  | none => rfl
  | some v =>
    simp only [Option.map_some, Option.bind_some, hread]
    split <;> rfl

/-- A getter of a scalar reads the values of its type, and no others. -/
theorem ScalarKind.get_eq {p : Preferences} {store : Store} {key : Option Name} {found : Option TypedValue}
    (hfind : p.find store key = found.map TypedValue.entry) (kind : ScalarKind) (d : kind.Value) :
    kind.get p store key d = (found.bind (·.scalar kind)).getD d := by
  cases kind with
  | bool =>
    have hread : ∀ v : TypedValue, v.scalar .uchar =
        if v.entry.type ≠ .PT_U8 then none else Scalar.uint8.decode v.entry.bytes := by
      intro v
      cases v <;> simp [TypedValue.scalar, TypedValue.entry, Scalar.decode_encode]
    have hbool : found.bind (·.scalar .bool) = (found.bind (·.scalar .uchar)).map (· != 0) := by
      cases found with
      | none => rfl
      | some v => cases v <;> rfl
    change (Preferences.getScalar .uint8 p store key .PT_U8 (if d then 1 else 0) != 0) = _
    rw [getScalar_eq hread hfind, hbool]
    cases found.bind (·.scalar .uchar) with
    | none => cases d <;> rfl
    | some v => rfl
  | _ =>
    refine getScalar_eq (fun v => ?_) hfind d
    cases v <;> simp [TypedValue.scalar, TypedValue.entry, Scalar.decode_encode]

/-- The bytes that are copied into a buffer of `maxLen`. -/
theorem take_min (data : List UInt8) (maxLen : Nat) :
    data.take (if data.length ≤ maxLen then data.length else maxLen) = data.take maxLen := by
  split
  · rename_i hroom
    rw [List.take_length, List.take_of_length_le hroom]
  · rfl

/-- The same where one byte is left for the NUL. -/
theorem take_length_or (text : List UInt8) {maxLen : Nat} (hroom : maxLen ≠ 0) :
    text.take (if text.length + 1 ≤ maxLen then text.length else maxLen - 1) = text.take (maxLen - 1) := by
  have hfits : text.length + 1 ≤ maxLen ↔ text.length ≤ maxLen - 1 := by omega
  simp only [hfits, take_min]

namespace Represents

variable {H : Type} [DecidableEq H] {w : World H} {t : TypedMap H}

omit [DecidableEq H] in
theorem find (h : Represents w t) (i : H) (key : Option Name) :
    (w.handles i).find w.store key = (t.find i key).map TypedValue.entry := by
  have hhandle := h.handles i
  rw [TypedMap.find]
  cases hbegun : t.handles i with
  | none =>
    rw [hbegun] at hhandle
    simp [Preferences.find, hhandle]
  | some begun =>
    obtain ⟨ns, readOnly⟩ := begun
    rw [hbegun] at hhandle
    cases key with
    | none => simp [Preferences.find, hhandle]
    | some key => simp [Preferences.find, hhandle, h.store]

omit [DecidableEq H] in
theorem ready_to_write (h : Represents w t) (i : H) (key : Option Name) :
    (w.handles i).ready_to_write key = if t.writes i then key else none := by
  have hhandle := h.handles i
  rw [TypedMap.writes]
  cases hbegun : t.handles i with
  | none =>
    rw [hbegun] at hhandle
    simp [Preferences.ready_to_write, hhandle]
  | some begun =>
    obtain ⟨ns, readOnly⟩ := begun
    rw [hbegun] at hhandle
    simp [Preferences.ready_to_write, hhandle]

omit [DecidableEq H] in
theorem ns_eq (h : Represents w t) {i : H} {begun : Name × Bool} (hbegun : t.handles i = some begun) :
    w.handles i = ⟨begun.1, true, begun.2⟩ := by
  have hhandle := h.handles i
  rw [hbegun] at hhandle
  exact hhandle

omit [DecidableEq H] in
theorem store_edit (h : Represents w t) {i : H} {begun : Name × Bool} (hbegun : t.handles i = some begun)
    (hwritable : begun.2 = false) (change : (Name → Option TypedValue) → Name → Option TypedValue)
    {values : Name → Option TypedValue} (hvalues : change (t.map begun.1) = values) :
    Represents { w with store := Function.update w.store begun.1 fun key => (values key).map TypedValue.entry }
      (t.edit i change) := by
  obtain ⟨ns, readOnly⟩ := begun
  obtain rfl : readOnly = false := hwritable
  rw [TypedMap.edit, hbegun]
  refine ⟨h.handles, fun ns' key => ?_⟩
  by_cases hns : ns' = ns
  · subst hns
    simp [hvalues]
  · simp [Function.update_of_ne hns, h.store]

omit [DecidableEq H] in
/-- A put or a remove of an entry is a change of the map, for a handle that may make it. -/
theorem set (h : Represents w t) (i : H) (key : Option Name) (v : Option TypedValue) {after : Store}
    (hafter : after = match (w.handles i).ready_to_write key with
      | none => w.store
      | some key => w.store.write (w.handles i).ns_ key (v.map TypedValue.entry)) :
    Represents { w with store := after } (t.set i key v) := by
  rw [h.ready_to_write] at hafter
  cases key with
  | none =>
    rw [ite_self] at hafter
    rw [hafter]
    exact h
  | some key =>
    rw [TypedMap.set]
    cases hbegun : t.handles i with
    | none =>
      rw [TypedMap.writes, hbegun] at hafter
      rw [TypedMap.edit, hbegun, hafter]
      exact h
    | some begun =>
      obtain ⟨ns, readOnly⟩ := begun
      cases readOnly with
      | true =>
        rw [TypedMap.writes, hbegun] at hafter
        rw [TypedMap.edit, hbegun, hafter]
        exact h
      | false =>
        rw [TypedMap.writes, hbegun, h.ns_eq hbegun] at hafter
        have hstore : after = Function.update w.store ns fun key' =>
            (Function.update (t.map ns) key v key').map TypedValue.entry := by
          refine hafter.trans (congrArg (Function.update w.store ns) (funext fun key' => ?_))
          by_cases hkey : key' = key
          · subst hkey
            rw [Function.update_self, Function.update_self]
          · rw [Function.update_of_ne hkey, Function.update_of_ne hkey, h.store]
        rw [hstore]
        exact h.store_edit hbegun rfl _ rfl

/-- A handle is begun, or ended. -/
theorem handle (h : Represents w t) (i : H) {p : Preferences} (begun : Option (Name × Bool))
    (hp : match begun with
      | some (ns, readOnly) => p = ⟨ns, true, readOnly⟩
      | none => p.started_ = false) :
    Represents { w with handles := Function.update w.handles i p }
      { t with handles := Function.update t.handles i begun } := by
  refine ⟨fun j => ?_, h.store⟩
  by_cases hj : j = i
  · subst hj
    simpa only [Function.update_self] using hp
  · simpa only [Function.update_of_ne hj] using h.handles j

omit [DecidableEq H] in
theorem clear (h : Represents w t) (i : H) :
    Represents { w with store := ((w.handles i).clear w.store).1 } (t.edit i fun _ _ => none) ∧
      ((w.handles i).clear w.store).2 = t.writes i := by
  have hhandle := h.handles i
  cases hbegun : t.handles i with
  | none =>
    rw [hbegun] at hhandle
    simpa [Preferences.clear, TypedMap.edit, TypedMap.writes, hbegun, hhandle] using h
  | some begun =>
    obtain ⟨ns, readOnly⟩ := begun
    rw [hbegun] at hhandle
    cases readOnly with
    | true => simpa [Preferences.clear, TypedMap.edit, TypedMap.writes, hbegun, hhandle] using h
    | false =>
      have hcleared := h.store_edit hbegun rfl (fun _ _ => none) rfl
      simpa [Preferences.clear, TypedMap.writes, hbegun, hhandle] using hcleared

theorem apply (h : Represents w t) (e : H × Call) : Represents (w.apply e) (t.apply e) := by
  obtain ⟨i, call⟩ := e
  cases call with
  | begin name readOnly =>
    match name with
    | none | some [] =>
      simp only [World.apply, Preferences.begin, Function.update_eq_self]
      exact h
    | some (c :: name) => exact h.handle i (some (c :: name, readOnly)) rfl
  | end_ => exact h.handle i none rfl
  | clear => exact (h.clear i).1
  | remove key => exact h.set i key none (remove_eq _ _ _)
  | putScalar key kind v =>
    refine h.set i key (some (kind.value v)) ?_
    dsimp only
    rw [ScalarKind.put_eq]
    cases (w.handles i).ready_to_write key <;> rfl
  | putString key text =>
    cases text with
    | none =>
      simp only [World.apply, putString_none]
      exact h
    | some text =>
      refine h.set i key (some (.str (.ofCString text))) ?_
      dsimp only
      rw [putString_eq]
      cases (w.handles i).ready_to_write key <;> rfl
  | putBytes key buf len =>
    simp only [World.apply, TypedMap.apply, putBytes_eq]
    split
    · exact h
    · refine h.set i key (some (.blob ((buf.getD []).take len))) ?_
      cases (w.handles i).ready_to_write key <;> rfl
  | get key => exact h

omit [DecidableEq H] in
/-- What the operations return is what the map says. -/
theorem agrees (h : Represents w t) (i : H) : Agrees (w.handles i) w.store (t.writes i) (t.find i) where
  clear := (h.clear i).2
  remove key := by
    have hhandle := h.handles i
    cases key with
    | none => simp [Preferences.remove, TypedMap.find]
    | some key =>
      cases hbegun : t.handles i with
      | none =>
        rw [hbegun] at hhandle
        simp [Preferences.remove, TypedMap.writes, TypedMap.find, hbegun, hhandle]
      | some begun =>
        obtain ⟨ns, readOnly⟩ := begun
        rw [hbegun] at hhandle
        cases readOnly <;> simp [Preferences.remove, TypedMap.writes, TypedMap.find, hbegun, hhandle, h.store]
  isKey key := by rw [Preferences.isKey, h.find, Option.isSome_map]
  getType key := by rw [Preferences.getType, h.find, Option.map_map]; rfl
  putScalar key kind v := by
    rw [ScalarKind.put_eq, h.ready_to_write]
    cases t.writes i <;> cases key <;> rfl
  putString key text := by
    rw [putString_eq, h.ready_to_write]
    cases t.writes i <;> cases key <;> rfl
  putBytes key buf len := by
    rw [putBytes_eq, h.ready_to_write]
    cases t.writes i <;> cases key <;> cases buf <;> cases len <;> rfl
  getScalar key kind d := kind.get_eq (h.find i key) d
  getString key d := by
    rw [Preferences.getString, h.find]
    cases t.find i key with
    | none => rfl
    | some v =>
      cases v with
      | str text => exact c_str_of_nul_free text.2
      | _ => rfl
  getStringInto key maxLen := by
    rw [Preferences.getStringInto, h.find]
    by_cases hroom : maxLen = 0
    · simp [hroom]
    · rw [if_neg (by simpa using hroom)]
      cases t.find i key with
      | none => exact List.take_nil.symm
      | some v =>
        cases v with
        | str text => exact take_length_or text.1 hroom
        | _ => exact List.take_nil.symm
  getBytesLength key := by
    rw [Preferences.getBytesLength, h.find]
    cases t.find i key with
    | none => rfl
    | some v => cases v <;> rfl
  getBytes key maxLen := by
    rw [Preferences.getBytes, h.find, if_neg (by decide)]
    cases t.find i key with
    | none => exact List.take_nil.symm
    | some v =>
      cases v with
      | blob data => exact take_min data maxLen
      | _ => exact List.take_nil.symm

end Represents

/-- Handles none of which is begun, and a store without an entry. -/
def World.fresh {H : Type} : World H where
  handles _ := .default
  store _ _ := none

/-- After any operations through any number of handles, the store is a map of typed values,
    kept by a specification in which entries are never bytes, and every operation through
    every handle returns what that map says. -/
theorem typed_map (H : Type) [DecidableEq H] (events : List (H × Call)) :
    Represents (events.foldl World.apply .fresh) (events.foldl TypedMap.apply .empty) ∧
      ∀ h, Agrees ((events.foldl World.apply World.fresh).handles h) (events.foldl World.apply .fresh).store
        ((events.foldl TypedMap.apply .empty).writes h) ((events.foldl TypedMap.apply .empty).find h) := by
  have hrepresents : Represents (events.foldl World.apply .fresh) (events.foldl TypedMap.apply .empty) := by
    induction events using List.reverseRecOn with
    | nil => exact ⟨fun _ => rfl, fun _ _ => rfl⟩
    | append_singleton events e ih =>
      rw [List.foldl_append, List.foldl_append]
      exact ih.apply e
  exact ⟨hrepresents, fun h => hrepresents.agrees h⟩

end HostArduino.preferences
