import HostArduino.Lib.EventMachine
import HostArduino.Preferences.Preferences
import Mathlib.Data.List.TakeWhile

namespace HostArduino.preferences

open Lib

/-- The kinds of scalars, each with its `put` and its `get`. -/
inductive ScalarKind where
  | char
  | uchar
  | short
  | ushort
  | int
  | uint
  | long
  | ulong
  | long64
  | ulong64
  | float
  | double
  | bool
  deriving DecidableEq, Repr

namespace ScalarKind

abbrev Value : ScalarKind → Type
  | .char => Int8
  | .uchar => UInt8
  | .short => Int16
  | .ushort => UInt16
  | .int | .long => Int32
  | .uint | .ulong | .float => UInt32
  | .long64 => Int64
  | .ulong64 | .double => UInt64
  | .bool => Bool

def put (p : Preferences) (store : Store) (key : Option Name) : (kind : ScalarKind) → kind.Value → Store × Nat
  | .char, v => p.putChar store key v
  | .uchar, v => p.putUChar store key v
  | .short, v => p.putShort store key v
  | .ushort, v => p.putUShort store key v
  | .int, v => p.putInt store key v
  | .uint, v => p.putUInt store key v
  | .long, v => p.putLong store key v
  | .ulong, v => p.putULong store key v
  | .long64, v => p.putLong64 store key v
  | .ulong64, v => p.putULong64 store key v
  | .float, v => p.putFloat store key v
  | .double, v => p.putDouble store key v
  | .bool, v => p.putBool store key v

def get (p : Preferences) (store : Store) (key : Option Name) : (kind : ScalarKind) → kind.Value → kind.Value
  | .char, d => p.getChar store key d
  | .uchar, d => p.getUChar store key d
  | .short, d => p.getShort store key d
  | .ushort, d => p.getUShort store key d
  | .int, d => p.getInt store key d
  | .uint, d => p.getUInt store key d
  | .long, d => p.getLong store key d
  | .ulong, d => p.getULong store key d
  | .long64, d => p.getLong64 store key d
  | .ulong64, d => p.getULong64 store key d
  | .float, d => p.getFloat store key d
  | .double, d => p.getDouble store key d
  | .bool, d => p.getBool store key d

end ScalarKind

/-- An operation on a handle. The getters change nothing. -/
inductive Call where
  | begin (name : Option Name) (readOnly : Bool)
  | end_
  | clear
  | remove (key : Option Name)
  | putScalar (key : Option Name) (kind : ScalarKind) (v : kind.Value)
  | putString (key : Option Name) (v : Option (List UInt8))
  | putBytes (key : Option Name) (buf : Option (List UInt8)) (len : Nat)
  | get (key : Option Name)

/-- The entry that a call is about, if it is about one. -/
def Call.key : Call → Option Name
  | .remove key | .putScalar key _ _ | .putString key _ | .putBytes key _ _ => key
  | _ => none

/-- Handles that share the store. -/
structure World (H : Type) where
  handles : H → Preferences
  store : Store

variable {H : Type} [DecidableEq H]

def World.apply (w : World H) (e : H × Call) : World H :=
  let p := w.handles e.1
  match e.2 with
  | .begin name readOnly => { w with handles := Function.update w.handles e.1 (p.begin name readOnly).1 }
  | .end_ => { w with handles := Function.update w.handles e.1 p.end_ }
  | .clear => { w with store := (p.clear w.store).1 }
  | .remove key => { w with store := (p.remove w.store key).1 }
  | .putScalar key kind v => { w with store := (kind.put p w.store key v).1 }
  | .putString key v => { w with store := (p.putString w.store key v).1 }
  | .putBytes key buf len => { w with store := (p.putBytes w.store key buf len).1 }
  | .get _ => w

def world (H : Type) [DecidableEq H] : EventMachine (World H) (H × Call) :=
  .total World.apply

/-- The handle is begun on the namespace, and may write. -/
structure Writable (p : Preferences) (ns : Name) : Prop where
  started : p.started_ = true
  writable : p.read_only_ = false
  ns_eq : p.ns_ = ns

/-- A put, a remove or a clear that is about the entry, through a handle that may write it. -/
def Touches (ns key : Name) (w : World H) (e : H × Call) : Prop :=
  Writable (w.handles e.1) ns ∧ (e.2 = .clear ∨ e.2.key = some key)

section Writes

variable (p : Preferences) (store : Store)

/-- Every put is a write of one entry, or nothing. -/
def WritesEntry (p : Preferences) (store : Store) (key : Option Name) (after : Store) : Prop :=
  after = store ∨ ∃ name e, key = some name ∧ Writable p p.ns_ ∧ after = store.write p.ns_ name e

theorem ready_to_write_eq_some {key : Option Name} {name : Name} (h : p.ready_to_write key = some name) :
    key = some name ∧ Writable p p.ns_ := by
  unfold Preferences.ready_to_write at h
  split at h
  · rename_i hready
    obtain ⟨hstarted, hwritable⟩ : p.started_ = true ∧ p.read_only_ = false := by simpa using hready
    exact ⟨h, hstarted, hwritable, rfl⟩
  · cases h

theorem ready_to_write_of_writable {ns : Name} (h : Writable p ns) (name : Name) :
    p.ready_to_write (some name) = some name := by
  simp [Preferences.ready_to_write, h.started, h.writable]

theorem putScalar_writes {α : Type} (c : Scalar α) (key : Option Name) (t : PreferenceType) (v : α) :
    WritesEntry p store key (Preferences.putScalar c p store key t v).1 := by
  unfold Preferences.putScalar
  split
  · exact .inl rfl
  · rename_i name hready
    obtain ⟨hkey, hwritable⟩ := ready_to_write_eq_some p hready
    exact .inr ⟨name, _, hkey, hwritable, rfl⟩

theorem ScalarKind.put_writes (key : Option Name) (kind : ScalarKind) (v : kind.Value) :
    WritesEntry p store key (kind.put p store key v).1 := by
  cases kind <;> exact putScalar_writes p store _ key _ _

theorem putString_writes (key : Option Name) (v : Option (List UInt8)) :
    WritesEntry p store key (p.putString store key v).1 := by
  unfold Preferences.putString
  split
  · rename_i name text hready
    obtain ⟨hkey, hwritable⟩ := ready_to_write_eq_some p hready
    exact .inr ⟨name, _, hkey, hwritable, rfl⟩
  · exact .inl rfl

theorem putBytes_writes (key : Option Name) (buf : Option (List UInt8)) (len : Nat) :
    WritesEntry p store key (p.putBytes store key buf len).1 := by
  unfold Preferences.putBytes
  split
  · exact .inl rfl
  · rename_i name hready
    obtain ⟨hkey, hwritable⟩ := ready_to_write_eq_some p hready
    split
    · exact .inl rfl
    · exact .inr ⟨name, _, hkey, hwritable, rfl⟩

theorem remove_writes (key : Option Name) : WritesEntry p store key (p.remove store key).1 := by
  unfold Preferences.remove
  split
  · exact .inl rfl
  · rename_i name
    split
    · exact .inl rfl
    · rename_i hready
      obtain ⟨hstarted, hwritable⟩ : p.started_ = true ∧ p.read_only_ = false := by simpa using hready
      exact .inr ⟨name, none, rfl, ⟨hstarted, hwritable, rfl⟩, rfl⟩

theorem write_self (ns key : Name) (e : Option Entry) : store.write ns key e ns key = e := by
  simp [Store.write]

theorem write_of_ne {ns key ns' key' : Name} (hne : ns' ≠ ns ∨ key' ≠ key) (e : Option Entry) :
    store.write ns key e ns' key' = store ns' key' := by
  unfold Store.write
  by_cases hns : ns' = ns
  · obtain hns' | hkey := hne
    · exact absurd hns hns'
    · rw [hns, Function.update_self, Function.update_of_ne hkey]
  · rw [Function.update_of_ne hns]

/-- A write changes at most the entry it is about, through a handle that may write it. -/
theorem WritesEntry.frame {key : Option Name} {after : Store} (h : WritesEntry p store key after)
    {ns name : Name} (hchanged : after ns name ≠ store ns name) : Writable p ns ∧ key = some name := by
  obtain rfl | ⟨written, e, rfl, hwritable, rfl⟩ := h
  · exact absurd rfl hchanged
  · by_cases hself : ns = p.ns_ ∧ name = written
    · obtain ⟨rfl, rfl⟩ := hself
      exact ⟨hwritable, rfl⟩
    · refine absurd (write_of_ne store ?_ e) hchanged
      by_contra hboth
      obtain ⟨hns, hname⟩ := not_or.mp hboth
      exact hself ⟨not_not.mp hns, not_not.mp hname⟩

theorem clear_frame {ns name : Name} (hchanged : (p.clear store).1 ns name ≠ store ns name) :
    Writable p ns := by
  unfold Preferences.clear at hchanged
  split at hchanged
  · exact absurd rfl hchanged
  · rename_i hready
    obtain ⟨hstarted, hwritable⟩ : p.started_ = true ∧ p.read_only_ = false := by simpa using hready
    refine ⟨hstarted, hwritable, ?_⟩
    by_contra hns
    exact hchanged (congrFun (Function.update_of_ne (Ne.symm hns) _ _) name)

end Writes

/-- An entry changes only by a call that is about it, through a handle that may write it. -/
theorem apply_frame {w : World H} {e : H × Call} {ns key : Name}
    (hchanged : (w.apply e).store ns key ≠ w.store ns key) : Touches ns key w e := by
  obtain ⟨handle, call⟩ := e
  cases call with
  | begin name readOnly => exact absurd rfl hchanged
  | end_ => exact absurd rfl hchanged
  | get key' => exact absurd rfl hchanged
  | clear => exact ⟨clear_frame _ _ hchanged, .inl rfl⟩
  | remove key' =>
    obtain ⟨hwritable, hkey⟩ := (remove_writes _ _ key').frame _ _ hchanged
    exact ⟨hwritable, .inr hkey⟩
  | putScalar key' kind v =>
    obtain ⟨hwritable, hkey⟩ := (ScalarKind.put_writes _ _ key' kind v).frame _ _ hchanged
    exact ⟨hwritable, .inr hkey⟩
  | putString key' v =>
    obtain ⟨hwritable, hkey⟩ := (putString_writes _ _ key' v).frame _ _ hchanged
    exact ⟨hwritable, .inr hkey⟩
  | putBytes key' buf len =>
    obtain ⟨hwritable, hkey⟩ := (putBytes_writes _ _ key' buf len).frame _ _ hchanged
    exact ⟨hwritable, .inr hkey⟩

/-- An entry stays as it is through any calls that do not touch it. -/
theorem entry_kept {w : World H} {ns key : Name} {e : Option Entry} (hentry : w.store ns key = e)
    {events : List (H × Call)} (huntouched : (world H).Meets (fun w e => ¬Touches ns key w e) w events) :
    (events.foldl World.apply w).store ns key = e := by
  refine EventMachine.visited_of_meets (P := fun w : World H => w.store ns key = e) ?_ hentry huntouched _ ?_
  · intro w event w' hbefore hguard hstep
    obtain rfl : w.apply event = w' := Option.some.inj hstep
    by_contra hchanged
    exact hguard (apply_frame (by rw [hbefore]; exact hchanged))
  · exact EventMachine.mem_visited_iff.mpr ⟨events, List.prefix_refl _, EventMachine.total_run _ _ _⟩

section RoundTrip

variable {p : Preferences} {store : Store} {ns key : Name}

/-- A handle that is begun on the namespace, read-only or not. -/
structure Begun (p : Preferences) (ns : Name) : Prop where
  started : p.started_ = true
  ns_eq : p.ns_ = ns

theorem find_of_begun (hbegun : Begun p ns) : p.find store (some key) = store ns key := by
  unfold Preferences.find
  rw [if_pos hbegun.started, hbegun.ns_eq]
  rfl

theorem getScalar_found {α : Type} {c : Scalar α} {t : PreferenceType} {e : Entry} (hbegun : Begun p ns)
    (hentry : store ns key = some e) (d : α) :
    Preferences.getScalar c p store (some key) t d =
      if e.type ≠ t then d else (c.decode e.bytes).getD d := by
  unfold Preferences.getScalar
  rw [find_of_begun hbegun, hentry]

theorem getScalar_of_entry {α : Type} {c : Scalar α} {t : PreferenceType} {v : α} (hbegun : Begun p ns)
    (hentry : store ns key = some ⟨t, c.encode v⟩) (d : α) :
    Preferences.getScalar c p store (some key) t d = v := by
  rw [getScalar_found hbegun hentry, if_neg (not_not.mpr rfl), c.decode_encode]
  rfl

theorem putScalar_entry {α : Type} {c : Scalar α} {t : PreferenceType} {v : α} (hwritable : Writable p ns) :
    (Preferences.putScalar c p store (some key) t v).1 ns key = some ⟨t, c.encode v⟩ := by
  unfold Preferences.putScalar
  rw [ready_to_write_of_writable p hwritable key, hwritable.ns_eq]
  exact write_self store ns key _

/-- What a kind's `put` stores is what its `get` looks for. -/
theorem ScalarKind.get_put {q : Preferences} {later : Store} (hwritable : Writable p ns)
    (kind : ScalarKind) (v d : kind.Value)
    (hkept : later ns key = (kind.put p store (some key) v).1 ns key) (hbegun : Begun q ns) :
    kind.get q later (some key) d = v := by
  cases kind with
  | bool =>
    have hentry := hkept.trans (putScalar_entry (c := .uint8) (t := .PT_U8) (v := if v then 1 else 0) hwritable)
    change (Preferences.getScalar .uint8 q later (some key) .PT_U8 (if d then 1 else 0) != 0) = v
    rw [getScalar_of_entry hbegun hentry]
    cases v <;> rfl
  | _ => exact getScalar_of_entry hbegun (hkept.trans (putScalar_entry hwritable)) d

theorem putString_entry (hwritable : Writable p ns) (v : List UInt8) :
    (p.putString store (some key) (some v)).1 ns key = some ⟨.PT_STR, c_str v⟩ := by
  unfold Preferences.putString
  rw [ready_to_write_of_writable p hwritable key, hwritable.ns_eq]
  exact write_self store ns key _

theorem c_str_of_nul_free {text : List UInt8} (hfree : ∀ b ∈ text, b ≠ 0) : c_str text = text := by
  unfold c_str
  rw [List.takeWhile_eq_self_iff]
  intro b hb
  simpa using hfree b hb

theorem getString_found {e : Entry} (hbegun : Begun p ns) (hentry : store ns key = some e) (d : List UInt8) :
    p.getString store (some key) d = if e.type ≠ .PT_STR then d else c_str e.bytes := by
  unfold Preferences.getString
  rw [find_of_begun hbegun, hentry]

theorem getString_of_entry {text : List UInt8} (hbegun : Begun p ns)
    (hentry : store ns key = some ⟨.PT_STR, text⟩) (hfree : ∀ b ∈ text, b ≠ 0) (d : List UInt8) :
    p.getString store (some key) d = text := by
  rw [getString_found hbegun hentry, if_neg (not_not.mpr rfl), c_str_of_nul_free hfree]

theorem getStringInto_found {e : Entry} (hbegun : Begun p ns) (hentry : store ns key = some e) {maxLen : Nat}
    (hroom : 0 < maxLen) :
    p.getStringInto store (some key) true maxLen =
      if e.type ≠ .PT_STR then []
      else e.bytes.take (if e.bytes.length + 1 ≤ maxLen then e.bytes.length else maxLen - 1) := by
  have hsome : ¬(!true || maxLen == 0) = true := by
    simp only [Bool.not_true, Bool.false_or, beq_iff_eq]
    omega
  unfold Preferences.getStringInto
  rw [if_neg hsome, find_of_begun hbegun, hentry]

theorem getStringInto_of_entry {text : List UInt8} {maxLen : Nat} (hbegun : Begun p ns)
    (hentry : store ns key = some ⟨.PT_STR, text⟩) (hroom : text.length + 1 ≤ maxLen) :
    p.getStringInto store (some key) true maxLen = text := by
  rw [getStringInto_found hbegun hentry (by omega), if_neg (not_not.mpr rfl), if_pos hroom, List.take_length]

theorem putBytes_entry (hwritable : Writable p ns) (buf : List UInt8) :
    (p.putBytes store (some key) (some buf) buf.length).1 ns key = some ⟨.PT_BLOB, buf⟩ := by
  unfold Preferences.putBytes
  rw [ready_to_write_of_writable p hwritable key, hwritable.ns_eq]
  change (if (some buf = none ∧ 0 < buf.length) then (store, 0)
    else (store.write ns key (some ⟨.PT_BLOB, buf.take buf.length⟩), buf.length)).1 ns key = _
  rw [if_neg (by simp), List.take_length]
  exact write_self store ns key _

theorem getBytesLength_found {e : Entry} (hbegun : Begun p ns) (hentry : store ns key = some e) :
    p.getBytesLength store (some key) = if e.type ≠ .PT_BLOB then 0 else e.bytes.length := by
  unfold Preferences.getBytesLength
  rw [find_of_begun hbegun, hentry]

theorem getBytesLength_of_entry {blob : List UInt8} (hbegun : Begun p ns)
    (hentry : store ns key = some ⟨.PT_BLOB, blob⟩) :
    p.getBytesLength store (some key) = blob.length := by
  rw [getBytesLength_found hbegun hentry, if_neg (not_not.mpr rfl)]

theorem getBytes_found {e : Entry} (hbegun : Begun p ns) (hentry : store ns key = some e) (maxLen : Nat) :
    p.getBytes store (some key) true maxLen =
      if e.type ≠ .PT_BLOB then []
      else e.bytes.take (if e.bytes.length ≤ maxLen then e.bytes.length else maxLen) := by
  have hsome : ¬(!true) = true := Bool.false_ne_true
  unfold Preferences.getBytes
  rw [if_neg hsome, find_of_begun hbegun, hentry]

theorem getBytes_of_entry {blob : List UInt8} {maxLen : Nat} (hbegun : Begun p ns)
    (hentry : store ns key = some ⟨.PT_BLOB, blob⟩) (hroom : blob.length ≤ maxLen) :
    p.getBytes store (some key) true maxLen = blob := by
  rw [getBytes_found hbegun hentry, if_neg (not_not.mpr rfl), if_pos hroom, List.take_length]

end RoundTrip

/-- The call, and calls after it none of which is about the entry through a handle that
    may write it, lead from one world to the other. -/
def World.LeadsTo (w : World H) (h : H) (call : Call) (ns key : Name) (w' : World H) : Prop :=
  ∃ events, (world H).Meets (fun w e => ¬Touches ns key w e) (w.apply (h, call)) events ∧
    events.foldl World.apply (w.apply (h, call)) = w'

theorem World.LeadsTo.entry {w w' : World H} {h : H} {call : Call} {ns key : Name}
    (hleads : w.LeadsTo h call ns key w') : w'.store ns key = (w.apply (h, call)).store ns key := by
  obtain ⟨events, halone, rfl⟩ := hleads
  exact entry_kept rfl halone

/-- Any number of handles share one typed map. A put of a scalar, of a string without a
    NUL or of a blob, through a handle that may write, is what any begun handle gets until
    a later put, remove or clear touches the entry. A handle that is not begun, or is
    read-only, changes no entry; and what changes an entry was about that entry. -/
theorem shared_map (H : Type) [DecidableEq H] :
    (∀ (w w' : World H) (h g : H) (ns key : Name) (kind : ScalarKind) (v d : kind.Value),
      Writable (w.handles h) ns → w.LeadsTo h (.putScalar (some key) kind v) ns key w' →
      Begun (w'.handles g) ns → kind.get (w'.handles g) w'.store (some key) d = v) ∧
    (∀ (w w' : World H) (h g : H) (ns key : Name) (v d : List UInt8),
      Writable (w.handles h) ns → (∀ b ∈ v, b ≠ 0) →
      w.LeadsTo h (.putString (some key) (some v)) ns key w' → Begun (w'.handles g) ns →
        (w'.handles g).getString w'.store (some key) d = v ∧
          ∀ maxLen, v.length + 1 ≤ maxLen →
            (w'.handles g).getStringInto w'.store (some key) true maxLen = v) ∧
    (∀ (w w' : World H) (h g : H) (ns key : Name) (buf : List UInt8),
      Writable (w.handles h) ns → w.LeadsTo h (.putBytes (some key) (some buf) buf.length) ns key w' →
      Begun (w'.handles g) ns →
        (w'.handles g).getBytesLength w'.store (some key) = buf.length ∧
          ∀ maxLen, buf.length ≤ maxLen →
            (w'.handles g).getBytes w'.store (some key) true maxLen = buf) ∧
    (∀ (w : World H) (h : H) (call : Call),
      (w.handles h).started_ = false ∨ (w.handles h).read_only_ = true →
        (w.apply (h, call)).store = w.store) ∧
    (∀ (w : World H) (h : H) (call : Call) (ns key : Name),
      (w.apply (h, call)).store ns key ≠ w.store ns key →
        (w.handles h).ns_ = ns ∧ (call = .clear ∨ call.key = some key)) := by
  refine ⟨?_, ?_, ?_, ?_, ?_⟩
  · intro w w' h g ns key kind v d hwritable hleads hbegun
    exact kind.get_put hwritable v d hleads.entry hbegun
  · intro w w' h g ns key v d hwritable hfree hleads hbegun
    have hentry := hleads.entry.trans (putString_entry hwritable v)
    rw [c_str_of_nul_free hfree] at hentry
    refine ⟨getString_of_entry hbegun hentry hfree d, fun maxLen hroom => ?_⟩
    exact getStringInto_of_entry hbegun hentry hroom
  · intro w w' h g ns key buf hwritable hleads hbegun
    have hentry := hleads.entry.trans (putBytes_entry hwritable buf)
    refine ⟨getBytesLength_of_entry hbegun hentry, fun maxLen hroom => ?_⟩
    exact getBytes_of_entry hbegun hentry hroom
  · intro w h call hcannot
    funext ns key
    by_contra hchanged
    obtain ⟨hwritable, -⟩ := apply_frame hchanged
    obtain hstopped | hreadonly := hcannot
    · rw [hwritable.started] at hstopped
      cases hstopped
    · rw [hwritable.writable] at hreadonly
      cases hreadonly
  · intro w h call ns key hchanged
    obtain ⟨hwritable, habout⟩ := apply_frame hchanged
    exact ⟨hwritable.ns_eq, habout⟩

/-- One handle writes; the other, which is read-only, clears nothing and reads what it wrote. -/
theorem shared_map_reader :
    let w : World Bool := [(false, Call.begin (some [110]) false), (true, .begin (some [110]) true)].foldl
      World.apply ⟨fun _ => .default, fun _ _ => none⟩
    let w' := [(false, Call.putString (some [107]) (some [118])), (true, .clear)].foldl World.apply w
    (w'.handles true).getString w'.store (some [107]) [] = [118] := by
  intro w w'
  refine ((shared_map Bool).2.1 w w' false true [110] [107] [118] [] ?writable (by simp) ?leads ?begun).1
  case writable => exact ⟨rfl, rfl, rfl⟩
  case begun => exact ⟨rfl, rfl⟩
  case leads =>
    refine ⟨[(true, .clear)], ⟨?_, fun _ _ => trivial⟩, rfl⟩
    rintro ⟨hwritable, -⟩
    cases hwritable.writable

end HostArduino.preferences
