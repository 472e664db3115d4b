import HostArduino.Lib.LittleEndian
import Mathlib.Logic.Function.Basic

namespace HostArduino.preferences

open Lib

inductive PreferenceType where
  | PT_I8
  | PT_U8
  | PT_I16
  | PT_U16
  | PT_I32
  | PT_U32
  | PT_I64
  | PT_U64
  | PT_STR
  | PT_BLOB
  | PT_INVALID
  deriving DecidableEq, Repr

structure Entry where
  type : PreferenceType
  bytes : List UInt8
  deriving DecidableEq, Repr

/-- The name of a namespace or of an entry: what a C string holds before its NUL. -/
abbrev Name := List UInt8

/-- The entries of every namespace; one that was never opened has none. -/
abbrev Store := Name → Name → Option Entry

/-- A handle. -/
structure Preferences where
  ns_ : Name
  started_ : Bool
  read_only_ : Bool
  deriving DecidableEq, Repr

def Preferences.default : Preferences where
  ns_ := []
  started_ := false
  read_only_ := false

def Store.write (store : Store) (ns key : Name) (e : Option Entry) : Store :=
  Function.update store ns (Function.update (store ns) key e)

/-- The bytes of a C string: those before the first NUL. -/
def c_str (text : List UInt8) : List UInt8 :=
  text.takeWhile (· ≠ 0)

namespace Preferences

/-- A name that is null or empty leaves the handle as it was. -/
def begin (p : Preferences) (name : Option Name) (readOnly : Bool) : Preferences × Bool :=
  match name with
  | none | some [] => (p, false)
  | some name => (⟨name, true, readOnly⟩, true)

def end_ (p : Preferences) : Preferences :=
  { p with started_ := false, ns_ := [] }

def clear (p : Preferences) (store : Store) : Store × Bool :=
  if !p.started_ || p.read_only_ then (store, false)
  else (Function.update store p.ns_ fun _ => none, true)

def remove (p : Preferences) (store : Store) (key : Option Name) : Store × Bool :=
  match key with
  | none => (store, false)
  | some key =>
    if !p.started_ || p.read_only_ then (store, false)
    else (store.write p.ns_ key none, (store p.ns_ key).isSome)

/-- The entry that a getter finds through the handle. -/
def find (p : Preferences) (store : Store) (key : Option Name) : Option Entry :=
  if p.started_ then key.bind (store p.ns_) else none

def isKey (p : Preferences) (store : Store) (key : Option Name) : Bool :=
  (p.find store key).isSome

def getType (p : Preferences) (store : Store) (key : Option Name) : PreferenceType :=
  ((p.find store key).map Entry.type).getD .PT_INVALID

def ready_to_write (p : Preferences) (key : Option Name) : Option Name :=
  if p.started_ && !p.read_only_ then key else none

def putScalar {α : Type} (c : Scalar α) (p : Preferences) (store : Store) (key : Option Name)
    (t : PreferenceType) (v : α) : Store × Nat :=
  match p.ready_to_write key with
  | none => (store, 0)
  | some key => (store.write p.ns_ key (some ⟨t, c.encode v⟩), c.size)

def getScalar {α : Type} (c : Scalar α) (p : Preferences) (store : Store) (key : Option Name)
    (expected : PreferenceType) (d : α) : α :=
  match p.find store key with
  | none => d
  | some e => if e.type ≠ expected then d else (c.decode e.bytes).getD d

section Put

variable (p : Preferences) (store : Store) (key : Option Name)

def putChar (v : Int8) := putScalar .int8 p store key .PT_I8 v
def putUChar (v : UInt8) := putScalar .uint8 p store key .PT_U8 v
def putShort (v : Int16) := putScalar .int16 p store key .PT_I16 v
def putUShort (v : UInt16) := putScalar .uint16 p store key .PT_U16 v
def putInt (v : Int32) := putScalar .int32 p store key .PT_I32 v
def putUInt (v : UInt32) := putScalar .uint32 p store key .PT_U32 v
def putLong (v : Int32) := putScalar .int32 p store key .PT_I32 v
def putULong (v : UInt32) := putScalar .uint32 p store key .PT_U32 v
def putLong64 (v : Int64) := putScalar .int64 p store key .PT_I64 v
def putULong64 (v : UInt64) := putScalar .uint64 p store key .PT_U64 v

/-- A float is its bit pattern, and so is a double. -/
def putFloat (v : UInt32) := putScalar .uint32 p store key .PT_U32 v
def putDouble (v : UInt64) := putScalar .uint64 p store key .PT_U64 v

def putBool (v : Bool) := putScalar .uint8 p store key .PT_U8 (if v then 1 else 0)

def putString (v : Option (List UInt8)) : Store × Nat :=
  match p.ready_to_write key, v with
  | some key, some v => (store.write p.ns_ key (some ⟨.PT_STR, c_str v⟩), (c_str v).length)
  | _, _ => (store, 0)

/-- `buf` is what the pointer points at, from which `len` bytes are read. -/
def putBytes (buf : Option (List UInt8)) (len : Nat) : Store × Nat :=
  match p.ready_to_write key with
  | none => (store, 0)
  | some key =>
    if buf = none ∧ 0 < len then (store, 0)
    else (store.write p.ns_ key (some ⟨.PT_BLOB, (buf.getD []).take len⟩), len)

end Put

section Get

variable (p : Preferences) (store : Store) (key : Option Name)

def getChar (d : Int8) := getScalar .int8 p store key .PT_I8 d
def getUChar (d : UInt8) := getScalar .uint8 p store key .PT_U8 d
def getShort (d : Int16) := getScalar .int16 p store key .PT_I16 d
def getUShort (d : UInt16) := getScalar .uint16 p store key .PT_U16 d
def getInt (d : Int32) := getScalar .int32 p store key .PT_I32 d
def getUInt (d : UInt32) := getScalar .uint32 p store key .PT_U32 d
def getLong (d : Int32) := getScalar .int32 p store key .PT_I32 d
def getULong (d : UInt32) := getScalar .uint32 p store key .PT_U32 d
def getLong64 (d : Int64) := getScalar .int64 p store key .PT_I64 d
def getULong64 (d : UInt64) := getScalar .uint64 p store key .PT_U64 d
def getFloat (d : UInt32) := getScalar .uint32 p store key .PT_U32 d
def getDouble (d : UInt64) := getScalar .uint64 p store key .PT_U64 d
def getBool (d : Bool) := getScalar .uint8 p store key .PT_U8 (if d then 1 else 0) != 0

def getString (d : List UInt8) : List UInt8 :=
  match p.find store key with
  | none => d
  | some e => if e.type ≠ .PT_STR then d else c_str e.bytes

/-- What `getString(k, out, maxLen)` has put into `out` before the NUL. -/
def getStringInto (out : Bool) (maxLen : Nat) : List UInt8 :=
  if !out || maxLen == 0 then []
  else
    match p.find store key with
    | none => []
    | some e =>
      if e.type ≠ .PT_STR then []
      else e.bytes.take (if e.bytes.length + 1 ≤ maxLen then e.bytes.length else maxLen - 1)

def getBytesLength : Nat :=
  match p.find store key with
  | none => 0
  | some e => if e.type ≠ .PT_BLOB then 0 else e.bytes.length

/-- What `getBytes` has put into `out`. -/
def getBytes (out : Bool) (maxLen : Nat) : List UInt8 :=
  if !out then []
  else
    match p.find store key with
    | none => []
    | some e =>
      if e.type ≠ .PT_BLOB then []
      else e.bytes.take (if e.bytes.length ≤ maxLen then e.bytes.length else maxLen)

end Get

end Preferences

end HostArduino.preferences
