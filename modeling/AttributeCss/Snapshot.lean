/-
Snapshots: the entries as they are kept between sessions.

A snapshot is stored as one JSON array with an array of key and facet number
for each entry, in order.  Repeated keys stay repeated.

A store holds the bytes of one snapshot, or nothing yet; a store may also
refuse to be read and written.  Bytes that are no snapshot are corrupt.
-/
import AttributeCss.Facets
import AttributeCss.Json.Record
import AttributeCss.Json.Writer
import AttributeCss.Text.Basic

namespace AttributeCss

open Json

/-- Entries for storage: keys with their facets, in order. -/
abbrev Snapshot := List (Text × Facets)

/-- The facets a number in a document stands for. -/
def Facets.ofJson? (v : Value) : Option Facets := v.word?.map Facets.ofBits

def Facets.read? (t : Text) : Option Facets := (Value.read? t).bind Facets.ofJson?

namespace Snapshot

def pairOfJson? : Value → Option (Text × Facets)
  | .array [k, n] => k.text?.bind fun key => (Facets.ofJson? n).map fun f => (key, f)
  | _ => none

def pairToJson (p : Text × Facets) : Value := .array [Value.ofText p.1, Value.ofNat p.2.bits]

def toJson (s : Snapshot) : Value := .array (s.map pairToJson)

def ofJson? (v : Value) : Option Snapshot := v.items?.bind fun items => items.mapM pairOfJson?

def write (s : Snapshot) : Text := (toJson s).write

def read? (t : Text) : Option Snapshot := (Value.read? t).bind ofJson?

def encode (s : Snapshot) : ByteArray := Text.toBytes (write s)

/-- The snapshot of stored bytes; bytes that hold none are corrupt. -/
def decode? (b : ByteArray) : Option Snapshot := (Text.ofBytes? b).bind read?

end Snapshot

/-! ## Stores -/

/-- A place where one snapshot is kept. -/
inductive Store where
  /-- A store in memory, with what was put there last. -/
  | memory (bytes : Option ByteArray)
  /-- A store that refuses every use, for a reason. -/
  | refusing (reason : Text)

/-- Why a stored snapshot cannot be used. -/
inductive SnapshotError where
  | corrupt
  | store (reason : Text)
deriving DecidableEq, Repr

def SnapshotError.message : SnapshotError → Text
  | corrupt => "The snapshot is corrupt"
  | store reason => reason

namespace Store

def read : Store → Except Text (Option ByteArray)
  | memory bytes => .ok bytes
  | refusing reason => .error reason

def write : Store → ByteArray → Except Text Store
  | memory _, bytes => .ok (memory (some bytes))
  | refusing reason, _ => .error reason

/-- The snapshot in a store, if anything was put there. -/
def readSnapshot (s : Store) : Except SnapshotError (Option Snapshot) :=
  match s.read with
  | .error reason => .error (.store reason)
  | .ok none => .ok none
  | .ok (some bytes) =>
      match Snapshot.decode? bytes with
      | some snapshot => .ok (some snapshot)
      | none => .error .corrupt

/-- The store with a snapshot in it. -/
def writeSnapshot (s : Store) (snapshot : Snapshot) : Except SnapshotError Store :=
  match s.write snapshot.encode with
  | .error reason => .error (.store reason)
  | .ok store => .ok store

end Store

end AttributeCss
