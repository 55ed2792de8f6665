import HeapStore.Page.Offsets
import HeapStore.Text.Boundary

/-!
Rows while they are worked on, with nothing to vouch for them: a list of columns and a list of
entries that need not have anything to do with each other. Whoever sets an entry checks the column
and then goes to the entry; whoever writes a row takes the two lists side by side. Where a place is
looked up that is not there, nothing comes of it.
-/

namespace HeapStore
open Bytes

/-- Puts the image of a value at the end of a buffer. -/
def Value.write? (buffer : List UInt8) : Value → Option (List UInt8)
  | int n => some (buffer ++ ofNat32 n.toUInt32.toNat)
  | string s => do
    let text := Utf8.encode s.toList
    let stop ← Utf8.backUp? text (min text.length stringRoom)
    let kept ← readAt? text 0 stop
    let buffer := buffer ++ ofNat32 kept.length ++ kept
    if kept.length ≤ buffer.length + stringRoom then
      some (resize buffer (buffer.length + stringRoom - kept.length))
    else none

structure Draft where
  schema : Schema
  entries : List (Option Value)
  rid : Option RecordId := none
  deriving DecidableEq

/-- A row without what vouches for it. -/
def Tuple.draft (t : Tuple) : Draft where
  schema := t.schema
  entries := t.values
  rid := t.rid

namespace Draft

def blank (schema : Schema) : Draft :=
  { schema, entries := List.replicate schema.columns.length none }

/-- Sets entry `i`. Gives the answer and the row as it is from then on. -/
def set? (d : Draft) (i : Nat) (v : Value) : Option (Except Error Unit × Draft) :=
  match d.schema.types[i]? with
  | none => some (.error (.schemaMismatch (.fieldIndex i d.entries.length)), d)
  | some expected =>
    if expected ≠ v.type then
      some (.error (.schemaMismatch (.fieldType i expected v.type)), d)
    else if i < d.entries.length then
      some (.ok (), { d with entries := d.entries.set i (some v) })
    else none

/-- Sets the entries from `i` on. The first that is refused decides. -/
def setFrom? (d : Draft) (i : Nat) : List Value → Option (Except Error Draft)
  | [] => some (.ok d)
  | v :: vs => do
    match ← d.set? i v with
    | (.ok (), d) => setFrom? d (i + 1) vs
    | (.error e, _) => some (.error e)

def ofValues? (schema : Schema) (vs : List Value) : Option (Except Error Draft) :=
  if vs.length ≠ schema.columns.length then
    some (.error (.schemaMismatch (.fieldCount schema.columns.length vs.length)))
  else (blank schema).setFrom? 0 vs

def isComplete (d : Draft) : Bool :=
  d.entries.all Option.isSome

def writeEntries? (buffer : List UInt8) : List FieldType → List (Option Value) →
    Option (List UInt8)
  | _ :: ts, some v :: vs => do writeEntries? (← v.write? buffer) ts vs
  | t :: ts, none :: vs => writeEntries? (resize buffer (buffer.length + t.width)) ts vs
  | _, _ => some buffer

/-- Puts the image of a row at the end of a buffer. -/
def write? (d : Draft) (buffer : List UInt8) : Option (List UInt8) :=
  writeEntries? buffer d.schema.types d.entries

def parseEntries? (slot : List UInt8) : List FieldType → Nat →
    ExceptT Nat Option (List (Option Value))
  | [], _ => return []
  | t :: ts, offset => do
    let v ← t.decode? (← readAt? slot offset t.width)
    return some v.1 :: (← parseEntries? slot ts (offset + t.width))

def parse? (schema : Schema) (slot : List UInt8) : ExceptT Nat Option Draft := do
  return { schema, entries := ← parseEntries? slot schema.types 0 }

/-- The rows that can come about. -/
inductive Reached : Draft → Prop
  | blank (schema : Schema) : Reached (blank schema)
  | ofValues {schema : Schema} {vs : List Value} {d : Draft}
      (made : ofValues? schema vs = some (.ok d)) : Reached d
  | parse {schema : Schema} {slot : List UInt8} {d : Draft}
      (read : (parse? schema slot).run = some (.ok d)) : Reached d
  | set {d d' : Draft} {i : Nat} {v : Value} {answer : Except Error Unit} (before : Reached d)
      (done : d.set? i v = some (answer, d')) : Reached d'
  | located {d : Draft} (before : Reached d) (rid : Option RecordId) : Reached { d with rid }

end Draft
end HeapStore
