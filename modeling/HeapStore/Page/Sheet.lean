import HeapStore.Draft
import HeapStore.Page.Edit
import HeapStore.Page.Offsets

/-!
Pages while they are worked on, with nothing to vouch for them: the bytes of a header and a list of
slots that need not have anything to do with each other. The bit of a slot is looked up in the
header, and changed there, whenever a row is to come or go. Where a place is looked up that is not
there, nothing comes of it.
-/

namespace HeapStore
open Bytes

def slotMask (i : Nat) : UInt8 :=
  1 <<< UInt8.ofNat (i % 8)

def headerBit? (header : List UInt8) (i : Nat) : Option Bool := do
  let byte ← header[i / 8]?
  return byte &&& slotMask i != 0

def setHeaderBit? (header : List UInt8) (i : Nat) (used : Bool) : Option (List UInt8) := do
  let byte ← header[i / 8]?
  return header.set (i / 8) (if used then byte ||| slotMask i else byte &&& ~~~slotMask i)

structure Sheet where
  id : PageId
  schema : Schema
  header : List UInt8
  slots : List (Option Tuple)
  dirtiedBy : Option TxId
  beforeImage : List UInt8
  deriving DecidableEq

/-- A page without what vouches for it. -/
def HeapPage.sheet (p : HeapPage) : Sheet where
  id := p.id
  schema := p.schema
  header := p.header
  slots := p.slots
  dirtiedBy := p.dirtiedBy
  beforeImage := p.beforeImage

namespace Sheet

def empty (id : PageId) (schema : Schema) : Sheet where
  id
  schema
  header := zeros (headerSize schema.slotsPerPage)
  slots := List.replicate schema.slotsPerPage none
  dirtiedBy := none
  beforeImage := zeros pageSize

def decodeSlot? (id : PageId) (schema : Schema) (header data : List UInt8) (i : Nat) :
    ExceptT Corruption Option (Option Tuple) := do
  if ← headerBit? header i then
    let slot ← readAt? data (schema.slotOffset i) schema.width
    let t ← (Tuple.decode? schema slot).adapt (.stringLength i)
    return some (t.located (some ⟨id, i⟩))
  else return none

/-- The header and the slots that `data` describes. -/
def decodeContent? (id : PageId) (schema : Schema) (data : List UInt8) :
    ExceptT Error Option (List UInt8 × List (Option Tuple)) := do
  if data.length ≠ pageSize then throw (.corrupted id (.imageSize data.length))
  else
    let n := schema.slotsPerPage
    let header ← readAt? data 0 (headerSize n)
    let slots ← ((List.range n).mapM (decodeSlot? id schema header data)).adapt (.corrupted id)
    return (header, slots)

def decode? (id : PageId) (schema : Schema) (data : List UInt8) : ExceptT Error Option Sheet := do
  let (header, slots) ← decodeContent? id schema data
  return { id, schema, header, slots, dirtiedBy := none, beforeImage := data }

def isUsed? (s : Sheet) (i : Nat) : Option Bool :=
  if i < s.slots.length then headerBit? s.header i else some false

def emptySlots? (s : Sheet) : Option Nat := do
  let used ← (List.range s.slots.length).mapM s.isUsed?
  return used.countP (!·)

/-- Changes a slot, and its bit with it. -/
def put? (s : Sheet) (i : Nat) (slot : Option Tuple) : Option Sheet :=
  if i < s.slots.length then do
    let header ← setHeaderBit? s.header i slot.isSome
    return { s with header, slots := s.slots.set i slot }
  else none

def insert? (s : Sheet) (t : Tuple) : Option (Except Error RecordId × Sheet) :=
  if t.schema.types ≠ s.schema.types then
    some (.error (.schemaMismatch (.pageSchema t.schema s.schema)), s)
  else if !t.isComplete then
    some (.error (.schemaMismatch .unsetFields), s)
  else do
    match ← (List.range s.slots.length).findM? fun i => (!·) <$> s.isUsed? i with
    | none => return (.error (.pageFull s.id), s)
    | some i =>
      let rid : RecordId := ⟨s.id, i⟩
      return (.ok rid, ← s.put? i (some (t.located (some rid))))

def erase? (s : Sheet) (rid : Option RecordId) : Option (Except Error Unit × Sheet) :=
  match rid with
  | none => some (.error .noRecordId, s)
  | some rid =>
    if rid.page ≠ s.id then some (.error (.tupleNotFound rid), s)
    else do
      if ← s.isUsed? rid.slot then return (.ok (), ← s.put? rid.slot none)
      else return (.error (.tupleNotFound rid), s)

def writeSlots? (schema : Schema) (buffer : List UInt8) : List (Option Tuple) → Option (List UInt8)
  | [] => some buffer
  | some t :: slots => do writeSlots? schema (← t.draft.write? buffer) slots
  | none :: slots => writeSlots? schema (resize buffer (buffer.length + schema.width)) slots

/-- All that is written of a page, before it is brought to the size of one. -/
def written? (s : Sheet) : Option (List UInt8) :=
  writeSlots? s.schema s.header s.slots

def image? (s : Sheet) : Option (List UInt8) := do
  return resize (← s.written?) pageSize

def restore? (s : Sheet) : Option (Except Error Unit × Sheet) := do
  match ← (decodeContent? s.id s.schema s.beforeImage).run with
  | .ok (header, slots) => return (.ok (), { s with header, slots, dirtiedBy := none })
  | .error e => return (.error e, s)

/-- Gives the answer and the page as it is from then on. -/
def perform? (s : Sheet) : PageEdit → Option (Except Error Unit × Sheet)
  | .insert t => do
    let (answer, s) ← s.insert? t
    return (answer.map fun _ => (), s)
  | .erase rid => s.erase? rid
  | .mark owner => some (.ok (), { s with dirtiedBy := owner })
  | .snapshot => do return (.ok (), { s with beforeImage := ← s.image? })
  | .restore => s.restore?

/-- The pages that can come about. -/
inductive Reached : Sheet → Prop
  | empty (id : PageId) (schema : Schema) : Reached (empty id schema)
  | decode {id : PageId} {schema : Schema} {data : List UInt8} {s : Sheet}
      (read : (decode? id schema data).run = some (.ok s)) : Reached s
  | perform {s s' : Sheet} {e : PageEdit} {answer : Except Error Unit} (before : Reached s)
      (done : s.perform? e = some (answer, s')) : Reached s'

end Sheet
end HeapStore
