import HeapStore.Tuple

/-!
Heap pages: a fixed number of slots, each free or holding a complete row of the page's types.
A page remembers who changed it since it was last written, and the bytes it goes back to if the
change is given up.
-/

namespace HeapStore

/-- Slots of rows `width` bytes wide that fit on a page, each with one more bit in the header. -/
def slotsFor (width : Nat) : Nat :=
  pageSize * 8 / (width * 8 + 1)

/-- Bytes of a header with one bit for each of `n` slots. -/
def headerSize (n : Nat) : Nat :=
  (n + 7) / 8

def Schema.slotsPerPage (s : Schema) : Nat :=
  slotsFor s.width

/-- `spare` are the bits of the last header byte that belong to no slot. They mean nothing and
are kept as they were read. -/
structure HeapPage where
  id : PageId
  schema : Schema
  slots : List (Option Tuple)
  spare : List Bool
  dirtiedBy : Option TxId
  beforeImage : List UInt8
  deriving DecidableEq

namespace HeapPage

def empty (id : PageId) (schema : Schema) : HeapPage where
  id
  schema
  slots := List.replicate schema.slotsPerPage none
  spare := List.replicate (headerSize schema.slotsPerPage * 8 - schema.slotsPerPage) false
  dirtiedBy := none
  beforeImage := Bytes.zeros pageSize

/-- The row in slot `i`, if the slot exists and is used. -/
def get? (p : HeapPage) (i : Nat) : Option Tuple :=
  (p.slots[i]?).join

/-- The rows, in slot order. -/
def tuples (p : HeapPage) : List Tuple :=
  p.slots.filterMap fun slot => slot

def isUsed (p : HeapPage) (i : Nat) : Bool :=
  (p.get? i).isSome

def emptySlots (p : HeapPage) : Nat :=
  p.slots.countP Option.isNone

def isDirty (p : HeapPage) : Bool :=
  p.dirtiedBy.isSome

def mark (p : HeapPage) (owner : Option TxId) : HeapPage :=
  { p with dirtiedBy := owner }

/-- Stores a row in the lowest free slot and says where that is. A row that cannot be stored on
any page of this schema is refused before the page is searched. -/
def insert (p : HeapPage) (t : Tuple) : Except Error (HeapPage × RecordId) :=
  if t.schema.types ≠ p.schema.types then
    .error (.schemaMismatch (.pageSchema t.schema p.schema))
  else if !t.isComplete then
    .error (.schemaMismatch .unsetFields)
  else match p.slots.findIdx? Option.isNone with
    | none => .error (.pageFull p.id)
    | some i =>
      let rid : RecordId := ⟨p.id, i⟩
      .ok ({ p with slots := p.slots.set i (some (t.located (some rid))) }, rid)

/-- Frees the slot at a record id of this page. -/
def erase (p : HeapPage) (rid : Option RecordId) : Except Error HeapPage :=
  match rid with
  | none => .error .noRecordId
  | some rid =>
    if rid.page = p.id ∧ p.isUsed rid.slot then
      .ok { p with slots := p.slots.set rid.slot none }
    else .error (.tupleNotFound rid)

end HeapPage
end HeapStore
