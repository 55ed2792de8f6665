import HeapStore.Page.Image

/-!
Where things are on a page: the bit of a slot, the bytes of a slot and those of its fields. Reading
a page by position looks up each byte and each range of bytes by where it should be. If one is not
there, nothing comes of it, not even an error.
-/

namespace HeapStore
open Bytes

/-- Where the `k`-th of the fields begins, in the slot. -/
def fieldOffset : List FieldType → Nat → Nat
  | t :: ts, k + 1 => t.width + fieldOffset ts k
  | _, _ => 0

/-- Where slot `i` begins, on the page. -/
def Schema.slotOffset (s : Schema) (i : Nat) : Nat :=
  headerSize s.slotsPerPage + i * s.width

/-- Whether slot `i` is used. -/
def slotBit (data : List UInt8) (i : Nat) : Bool :=
  (data.getD (i / 8) 0).toNat.testBit (i % 8)

def Schema.slotBytes (s : Schema) (data : List UInt8) (i : Nat) : List UInt8 :=
  (data.drop (s.slotOffset i)).take s.width

/-- The bytes of field `k`, if it is a string. -/
def stringBytes (ts : List FieldType) (slot : List UInt8) (k : Nat) : List UInt8 :=
  (slot.drop (fieldOffset ts k)).take FieldType.string.width

def FieldType.decode? :
    (t : FieldType) → List UInt8 → ExceptT Nat Option { v : Value // v.type = t }
  | int, field => do
    let number ← readAt? field 0 4
    return ⟨.int (decodeInt number), rfl⟩
  | string, field => do
    let length := toNat32 (← readAt? field 0 4)
    if stringRoom < length then throw length
    else
      let text ← readAt? field 4 length
      return ⟨.string (String.ofList (Utf8.decode text)), rfl⟩

def Tuple.decodeEntries? (slot : List UInt8) : (ts : List FieldType) → Nat →
    ExceptT Nat Option { vs : List (Option Value) // Fits ts vs }
  | [], _ => return ⟨[], trivial⟩
  | t :: ts, offset => do
    let v ← t.decode? (← readAt? slot offset t.width)
    let vs ← decodeEntries? slot ts (offset + t.width)
    return ⟨some v.1 :: vs.1, fun _ h => by cases h; exact v.2, vs.2⟩

def Tuple.decode? (schema : Schema) (slot : List UInt8) : ExceptT Nat Option Tuple := do
  let ⟨values, fits⟩ ← decodeEntries? slot schema.types 0
  return { schema, values, fits }

namespace HeapPage

def decodeSlot? (id : PageId) (schema : Schema) (header data : List UInt8) (i : Nat) :
    ExceptT Corruption Option (Option Tuple) := do
  let byte ← (header[i / 8]? : Option UInt8)
  if byte.toNat.testBit (i % 8) then
    let slot ← readAt? data (schema.slotOffset i) schema.width
    let t ← (Tuple.decode? schema slot).adapt (.stringLength i)
    return some (t.located (some ⟨id, i⟩))
  else return none

/-- Reads a page by position. There is nothing when a byte is looked up that is not there. -/
def decode? (id : PageId) (schema : Schema) (data : List UInt8) :
    ExceptT Error Option HeapPage := do
  if data.length ≠ pageSize then throw (.corrupted id (.imageSize data.length))
  else
    let n := schema.slotsPerPage
    let header ← readAt? data 0 (headerSize n)
    let slots ← ((List.range n).mapM (decodeSlot? id schema header data)).adapt (.corrupted id)
    return {
      id, schema, slots
      spare := (unpack header).drop n
      dirtiedBy := none
      beforeImage := data }

end HeapPage
end HeapStore
