import HeapStore.Page.Basic

/-!
Pages as bytes: a header with one bit for each slot, set when the slot is used; then the slots,
a free one all zeros; then zeros to the end of the page.
-/

namespace HeapStore.HeapPage

def header (p : HeapPage) : List UInt8 :=
  Bytes.pack (p.slots.map Option.isSome ++ p.spare)

def slotImage (schema : Schema) (slot : Option Tuple) : List UInt8 :=
  slot.elim (Bytes.zeros schema.width) Tuple.encode

def image (p : HeapPage) : List UInt8 :=
  Bytes.resize (p.header ++ p.slots.flatMap (slotImage p.schema)) pageSize

/-- Reads the slots from `slot` on. Stops at the first row that cannot be read. -/
def decodeSlots (id : PageId) (schema : Schema) :
    Nat → List Bool → List UInt8 → Except Corruption (List (Option Tuple))
  | _, [], _ => .ok []
  | slot, false :: used, bs => do
    let slots ← decodeSlots id schema (slot + 1) used (bs.drop schema.width)
    .ok (none :: slots)
  | slot, true :: used, bs =>
    match Tuple.decode schema (bs.take schema.width) with
    | .error length => .error (.stringLength slot length)
    | .ok t => do
      let slots ← decodeSlots id schema (slot + 1) used (bs.drop schema.width)
      .ok (some (t.located (some ⟨id, slot⟩)) :: slots)

/-- The slots and the spare header bits that `data` describes. -/
def decodeContent (id : PageId) (schema : Schema) (data : List UInt8) :
    Except Error (List (Option Tuple) × List Bool) :=
  if data.length ≠ pageSize then .error (.corrupted id (.imageSize data.length))
  else
    let n := schema.slotsPerPage
    let bits := Bytes.unpack (data.take (headerSize n))
    match decodeSlots id schema 0 (bits.take n) (data.drop (headerSize n)) with
    | .error cause => .error (.corrupted id cause)
    | .ok slots => .ok (slots, bits.drop n)

/-- A page as read from disk: clean, and going back to the very bytes it was read from. -/
def decode (id : PageId) (schema : Schema) (data : List UInt8) : Except Error HeapPage := do
  let (slots, spare) ← decodeContent id schema data
  .ok { id, schema, slots, spare, dirtiedBy := none, beforeImage := data }

/-- Makes the present content the one to go back to. -/
def snapshot (p : HeapPage) : HeapPage :=
  { p with beforeImage := p.image }

/-- Goes back to the before-image. The page is clean afterwards. -/
def restore (p : HeapPage) : Except Error HeapPage := do
  let (slots, spare) ← decodeContent p.id p.schema p.beforeImage
  .ok { p with slots, spare, dirtiedBy := none }

end HeapStore.HeapPage
