import HeapStore.Error
import HeapStore.Value

/-!
Rows. A row has one entry for each column of its schema, and a set entry has the column's type;
both are part of the type. Two rows are alike when their types and their entries agree, whatever
the columns are called and wherever the rows are stored.
-/

namespace HeapStore

/-- The entries go with the types, one by one. -/
def Fits : List FieldType → List (Option Value) → Prop
  | [], [] => True
  | t :: ts, v :: vs => (∀ x, v = some x → x.type = t) ∧ Fits ts vs
  | _, _ => False

namespace Fits

theorem blank (ts : List FieldType) : Fits ts (ts.map fun _ => none) := by
  induction ts with
  | nil => trivial
  | cons t ts ih => exact ⟨fun _ h => (nomatch h), ih⟩

theorem length_eq {ts : List FieldType} {vs : List (Option Value)} (h : Fits ts vs) :
    vs.length = ts.length := by
  induction ts generalizing vs with
  | nil => cases vs with
    | nil => rfl
    | cons => exact h.elim
  | cons t ts ih => cases vs with
    | nil => exact h.elim
    | cons v vs => simp [ih h.2]

theorem set {ts : List FieldType} {vs : List (Option Value)} (h : Fits ts vs) {i : Nat}
    {v : Value} (hv : ts[i]? = some v.type) : Fits ts (vs.set i (some v)) := by
  induction ts generalizing vs i with
  | nil => simp at hv
  | cons t ts ih => cases vs with
    | nil => exact h.elim
    | cons w ws => cases i with
      | zero =>
        refine ⟨fun x hx => ?_, h.2⟩
        cases hx
        simpa using hv.symm
      | succ i => exact ⟨h.1, ih h.2 (by simpa using hv)⟩

end Fits

structure Tuple where
  schema : Schema
  values : List (Option Value)
  rid : Option RecordId := none
  fits : Fits schema.types values
  deriving DecidableEq

namespace Tuple

def blank (schema : Schema) : Tuple where
  schema
  values := schema.types.map fun _ => none
  fits := Fits.blank _

def get? (t : Tuple) (i : Nat) : Option Value :=
  (t.values[i]?).join

def set (t : Tuple) (i : Nat) (v : Value) : Except Error Tuple :=
  if h : t.schema.types[i]? = some v.type then
    .ok { t with values := t.values.set i (some v), fits := t.fits.set h }
  else
    .error <| .schemaMismatch <|
      match t.schema.types[i]? with
      | none => .fieldIndex i t.values.length
      | some expected => .fieldType i expected v.type

/-- Sets entries from position `i` on; the first that does not fit decides. -/
def setFrom (t : Tuple) (i : Nat) : List Value → Except Error Tuple
  | [] => .ok t
  | v :: vs => do setFrom (← t.set i v) (i + 1) vs

def ofValues (schema : Schema) (vs : List Value) : Except Error Tuple :=
  if vs.length = schema.types.length then (blank schema).setFrom 0 vs
  else .error (.schemaMismatch (.fieldCount schema.types.length vs.length))

def isComplete (t : Tuple) : Bool :=
  t.values.all Option.isSome

/-- The same row with `rid` as its location. -/
def located (t : Tuple) (rid : Option RecordId) : Tuple :=
  { t with rid }

def alike (t u : Tuple) : Bool :=
  t.schema.types == u.schema.types && t.values == u.values

instance : ToString Tuple :=
  ⟨fun t => String.intercalate "\t" (t.values.map fun v => (v.map toString).getD "null")⟩

/-- The image of one entry; an entry that is not set is all zeros. -/
def encodeEntry (t : FieldType) (v : Option Value) : List UInt8 :=
  v.elim (Bytes.zeros t.width) Value.encode

def encode (t : Tuple) : List UInt8 :=
  (List.zipWith encodeEntry t.schema.types t.values).flatten

def decodeEntries : (ts : List FieldType) → List UInt8 →
    Except Nat { vs : List (Option Value) // Fits ts vs }
  | [], _ => .ok ⟨[], trivial⟩
  | .int :: ts, bs => do
    let vs ← decodeEntries ts (bs.drop FieldType.int.width)
    .ok ⟨some (.int (decodeInt bs)) :: vs.1, fun _ h => by cases h; rfl, vs.2⟩
  | .string :: ts, bs => do
    let s ← decodeString bs
    let vs ← decodeEntries ts (bs.drop FieldType.string.width)
    .ok ⟨some (.string s) :: vs.1, fun _ h => by cases h; rfl, vs.2⟩

/-- Reads a row from a slot. Fails with the first stored string length that is too great. -/
def decode (schema : Schema) (bs : List UInt8) : Except Nat Tuple := do
  let vs ← decodeEntries schema.types bs
  .ok { schema, values := vs.1, fits := vs.2 }

end Tuple
end HeapStore
