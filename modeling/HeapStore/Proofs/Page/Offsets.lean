import HeapStore.Page.Offsets
import HeapStore.Proofs.Page.Image

/-!
Reading a page by position never looks up a byte that is not there, and reads what reading in order
reads.
-/

namespace HeapStore
open Bytes

theorem decodeInt_take {n : Nat} (h : 4 ≤ n) (bs : List UInt8) :
    decodeInt (bs.take n) = decodeInt bs := by
  rw [decodeInt, decodeInt, toNat32_take h]

/-- A string is read from the bytes of its field. -/
theorem decodeString_take (bs : List UInt8) :
    decodeString (bs.take FieldType.string.width) = decodeString bs := by
  simp only [decodeString, toNat32_take (by decide : 4 ≤ FieldType.string.width)]
  split
  next => rfl
  next room =>
    have width : FieldType.string.width = 4 + stringRoom := rfl
    rw [List.drop_take, List.take_take, width, Nat.add_sub_cancel_left,
      Nat.min_eq_left (Nat.le_of_not_lt room)]

theorem FieldType.run_decode?_int {field : List UInt8} (h : field.length = int.width) :
    (int.decode? field).run = some (.ok ⟨.int (decodeInt field), rfl⟩) := by
  rw [decode?, run_lookup (readAt?_of_le (Nat.le_of_eq h.symm)), List.drop_zero]
  rw [decodeInt_take (Nat.le_refl 4)]
  rfl

theorem FieldType.run_decode?_string {field : List UInt8} (h : field.length = string.width) :
    (string.decode? field).run = some ((decodeString field).map fun s => ⟨.string s, rfl⟩) := by
  have width : string.width = 4 + stringRoom := rfl
  rw [decode?, run_lookup (readAt?_of_le (by omega)), List.drop_zero, toNat32_take (Nat.le_refl 4),
    decodeString]
  simp only
  split
  next => rfl
  next room =>
    rw [run_lookup (readAt?_of_le (by omega))]
    rfl

namespace Tuple

theorem run_decodeEntries? {slot : List UInt8} (ts : List FieldType) {offset : Nat}
    (h : offset + ts.foldr (·.width + ·) 0 ≤ slot.length) :
    (decodeEntries? slot ts offset).run = some (decodeEntries ts (slot.drop offset)) := by
  induction ts generalizing offset with
  | nil => rfl
  | cons t ts ih =>
      rw [List.foldr_cons] at h
      have field : ((slot.drop offset).take t.width).length = t.width := by
        rw [List.length_take, List.length_drop]
        omega
      rw [decodeEntries?, run_lookup (readAt?_of_le (by omega))]
      have rest : (decodeEntries? slot ts (offset + t.width)).run =
          some (decodeEntries ts ((slot.drop offset).drop t.width)) := by
        rw [List.drop_drop]
        exact ih (by omega)
      cases t with
      | int =>
          refine (run_bind (FieldType.run_decode?_int field) fun v _ =>
            run_bind rest fun vs _ => rfl).trans ?_
          rw [decodeInt_take (by decide)]
          rfl
      | string =>
          refine (run_bind (FieldType.run_decode?_string field) fun v _ =>
            run_bind rest fun vs _ => rfl).trans ?_
          rw [decodeString_take, decodeEntries]
          cases decodeString (slot.drop offset) <;> rfl

theorem run_decode? {schema : Schema} {slot : List UInt8} (h : slot.length = schema.width) :
    (decode? schema slot).run = some (decode schema slot) := by
  have whole : 0 + schema.width ≤ slot.length := Nat.le_of_eq ((Nat.zero_add _).trans h.symm)
  have entries := run_decodeEntries? schema.types whole
  exact run_bind entries fun vs _ => rfl

end Tuple

namespace Schema
variable {schema : Schema} {data : List UInt8}

theorem slotOffset_zero (s : Schema) : s.slotOffset 0 = headerSize s.slotsPerPage := by
  rw [slotOffset, Nat.zero_mul, Nat.add_zero]

theorem slotOffset_succ (s : Schema) (i : Nat) :
    s.slotOffset i + s.width = s.slotOffset (i + 1) := by
  rw [slotOffset, slotOffset, Nat.succ_mul, Nat.add_assoc]

theorem slotOffset_add_width_le {i : Nat} (h : i < schema.slotsPerPage) :
    schema.slotOffset i + schema.width ≤ pageSize := by
  have fits := headerSize_add_slots_le schema
  have last : (i + 1) * schema.width ≤ schema.slotsPerPage * schema.width :=
    Nat.mul_le_mul_right _ h
  rw [slotOffset_succ, slotOffset]
  omega

theorem length_slotBytes (hd : data.length = pageSize) {i : Nat} (h : i < schema.slotsPerPage) :
    (schema.slotBytes data i).length = schema.width := by
  have := slotOffset_add_width_le h
  rw [slotBytes, List.length_take, List.length_drop]
  omega

end Schema

namespace HeapPage
variable {id : PageId} {schema : Schema} {data : List UInt8}

/-- What slot `i` holds. -/
def decodeSlot (id : PageId) (schema : Schema) (data : List UInt8) (i : Nat) :
    Except Corruption (Option Tuple) :=
  if slotBit data i then
    match Tuple.decode schema (schema.slotBytes data i) with
    | .error length => .error (.stringLength i length)
    | .ok t => .ok (some (t.located (some ⟨id, i⟩)))
  else .ok none

theorem header_lt {i : Nat} (h : i < schema.slotsPerPage) :
    i / 8 < headerSize schema.slotsPerPage := by
  unfold headerSize
  omega

theorem getElem?_header {i : Nat} (hd : data.length = pageSize) (h : i < schema.slotsPerPage) :
    (data.take (headerSize schema.slotsPerPage))[i / 8]? = some (data.getD (i / 8) 0) := by
  have inside := Schema.slotOffset_add_width_le h
  have byte := header_lt h
  rw [Schema.slotOffset] at inside
  have here : i / 8 < data.length := by omega
  rw [List.getElem?_take_of_lt byte, List.getD_eq_getElem?_getD, List.getElem?_eq_getElem here,
    Option.getD_some]

theorem run_decodeSlot? (hd : data.length = pageSize) {i : Nat} (h : i < schema.slotsPerPage) :
    (decodeSlot? id schema (data.take (headerSize schema.slotsPerPage)) data i).run =
      some (decodeSlot id schema data i) := by
  rw [decodeSlot?, run_lookup (getElem?_header hd h), decodeSlot, slotBit]
  split
  next =>
    have inside := Schema.slotOffset_add_width_le h
    rw [run_lookup (readAt?_of_le (by omega))]
    have row := run_adapt (Tuple.run_decode? (Schema.length_slotBytes hd h))
      (Corruption.stringLength i)
    refine (run_bind row fun t _ => rfl).trans ?_
    cases Tuple.decode schema (schema.slotBytes data i) <;> rfl
  next => rfl

/-- The header says of every slot whether it is used. -/
theorem take_bits (hd : data.length = pageSize) :
    (unpack (data.take (headerSize schema.slotsPerPage))).take schema.slotsPerPage =
      (List.range schema.slotsPerPage).map (slotBit data) := by
  apply List.ext_getElem?
  intro i
  rw [List.getElem?_take, List.getElem?_map]
  by_cases hi : i < schema.slotsPerPage
  · rw [if_pos hi, getElem?_unpack, getElem?_header hd hi, List.getElem?_range hi, Option.map_some,
      Option.map_some, slotBit]
  · rw [if_neg hi, List.getElem?_eq_none (by rw [List.length_range]; omega), Option.map_none]

/-- In order, the slots are read one by one. -/
theorem decodeSlots_eq_mapM (id : PageId) (schema : Schema) (data : List UInt8) (first m : Nat) :
    decodeSlots id schema first ((List.range' first m).map (slotBit data))
        (data.drop (schema.slotOffset first)) =
      (List.range' first m).mapM (decodeSlot id schema data) := by
  induction m generalizing first with
  | zero => rfl
  | succ m ih =>
      rw [List.range'_succ, List.map_cons, List.mapM_cons, ← ih, decodeSlot]
      cases slotBit data first with
      | false =>
          rw [decodeSlots, List.drop_drop, schema.slotOffset_succ]
          rfl
      | true =>
          rw [decodeSlots, List.drop_drop, schema.slotOffset_succ, if_pos rfl, Schema.slotBytes]
          generalize Tuple.decode schema _ = row
          cases row <;> rfl

/-- What is read of bytes as many as a page has. -/
theorem decode_eq (hd : data.length = pageSize) :
    decode id schema data =
      ((List.range schema.slotsPerPage).mapM (decodeSlot id schema data)).mapError
        (.corrupted id) >>= fun slots => .ok {
          id, schema, slots
          spare := (unpack (data.take (headerSize schema.slotsPerPage))).drop schema.slotsPerPage
          dirtiedBy := none
          beforeImage := data } := by
  have slots := decodeSlots_eq_mapM id schema data 0 schema.slotsPerPage
  rw [schema.slotOffset_zero, ← List.range_eq_range'] at slots
  simp only [decode, decodeContent, hd, ne_eq, not_true_eq_false, if_false, take_bits hd, slots]
  cases (List.range schema.slotsPerPage).mapM (decodeSlot id schema data) <;> rfl

/-- No byte is looked up that is not there. -/
theorem run_decode? (id : PageId) (schema : Schema) (data : List UInt8) :
    (decode? id schema data).run = some (decode id schema data) := by
  rw [decode?]
  split
  next hd => 
    simp only [decode, decodeContent, hd, ne_eq, not_false_eq_true, if_true]
    rfl
  next hd =>
    have hd : data.length = pageSize := Decidable.not_not.mp hd
    have header : headerSize schema.slotsPerPage ≤ pageSize :=
      Nat.le_trans (Nat.le_add_right _ _) (headerSize_add_slots_le schema)
    have slots := run_mapM fun i (hi : i ∈ List.range schema.slotsPerPage) =>
      @run_decodeSlot? id _ _ hd _ (List.mem_range.mp hi)
    simp only
    rw [run_lookup (readAt?_of_le (by omega)), List.drop_zero, decode_eq hd]
    exact run_bind (run_adapt slots (Error.corrupted id)) fun slots _ => rfl

end HeapPage
end HeapStore
