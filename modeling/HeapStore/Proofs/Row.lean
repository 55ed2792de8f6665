import HeapStore.Proofs.Bytes
import HeapStore.Proofs.Fallible
import HeapStore.Proofs.Text.Utf8
import HeapStore.Tuple

/-!
What a page keeps of a row: its entries with every string cut. Writing a row keeps exactly that,
and two rows of the same types of which the same is kept have the same image.
-/

namespace HeapStore
open Bytes

namespace Value

@[simp] theorem type_stored (v : Value) : v.stored.type = v.type := by
  cases v <;> rfl

@[simp] theorem stored_stored (v : Value) : v.stored.stored = v.stored := by
  cases v with
  | int n => rfl
  | string s => simp [stored, Utf8.cut_cut]

@[simp] theorem encode_stored (v : Value) : v.stored.encode = v.encode := by
  cases v with
  | int n => rfl
  | string s => simp [stored, encode, Utf8.cut_cut]

@[simp] theorem length_encode (v : Value) : v.encode.length = v.type.width := by
  cases v with
  | int n => simp [encode, type, FieldType.width]
  | string s => simp [encode, type, FieldType.width]

end Value

theorem decodeInt_encode (n : Int32) (rest : List UInt8) :
    decodeInt ((Value.int n).encode ++ rest) = n := by
  have h : n.toUInt32.toNat < 4294967296 := n.toUInt32.toNat_lt
  rw [decodeInt, Value.encode, toNat32_ofNat32 h]
  apply Int32.toBitVec_inj.mp
  simp [Int32.toBitVec_ofNat']

theorem decodeString_encode (s : String) (rest : List UInt8) :
    decodeString ((Value.string s).encode ++ rest) =
      .ok (String.ofList (Utf8.cut stringRoom s.toList)) := by
  have hl := Utf8.length_encode_cut_le stringRoom s.toList
  have hs : stringRoom < 4294967296 := by decide
  simp only [decodeString, Value.encode, List.append_assoc]
  rw [toNat32_ofNat32 (by omega), if_neg (by omega), List.drop_left' (length_ofNat32 _),
    resize_eq_append hl, List.append_assoc, List.take_left, Utf8.decode_encode]

namespace Fits

theorem stored {ts : List FieldType} {vs : List (Option Value)} (h : Fits ts vs) :
    Fits ts (vs.map (Option.map Value.stored)) := by
  induction ts generalizing vs with
  | nil => cases vs with
    | nil => trivial
    | cons => exact h.elim
  | cons t ts ih => cases vs with
    | nil => exact h.elim
    | cons v vs =>
        refine ⟨fun x hx => ?_, ih h.2⟩
        obtain ⟨y, hy, rfl⟩ := Option.map_eq_some_iff.mp hx
        rw [Value.type_stored]
        exact h.1 y hy

end Fits

/-- The entries of a row as a page keeps them. -/
abbrev Row := List (Option Value)

namespace Tuple

/-- What a page keeps of a row. -/
def row (t : Tuple) : Row :=
  t.values.map (Option.map Value.stored)

@[simp] theorem row_located (t : Tuple) (rid : Option RecordId) : (t.located rid).row = t.row :=
  rfl

/-- A row that has been read back is kept as it is. -/
theorem row_of_values {t u : Tuple} (h : u.values = t.row) : u.row = t.row := by
  simp only [row, h, List.map_map]
  apply List.map_congr_left
  intro v _
  cases v <;> simp

def encodeEntries (ts : List FieldType) (vs : List (Option Value)) : List UInt8 :=
  (List.zipWith encodeEntry ts vs).flatten

theorem encodeEntries_cons (t : FieldType) (ts : List FieldType) (v : Option Value)
    (vs : List (Option Value)) :
    encodeEntries (t :: ts) (v :: vs) = encodeEntry t v ++ encodeEntries ts vs :=
  rfl

/-- The image of an entry is as wide as its field. -/
theorem length_encodeEntry {t : FieldType} {v : Option Value} (h : ∀ x, v = some x → x.type = t) :
    (encodeEntry t v).length = t.width := by
  cases v with
  | none => exact length_zeros _
  | some x => exact (Value.length_encode x).trans (congrArg _ (h x rfl))

theorem encodeEntries_stored (ts : List FieldType) (vs : List (Option Value)) :
    encodeEntries ts (vs.map (Option.map Value.stored)) = encodeEntries ts vs := by
  induction ts generalizing vs with
  | nil => simp [encodeEntries]
  | cons t ts ih => cases vs with
    | nil => rfl
    | cons v vs =>
        rw [List.map_cons, encodeEntries_cons, encodeEntries_cons, ih vs]
        cases v <;> simp [encodeEntry]

/-- The image of a row is decided by its types and by what is kept of it. -/
theorem encode_eq (t : Tuple) : t.encode = encodeEntries t.schema.types t.row :=
  (encodeEntries_stored _ _).symm

theorem length_encodeEntries {ts : List FieldType} {vs : List (Option Value)} (h : Fits ts vs) :
    (encodeEntries ts vs).length = ts.foldr (·.width + ·) 0 := by
  induction ts generalizing vs with
  | nil => rfl
  | cons t ts ih => cases vs with
    | nil => exact h.elim
    | cons v vs =>
        rw [encodeEntries_cons, List.length_append, length_encodeEntry h.1, ih h.2, List.foldr_cons]

theorem length_encode (t : Tuple) : t.encode.length = t.schema.width :=
  length_encodeEntries t.fits

theorem decodeEntries_encodeEntries {ts : List FieldType} {vs : List (Option Value)}
    (h : Fits ts vs) (hc : vs.all Option.isSome) (rest : List UInt8) :
    decodeEntries ts (encodeEntries ts vs ++ rest) =
      .ok ⟨vs.map (Option.map Value.stored), h.stored⟩ := by
  induction ts generalizing vs with
  | nil => cases vs with
    | nil => rfl
    | cons => exact h.elim
  | cons t ts ih => cases vs with
    | nil => exact h.elim
    | cons v vs =>
        simp only [List.all_cons, Bool.and_eq_true] at hc
        obtain ⟨x, rfl⟩ := Option.isSome_iff_exists.mp hc.1
        have tail : (encodeEntries (t :: ts) (some x :: vs) ++ rest) =
            x.encode ++ (encodeEntries ts vs ++ rest) := by
          rw [encodeEntries_cons, List.append_assoc]
          rfl
        have hd : (x.encode ++ (encodeEntries ts vs ++ rest)).drop t.width =
            encodeEntries ts vs ++ rest := by
          apply List.drop_left'
          rw [Value.length_encode, h.1 x rfl]
        have hx := h.1 x rfl
        rw [tail]
        cases x with
        | int n =>
            obtain rfl : FieldType.int = t := hx
            simp only [decodeEntries]
            rw [hd, ih h.2 hc.2]
            refine congrArg Except.ok (Subtype.ext ?_)
            show some (Value.int (decodeInt _)) :: _ = _
            rw [decodeInt_encode]
            rfl
        | string s =>
            obtain rfl : FieldType.string = t := hx
            simp only [decodeEntries]
            rw [hd, ih h.2 hc.2, decodeString_encode]
            rfl

/-- A complete row is read back as what is kept of it. -/
theorem decode_encode {t : Tuple} {schema : Schema} (hs : t.schema.types = schema.types)
    (hc : t.isComplete) (rest : List UInt8) :
    ∃ u, decode schema (t.encode ++ rest) = .ok u ∧ u.values = t.row ∧ u.isComplete ∧
      u.schema = schema := by
  have fits : Fits schema.types t.values := hs ▸ t.fits
  have henc : t.encode = encodeEntries schema.types t.values := by rw [← hs]; rfl
  refine ⟨⟨schema, t.values.map (Option.map Value.stored), none, fits.stored⟩, ?_, rfl, ?_, rfl⟩
  · rw [decode, henc, decodeEntries_encodeEntries fits hc]
    rfl
  · simp only [isComplete, List.all_map] at hc ⊢
    simpa [Function.comp_def] using hc

theorem decodeEntries_int_ok {ts : List FieldType} {bs : List UInt8}
    {vs : { vs // Fits (.int :: ts) vs }} (h : decodeEntries (.int :: ts) bs = .ok vs) :
    ∃ ws, decodeEntries ts (bs.drop FieldType.int.width) = .ok ws ∧
      vs.1 = some (.int (decodeInt bs)) :: ws.1 := by
  obtain ⟨ws, hw, h⟩ := bind_ok_iff.mp h
  cases h
  exact ⟨ws, hw, rfl⟩

theorem decodeEntries_string_ok {ts : List FieldType} {bs : List UInt8}
    {vs : { vs // Fits (.string :: ts) vs }} (h : decodeEntries (.string :: ts) bs = .ok vs) :
    ∃ s ws, decodeString bs = .ok s ∧
      decodeEntries ts (bs.drop FieldType.string.width) = .ok ws ∧
      vs.1 = some (.string s) :: ws.1 := by
  obtain ⟨s, hs, h⟩ := bind_ok_iff.mp h
  obtain ⟨ws, hw, h⟩ := bind_ok_iff.mp h
  cases h
  exact ⟨s, ws, hs, hw, rfl⟩

theorem decodeEntries_complete {ts : List FieldType} {bs : List UInt8}
    {vs : { vs : List (Option Value) // Fits ts vs }} (h : decodeEntries ts bs = .ok vs) :
    vs.1.all Option.isSome := by
  induction ts generalizing bs with
  | nil =>
      cases h
      rfl
  | cons t ts ih =>
      cases t with
      | int =>
          obtain ⟨ws, hw, values⟩ := decodeEntries_int_ok h
          rw [values, List.all_cons, ih hw]
          rfl
      | string =>
          obtain ⟨s, ws, _, hw, values⟩ := decodeEntries_string_ok h
          rw [values, List.all_cons, ih hw]
          rfl

theorem decode_ok {schema : Schema} {bs : List UInt8} {t : Tuple}
    (h : decode schema bs = .ok t) : t.schema = schema ∧ t.isComplete := by
  obtain ⟨vs, hv, h⟩ := bind_ok_iff.mp h
  cases h
  exact ⟨rfl, decodeEntries_complete hv⟩

end Tuple
end HeapStore
