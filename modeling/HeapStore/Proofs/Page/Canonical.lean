import HeapStore.Proofs.Page.Offsets
import HeapStore.Proofs.Page.RoundTrip
import Mathlib.Data.List.Flatten

/-!
Which bytes are a page, and which are the image of a page. Reading fails for the length of the
bytes or for the length of a string in a used slot, and for nothing else. Reading and writing
keeps the header; it keeps all of a page just when nothing is there but what the header and the
lengths account for, and the text of every string is valid.
-/

namespace HeapStore
open Bytes

/-- Nothing is in the field but its length and a text of that length. -/
structure TidyString (field : List UInt8) : Prop where
  text : ((field.drop 4).take (toNat32 field)).toByteArray.IsValidUTF8
  padding : field.drop (4 + toNat32 field) = zeros (stringRoom - toNat32 field)

theorem decodeString_ok {field : List UInt8} {s : String} (h : decodeString field = .ok s) :
    toNat32 field ≤ stringRoom ∧
      s = String.ofList (Utf8.decode ((field.drop 4).take (toNat32 field))) := by
  simp only [decodeString] at h
  split at h
  next => cases h
  next room =>
    cases h
    exact ⟨Nat.le_of_not_lt room, rfl⟩

theorem decodeString_error {field : List UInt8} {length : Nat}
    (h : decodeString field = .error length) : length = toNat32 field ∧ stringRoom < length := by
  simp only [decodeString] at h
  split at h
  next room =>
    cases h
    exact ⟨rfl, room⟩
  next => cases h

theorem encode_decodeInt {field : List UInt8} (h : field.length = FieldType.int.width) :
    (Value.int (decodeInt field)).encode = field := by
  have same : (decodeInt field).toUInt32.toNat = toNat32 field := by
    rw [decodeInt]
    have : (Int32.ofNat (toNat32 field)).toUInt32 = UInt32.ofNat (toNat32 field) := rfl
    rw [this, UInt32.toNat_ofNat_of_lt' (toNat32_lt h)]
  rw [Value.encode, same, ofNat32_toNat32 h]

/-- A string that is read is written as it was just when it was tidy. -/
theorem encode_decodeString_iff {field : List UInt8} {s : String}
    (h : field.length = FieldType.string.width) (hs : decodeString field = .ok s) :
    (Value.string s).encode = field ↔ TidyString field := by
  obtain ⟨room, rfl⟩ := decodeString_ok hs
  have length : field.length = 4 + stringRoom := h
  have small : stringRoom < 4294967296 := by decide
  simp only [Value.encode, String.toList_ofList]
  constructor
  · intro same
    have fits := Utf8.size_cut_le stringRoom (Utf8.decode ((field.drop 4).take (toNat32 field)))
    generalize Utf8.cut stringRoom (Utf8.decode ((field.drop 4).take (toNat32 field))) = cs
      at same fits
    rw [← Utf8.length_encode] at fits
    have size : toNat32 field = (Utf8.encode cs).length := by
      rw [← same, toNat32_ofNat32 (by omega)]
    have rest : field.drop 4 = Utf8.encode cs ++ zeros (stringRoom - (Utf8.encode cs).length) := by
      rw [← same, List.drop_left' (length_ofNat32 _), resize_eq_append fits]
    refine ⟨?_, ?_⟩
    · rw [rest, size, List.take_left]
      exact (Utf8.isValidUTF8_iff _).mpr ⟨cs, rfl⟩
    · rw [← List.drop_drop, rest, size, List.drop_left]
  · rintro ⟨text, padding⟩
    obtain ⟨cs, hcs⟩ := (Utf8.isValidUTF8_iff _).mp text
    have size : Utf8.size cs = toNat32 field := by
      rw [← Utf8.length_encode, ← hcs, List.length_take, List.length_drop]
      omega
    have fits : Utf8.size cs ≤ stringRoom := size ▸ room
    rw [hcs, Utf8.decode_encode, Utf8.cut_eq_self fits,
      resize_eq_append ((Utf8.length_encode cs).symm ▸ fits), Utf8.length_encode, size, ← padding,
      ← hcs]
    calc ofNat32 (toNat32 field) ++
          ((field.drop 4).take (toNat32 field) ++ field.drop (4 + toNat32 field))
      _ = field.take 4 ++ field.drop 4 := by
          rw [← List.drop_drop, List.take_append_drop, ← toNat32_take (Nat.le_refl 4),
            ofNat32_toNat32 (by rw [List.length_take]; omega)]
      _ = field := List.take_append_drop 4 field

theorem stringBytes_zero (ts : List FieldType) (slot : List UInt8) :
    stringBytes ts slot 0 = slot.take FieldType.string.width := by
  cases ts <;> rfl

theorem stringBytes_succ (t : FieldType) (ts : List FieldType) (slot : List UInt8) (k : Nat) :
    stringBytes (t :: ts) slot (k + 1) = stringBytes ts (slot.drop t.width) k := by
  rw [stringBytes, stringBytes, fieldOffset, List.drop_drop]

/-- The bytes of every string of a row are of this kind. -/
def EveryString (P : List UInt8 → Prop) (ts : List FieldType) (slot : List UInt8) : Prop :=
  ∀ k, ts[k]? = some .string → P (stringBytes ts slot k)

theorem everyString_nil {P : List UInt8 → Prop} {slot : List UInt8} : EveryString P [] slot :=
  fun _ hk => nomatch hk

theorem everyString_cons {P : List UInt8 → Prop} {t : FieldType} {ts : List FieldType}
    {slot : List UInt8} :
    EveryString P (t :: ts) slot ↔
      (t = .string → P (slot.take t.width)) ∧ EveryString P ts (slot.drop t.width) := by
  constructor
  · intro h
    refine ⟨fun ht => ?_, fun k hk => ?_⟩
    · subst ht
      exact stringBytes_zero (.string :: ts) slot ▸ h 0 rfl
    · exact stringBytes_succ t ts slot k ▸ h (k + 1) hk
  · rintro ⟨head, tail⟩ k hk
    cases k with
    | zero =>
        obtain rfl : t = .string := Option.some.inj hk
        exact (stringBytes_zero (.string :: ts) slot).symm ▸ head rfl
    | succ k => exact (stringBytes_succ t ts slot k).symm ▸ tail k hk

/-- The length of the string is one that a string can have. -/
def Fitting (field : List UInt8) : Prop :=
  toNat32 field ≤ stringRoom

/-- `length` is that of the first string that is longer than it can be. -/
def FirstOverlong (ts : List FieldType) (slot : List UInt8) (length : Nat) : Prop :=
  ∃ k, ts[k]? = some .string ∧ toNat32 (stringBytes ts slot k) = length ∧ stringRoom < length ∧
    ∀ j < k, ts[j]? = some .string → Fitting (stringBytes ts slot j)

theorem FirstOverlong.cons {t : FieldType} {ts : List FieldType} {slot : List UInt8} {length : Nat}
    (h : FirstOverlong ts (slot.drop t.width) length)
    (head : t = .string → Fitting (slot.take FieldType.string.width)) :
    FirstOverlong (t :: ts) slot length := by
  obtain ⟨k, hk, here, excess, before⟩ := h
  refine ⟨k + 1, hk, (stringBytes_succ t ts slot k).symm ▸ here, excess, fun j hj ht => ?_⟩
  cases j with
  | zero => exact (stringBytes_zero (t :: ts) slot).symm ▸ head (Option.some.inj ht)
  | succ j =>
      exact (stringBytes_succ t ts slot j).symm ▸ before j (Nat.lt_of_succ_lt_succ hj) ht

theorem FirstOverlong.not_every {ts : List FieldType} {slot : List UInt8} {length : Nat}
    (h : FirstOverlong ts slot length) : ¬ EveryString Fitting ts slot := by
  obtain ⟨k, hk, rfl, excess, _⟩ := h
  exact fun every => absurd (every k hk) (Nat.not_le_of_lt excess)

namespace Tuple
variable {ts : List FieldType} {slot : List UInt8}

theorem every_fitting_of_decodeEntries {vs : { vs // Fits ts vs }}
    (h : decodeEntries ts slot = .ok vs) : EveryString Fitting ts slot := by
  induction ts generalizing slot with
  | nil => exact everyString_nil
  | cons t ts ih =>
      rw [everyString_cons]
      cases t with
      | int =>
          obtain ⟨ws, hw, _⟩ := decodeEntries_int_ok h
          exact ⟨nofun, ih hw⟩
      | string =>
          obtain ⟨s, ws, hs, hw, _⟩ := decodeEntries_string_ok h
          rw [← decodeString_take] at hs
          exact ⟨fun _ => (decodeString_ok hs).1, ih hw⟩

theorem firstOverlong_of_decodeEntries {length : Nat} (h : decodeEntries ts slot = .error length) :
    FirstOverlong ts slot length := by
  induction ts generalizing slot with
  | nil => cases h
  | cons t ts ih =>
      cases t with
      | int =>
          rcases bind_error_iff.mp h with rest | ⟨_, _, h⟩
          · exact (ih rest).cons nofun
          · cases h
      | string =>
          rcases bind_error_iff.mp h with here | ⟨s, hs, h⟩
          · rw [← decodeString_take] at here
            obtain ⟨length, excess⟩ := decodeString_error here
            refine ⟨0, rfl, ?_, excess, fun j hj => absurd hj (Nat.not_lt_zero j)⟩
            rw [stringBytes_zero, length]
          · rw [← decodeString_take] at hs
            rcases bind_error_iff.mp h with rest | ⟨_, _, h⟩
            · exact (ih rest).cons fun _ => (decodeString_ok hs).1
            · cases h

/-- A row that is read is written as it was just when its strings were tidy. -/
theorem encodeEntries_eq_iff {vs : { vs // Fits ts vs }} (h : decodeEntries ts slot = .ok vs)
    (length : slot.length = ts.foldr (·.width + ·) 0) :
    encodeEntries ts vs.1 = slot ↔ EveryString TidyString ts slot := by
  induction ts generalizing slot with
  | nil =>
      rw [List.eq_nil_of_length_eq_zero length]
      exact ⟨fun _ => everyString_nil, fun _ => rfl⟩
  | cons t ts ih =>
      rw [List.foldr_cons] at length
      have head : (slot.take t.width).length = t.width := by
        rw [List.length_take]
        omega
      have tail : (slot.drop t.width).length = ts.foldr (·.width + ·) 0 := by
        rw [List.length_drop]
        omega
      have parts (v : Value) (ws : Row) (hv : v.type = t) :
          encodeEntries (t :: ts) (some v :: ws) = slot ↔
            v.encode = slot.take t.width ∧ encodeEntries ts ws = slot.drop t.width := by
        have first : v.encode.length = (slot.take t.width).length := by
          rw [Value.length_encode, hv, head]
        have whole : encodeEntries (t :: ts) (some v :: ws) = v.encode ++ encodeEntries ts ws := rfl
        rw [whole]
        constructor
        · intro same
          exact List.append_inj (same.trans (List.take_append_drop t.width slot).symm) first
        · rintro ⟨here, rest⟩
          rw [here, rest, List.take_append_drop]
      rw [everyString_cons]
      cases t with
      | int =>
          obtain ⟨ws, hw, values⟩ := decodeEntries_int_ok h
          rw [values, parts _ _ rfl, ih hw tail, ← decodeInt_take (Nat.le_refl 4)]
          exact and_congr_left fun _ => ⟨fun _ => nofun, fun _ => encode_decodeInt head⟩
      | string =>
          obtain ⟨s, ws, hs, hw, values⟩ := decodeEntries_string_ok h
          rw [← decodeString_take] at hs
          rw [values, parts _ _ rfl, ih hw tail, encode_decodeString_iff head hs]
          exact and_congr_left fun _ => ⟨fun tidy _ => tidy, fun tidy => tidy rfl⟩

end Tuple

namespace HeapPage

/-- Bytes that are a page: as many as a page has, with no string in a used slot that is longer
than it can be. -/
structure Acceptable (schema : Schema) (data : List UInt8) : Prop where
  size : data.length = pageSize
  fitting : ∀ i < schema.slotsPerPage, slotBit data i →
    EveryString Fitting schema.types (schema.slotBytes data i)

/-- Slot `i` is the first used one with a string that is longer than it can be, and `length` is
that of the first such string. -/
structure FirstOffence (schema : Schema) (data : List UInt8) (i length : Nat) : Prop where
  slot : i < schema.slotsPerPage
  used : slotBit data i
  overlong : FirstOverlong schema.types (schema.slotBytes data i) length
  before : ∀ j < i, slotBit data j → EveryString Fitting schema.types (schema.slotBytes data j)

/-- Nothing is in the free slots and after the last slot, and the strings in the used slots are
tidy. -/
structure Canonical (schema : Schema) (data : List UInt8) : Prop where
  free : ∀ i < schema.slotsPerPage, slotBit data i = false →
    schema.slotBytes data i = zeros schema.width
  rest : data.drop (schema.slotOffset schema.slotsPerPage) =
    zeros (pageSize - schema.slotOffset schema.slotsPerPage)
  tidy : ∀ i < schema.slotsPerPage, slotBit data i →
    EveryString TidyString schema.types (schema.slotBytes data i)

variable {id : PageId} {schema : Schema} {data : List UInt8} {p : HeapPage}

theorem FirstOffence.not_acceptable {i length : Nat} (h : FirstOffence schema data i length) :
    ¬ Acceptable schema data :=
  fun acceptable => h.overlong.not_every (acceptable.fitting i h.slot h.used)

/-- What there is to say of a slot that can be read. -/
structure Slot (schema : Schema) (data : List UInt8) (i : Nat) (slot : Option Tuple) : Prop where
  used : slot.isSome = slotBit data i
  fitting : slotBit data i → EveryString Fitting schema.types (schema.slotBytes data i)
  image : (schema.slotBytes data i).length = schema.width →
    (slotImage schema slot = schema.slotBytes data i ↔
      (slotBit data i = false → schema.slotBytes data i = zeros schema.width) ∧
      (slotBit data i → EveryString TidyString schema.types (schema.slotBytes data i)))

theorem decodeSlot_ok {i : Nat} {slot : Option Tuple} (h : decodeSlot id schema data i = .ok slot) :
    Slot schema data i slot := by
  rw [decodeSlot] at h
  cases hb : slotBit data i with
  | false =>
      rw [hb] at h
      cases h
      refine ⟨hb.symm, fun used => absurd (hb.symm.trans used) Bool.false_ne_true,
        fun _ => ?_⟩
      rw [hb]
      exact ⟨fun same => ⟨fun _ => same.symm, fun used => absurd used Bool.false_ne_true⟩,
        fun free => (free.1 rfl).symm⟩
  | true =>
      rw [hb, if_pos rfl] at h
      cases ht : Tuple.decode schema (schema.slotBytes data i) with
      | error length =>
          rw [ht] at h
          cases h
      | ok t =>
          rw [ht] at h
          cases h
          obtain ⟨vs, hv, ht⟩ := bind_ok_iff.mp ht
          cases ht
          refine ⟨hb.symm, fun _ => Tuple.every_fitting_of_decodeEntries hv, fun length => ?_⟩
          rw [hb]
          exact (Tuple.encodeEntries_eq_iff hv length).trans
            ⟨fun tidy => ⟨fun free => absurd free.symm Bool.false_ne_true, fun _ => tidy⟩,
              fun h => h.2 rfl⟩

theorem decodeSlot_error {i : Nat} {cause : Corruption}
    (h : decodeSlot id schema data i = .error cause) :
    slotBit data i ∧ ∃ length, cause = .stringLength i length ∧
      FirstOverlong schema.types (schema.slotBytes data i) length := by
  rw [decodeSlot] at h
  cases hb : slotBit data i with
  | false =>
      rw [hb] at h
      cases h
  | true =>
      rw [hb, if_pos rfl] at h
      cases ht : Tuple.decode schema (schema.slotBytes data i) with
      | ok t =>
          rw [ht] at h
          cases h
      | error length =>
          rw [ht] at h
          cases h
          refine ⟨rfl, length, rfl, ?_⟩
          rcases bind_error_iff.mp ht with fails | ⟨_, _, h⟩
          · exact Tuple.firstOverlong_of_decodeEntries fails
          · cases h

theorem decode_of_length_ne (h : data.length ≠ pageSize) :
    decode id schema data = .error (.corrupted id (.imageSize data.length)) := by
  simp [decode, decodeContent, h, bind, Except.bind]

theorem firstOffence_of_decode {e : Error} (hd : data.length = pageSize)
    (h : decode id schema data = .error e) :
    ∃ i length, FirstOffence schema data i length ∧
      e = .corrupted id (.stringLength i length) := by
  rw [decode_eq hd] at h
  obtain fails | ⟨_, _, h⟩ := bind_error_iff.mp h
  · cases hm : (List.range schema.slotsPerPage).mapM (decodeSlot id schema data) with
    | ok slots =>
        rw [hm] at fails
        cases fails
    | error cause =>
        rw [hm] at fails
        cases fails
        obtain ⟨i, a, hi, here, before⟩ := first_of_mapM hm
        obtain ⟨lt, rfl⟩ : i < schema.slotsPerPage ∧ i = a := by
          simpa [List.getElem?_eq_some_iff] using hi
        obtain ⟨used, length, rfl, overlong⟩ := decodeSlot_error here
        refine ⟨i, length, ⟨lt, used, overlong, fun j hj hb => ?_⟩, rfl⟩
        obtain ⟨slot, hs⟩ := before j hj j (List.getElem?_range (Nat.lt_trans hj lt))
        exact (decodeSlot_ok hs).fitting hb
  · cases h

/-- What a page has that is read. -/
structure Parts (id : PageId) (schema : Schema) (data : List UInt8) (p : HeapPage) : Prop where
  size : data.length = pageSize
  slot : ∀ i < schema.slotsPerPage, decodeSlot id schema data i = .ok (p.get? i)
  spare : p.spare =
    (unpack (data.take (headerSize schema.slotsPerPage))).drop schema.slotsPerPage

theorem parts_of_decode (h : decode id schema data = .ok p) : Parts id schema data p := by
  by_cases hd : data.length = pageSize
  · rw [decode_eq hd] at h
    obtain ⟨slots, read, h⟩ := bind_ok_iff.mp h
    cases hm : (List.range schema.slotsPerPage).mapM (decodeSlot id schema data) with
    | error cause =>
        rw [hm] at read
        cases read
    | ok slots' =>
        rw [hm] at read
        cases read
        cases h
        have each := map_of_mapM hm
        refine ⟨hd, fun i hi => ?_, rfl⟩
        have here := congrArg (fun l => l[i]?) each
        simp only [List.getElem?_map, List.getElem?_range hi, Option.map_some] at here
        obtain ⟨slot, hs, ok⟩ := Option.map_eq_some_iff.mp here.symm
        rw [get?, hs, ← ok, Option.join_some]
  · rw [decode_of_length_ne hd] at h
    cases h

theorem Sound.slots_eq (h : p.Sound) :
    p.slots = (List.range p.schema.slotsPerPage).map p.get? := by
  apply List.ext_getElem
  · rw [List.length_map, List.length_range, h.length_slots]
  · intro i hi _
    rw [List.getElem_map, List.getElem_range, get?, List.getElem?_eq_getElem hi, Option.join_some]

/-- The header is kept to the bit. -/
theorem header_of_decode (h : decode id schema data = .ok p) :
    p.header = data.take (headerSize schema.slotsPerPage) := by
  obtain ⟨sound, rfl, rfl, _⟩ := decode_ok h
  have parts := parts_of_decode h
  have used : p.slots.map Option.isSome =
      (List.range p.schema.slotsPerPage).map (slotBit data) := by
    rw [sound.slots_eq, List.map_map]
    exact List.map_congr_left fun i hi => (decodeSlot_ok (parts.slot i (List.mem_range.mp hi))).used
  rw [header, used, ← take_bits parts.size, parts.spare, List.take_append_drop, pack_unpack]

theorem flatMap_slotBytes (first m : Nat) :
    (List.range' first m).flatMap (schema.slotBytes data) =
      (data.drop (schema.slotOffset first)).take (m * schema.width) := by
  induction m generalizing first with
  | zero => simp
  | succ m ih =>
      rw [List.range'_succ, List.flatMap_cons, ih, ← schema.slotOffset_succ, Nat.succ_mul,
        Nat.add_comm (m * _), List.take_add, List.drop_drop, Schema.slotBytes]

theorem flatMap_eq_iff {α β : Type} {f g : α → List β} {l : List α}
    (h : ∀ a ∈ l, (f a).length = (g a).length) :
    l.flatMap f = l.flatMap g ↔ ∀ a ∈ l, f a = g a := by
  have lengths : (l.map f).map List.length = (l.map g).map List.length := by
    rw [List.map_map, List.map_map]
    exact List.map_congr_left h
  rw [List.flatMap_def, List.flatMap_def, ← List.map_inj_left, List.eq_iff_flatten_eq]
  exact (and_iff_left lengths).symm

theorem Sound.length_slotImage (h : p.Sound) (i : Nat) :
    (slotImage p.schema (p.get? i)).length = p.schema.width :=
  HeapPage.length_slotImage fun t ht => (h.placed i t (slot_of_get? ht)).1

/-- The bytes of a page are its header, its slots and the rest. -/
theorem bytes_eq_append (schema : Schema) (data : List UInt8) :
    data = data.take (headerSize schema.slotsPerPage) ++
      ((List.range schema.slotsPerPage).flatMap (schema.slotBytes data) ++
        data.drop (schema.slotOffset schema.slotsPerPage)) := by
  rw [List.range_eq_range', flatMap_slotBytes, schema.slotOffset_zero, Schema.slotOffset,
    ← List.drop_drop, List.take_append_drop, List.take_append_drop]

/-- A page is written as its header, its slots and zeros. -/
theorem Sound.image_eq_slots (h : p.Sound) :
    p.image = p.header ++
      ((List.range p.schema.slotsPerPage).flatMap (fun i => slotImage p.schema (p.get? i)) ++
        zeros (pageSize - p.schema.slotOffset p.schema.slotsPerPage)) := by
  have slots : p.slots.flatMap (slotImage p.schema) =
      (List.range p.schema.slotsPerPage).flatMap fun i => slotImage p.schema (p.get? i) := by
    rw [h.slots_eq, List.flatMap_map]
  rw [h.image_eq_append, List.length_append, h.length_header,
    length_flatMap_slotImage h.placed, h.length_slots, slots]
  rfl

theorem image_of_decode (h : decode id schema data = .ok p) :
    p.image = data.take (headerSize schema.slotsPerPage) ++
      ((List.range schema.slotsPerPage).flatMap (fun i => slotImage schema (p.get? i)) ++
        zeros (pageSize - schema.slotOffset schema.slotsPerPage)) := by
  obtain ⟨sound, rfl, rfl, _⟩ := decode_ok h
  rw [sound.image_eq_slots, header_of_decode h]

/-- What is read is written as it was just when it was canonical. -/
theorem image_eq_iff (h : decode id schema data = .ok p) :
    p.image = data ↔ Canonical schema data := by
  have written := image_of_decode h
  have found := bytes_eq_append schema data
  obtain ⟨sound, rfl, rfl, _⟩ := decode_ok h
  have parts := parts_of_decode h
  have length (i : Nat) (hi : i ∈ List.range p.schema.slotsPerPage) :
      (slotImage p.schema (p.get? i)).length = (p.schema.slotBytes data i).length := by
    rw [sound.length_slotImage, Schema.length_slotBytes parts.size (List.mem_range.mp hi)]
  have slot (i : Nat) (hi : i < p.schema.slotsPerPage) :=
    (decodeSlot_ok (parts.slot i hi)).image (Schema.length_slotBytes parts.size hi)
  constructor
  · intro same
    have body := List.append_cancel_left (written.symm.trans (same.trans found))
    obtain ⟨slots, rest⟩ := List.append_inj body
      (by rw [List.length_flatMap, List.length_flatMap, List.map_congr_left length])
    have each := (flatMap_eq_iff length).mp slots
    exact ⟨fun i hi => ((slot i hi).mp (each i (List.mem_range.mpr hi))).1, rest.symm,
      fun i hi => ((slot i hi).mp (each i (List.mem_range.mpr hi))).2⟩
  · rintro ⟨free, rest, tidy⟩
    have slots := (flatMap_eq_iff length).mpr fun i hi =>
      (slot i (List.mem_range.mp hi)).mpr
        ⟨free i (List.mem_range.mp hi), tidy i (List.mem_range.mp hi)⟩
    rw [written, slots, ← rest]
    exact found.symm

/-- Every byte that is looked up to read a page is there. What is read are the acceptable bytes;
of others, it is said how many there are, or which slot is the first that cannot be read. What is
read and written has the same header and stays the same from then on, and was the same before just
when it was canonical. -/
theorem decode_projects (id : PageId) (schema : Schema) (data : List UInt8) :
    (decode? id schema data).run = some (decode id schema data) ∧
    ((∃ p, decode id schema data = .ok p) ↔ Acceptable schema data) ∧
    (∀ e, decode id schema data = .error e →
      data.length ≠ pageSize ∧ e = .corrupted id (.imageSize data.length) ∨
      data.length = pageSize ∧ ∃ i length, FirstOffence schema data i length ∧
        e = .corrupted id (.stringLength i length)) ∧
    ∀ p, decode id schema data = .ok p →
      (∃ q, decode id schema p.image = .ok q ∧ q.image = p.image) ∧
      p.image.take (headerSize schema.slotsPerPage) = data.take (headerSize schema.slotsPerPage) ∧
      (p.image = data ↔ Canonical schema data) := by
  have refused (e : Error) (h : decode id schema data = .error e) :
      data.length ≠ pageSize ∧ e = .corrupted id (.imageSize data.length) ∨
      data.length = pageSize ∧ ∃ i length, FirstOffence schema data i length ∧
        e = .corrupted id (.stringLength i length) := by
    by_cases hd : data.length = pageSize
    · exact .inr ⟨hd, firstOffence_of_decode hd h⟩
    · rw [decode_of_length_ne hd] at h
      exact .inl ⟨hd, (Except.error.inj h).symm⟩
  refine ⟨run_decode? id schema data, ⟨?_, fun acceptable => ?_⟩, refused, fun p h => ?_⟩
  · rintro ⟨p, h⟩
    have parts := parts_of_decode h
    exact ⟨parts.size, fun i hi => (decodeSlot_ok (parts.slot i hi)).fitting⟩
  · cases h : decode id schema data with
    | ok p => exact ⟨p, rfl⟩
    | error e =>
        rcases refused e h with ⟨hd, _⟩ | ⟨_, i, length, offence, _⟩
        · exact absurd acceptable.size hd
        · exact absurd acceptable offence.not_acceptable
  · obtain ⟨sound, hid, hs, _⟩ := decode_ok h
    refine ⟨?_, ?_, image_eq_iff h⟩
    · obtain ⟨q, read, image, _⟩ := sound.reload rfl
      exact ⟨q, hid ▸ hs ▸ read, image⟩
    · rw [sound.image_eq_append]
      exact (List.take_left' (hs ▸ sound.length_header)).trans (header_of_decode h)

/-- Something in a free slot and in bits of no slot, and a text that is no text. -/
def untidyBytes : List UInt8 :=
  resize ([2, 0, 0, 0xC0] ++ resize [1] 136 ++ [0, 0, 0, 5, 0, 0, 0, 1, 0xFF]) pageSize

/-- A text that is one byte too long in one slot, and in the next one that is longer still. -/
def overlongBytes : List UInt8 :=
  resize ([14, 0, 0, 0] ++ zeros 136 ++ resize [0, 0, 0, 5, 0, 0, 0, 1, 0x61] 136 ++
    resize [0, 0, 0, 5, 0, 0, 0, 129] 136 ++ [0, 0, 0, 5, 0, 0, 1, 0]) pageSize

theorem untidy_bytes_project :
    (∃ p q, decode ⟨.file 1, 0⟩ (labelled none none) untidyBytes = .ok p ∧
      p.image.take 4 = [2, 0, 0, 0xC0] ∧ p.image ≠ untidyBytes ∧
      decode ⟨.file 1, 0⟩ (labelled none none) p.image = .ok q ∧ q.image = p.image) ∧
    FirstOffence (labelled none none) overlongBytes 2 129 := by
  constructor
  · have readable : (decode ⟨.file 1, 0⟩ (labelled none none) untidyBytes).isOk := by
      decide +kernel
    cases h : decode ⟨.file 1, 0⟩ (labelled none none) untidyBytes with
    | error e =>
        rw [h] at readable
        cases readable
    | ok p =>
        obtain ⟨⟨q, again, same⟩, header, canonical⟩ :=
          (decode_projects ⟨.file 1, 0⟩ (labelled none none) untidyBytes).2.2.2 p h
        refine ⟨p, q, rfl, header.trans (by decide +kernel), fun same => ?_, again, same⟩
        have free := (canonical.mp same).free 0 (by decide) (by decide +kernel)
        exact absurd free (by decide +kernel)
  · have refused : decode ⟨.file 1, 0⟩ (labelled none none) overlongBytes =
        .error (.corrupted ⟨.file 1, 0⟩ (.stringLength 2 129)) := by
      decide +kernel
    rcases (decode_projects ⟨.file 1, 0⟩ (labelled none none) overlongBytes).2.2.1 _ refused with
      ⟨size, _⟩ | ⟨_, i, length, offence, cause⟩
    · exact absurd (length_resize _ _) size
    · cases cause
      exact offence

end HeapPage
end HeapStore
