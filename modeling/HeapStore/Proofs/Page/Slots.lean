import HeapStore.Proofs.Page.Canonical

/-!
The image of a page, slot by slot. A slot has one bit in the header and its own run of bytes, and
when another row comes into it, or none, nothing else in the image is any different.
-/

namespace HeapStore
open Bytes

theorem slotBit_append {xs ys : List UInt8} {i : Nat} (h : i / 8 < xs.length) :
    slotBit (xs ++ ys) i = slotBit xs i := by
  have byte : (xs ++ ys).getD (i / 8) 0 = xs.getD (i / 8) 0 :=
    (byteAt_append xs ys (i / 8)).trans (if_pos h)
  rw [slotBit, slotBit, byte]

/-- The bits are found again in the bytes that they have been packed into. -/
theorem slotBit_pack {bits : List Bool} {n i : Nat} (h : bits.length = 8 * n) (hi : i < 8 * n) :
    bits[i]? = some (slotBit (pack bits) i) := by
  have byte : i / 8 < (pack bits).length := by
    rw [length_pack h]
    omega
  rw [← unpack_pack h, getElem?_unpack, unpack_pack h, List.getElem?_eq_getElem byte,
    Option.map_some, slotBit, List.getD_eq_getElem?_getD, List.getElem?_eq_getElem byte,
    Option.getD_some]

/-- The one image is the other but for slot `i`, which is used or not, and has these bytes. -/
structure Schema.Resets (schema : Schema) (i : Nat) (used : Bool) (slot : List UInt8)
    (data data' : List UInt8) : Prop where
  bit : slotBit data' i = used
  slot : schema.slotBytes data' i = slot
  bits : ∀ j < 8 * headerSize schema.slotsPerPage, j ≠ i → slotBit data' j = slotBit data j
  slots : ∀ j < schema.slotsPerPage, j ≠ i →
    schema.slotBytes data' j = schema.slotBytes data j
  rest : data'.drop (schema.slotOffset schema.slotsPerPage) =
    data.drop (schema.slotOffset schema.slotsPerPage)

namespace HeapPage
variable {p : HeapPage} {i : Nat}

namespace Sound

theorem slotBit_header (h : p.Sound) (hi : i < 8 * headerSize p.schema.slotsPerPage) :
    (p.slots.map Option.isSome ++ p.spare)[i]? = some (slotBit p.header i) :=
  slotBit_pack h.bits hi

theorem slotBit_image (h : p.Sound) (hi : i < 8 * headerSize p.schema.slotsPerPage) :
    slotBit p.image i = slotBit p.header i := by
  rw [h.image_eq_append]
  apply slotBit_append
  rw [h.length_header]
  omega

/-- The header says of a slot whether there is a row in it. -/
theorem slotBit_eq_isUsed (h : p.Sound) (hi : i < p.schema.slotsPerPage) :
    slotBit p.header i = p.isUsed i := by
  have inside := headerSize_le p.schema.slotsPerPage
  have lt : i < p.slots.length := h.length_slots.symm ▸ hi
  have bit := h.slotBit_header (i := i) (by omega)
  rw [List.getElem?_append_left (by simpa using lt), List.getElem?_map] at bit
  rw [isUsed, get?]
  cases slot : p.slots[i]? with
  | none => exact absurd (List.getElem?_eq_none_iff.mp slot) (Nat.not_le_of_lt lt)
  | some row =>
      rw [slot] at bit
      exact (Option.some.inj bit).symm

theorem slots_and_rest (h : p.Sound) :
    (∀ i < p.schema.slotsPerPage, p.schema.slotBytes p.image i = slotImage p.schema (p.get? i)) ∧
      p.image.drop (p.schema.slotOffset p.schema.slotsPerPage) =
        zeros (pageSize - p.schema.slotOffset p.schema.slotsPerPage) := by
  have header : p.image.take (headerSize p.schema.slotsPerPage) = p.header := by
    rw [h.image_eq_append, List.take_left' h.length_header]
  have parts := bytes_eq_append p.schema p.image
  have length (i : Nat) (hi : i ∈ List.range p.schema.slotsPerPage) :
      (p.schema.slotBytes p.image i).length = (slotImage p.schema (p.get? i)).length := by
    rw [Schema.length_slotBytes p.length_image (List.mem_range.mp hi), h.length_slotImage]
  rw [header] at parts
  have body := List.append_cancel_left (parts.symm.trans h.image_eq_slots)
  obtain ⟨slots, rest⟩ := List.append_inj body
    (by rw [List.length_flatMap, List.length_flatMap, List.map_congr_left length])
  exact ⟨fun i hi => (flatMap_eq_iff length).mp slots i (List.mem_range.mpr hi), rest⟩

theorem slotBytes_image (h : p.Sound) (hi : i < p.schema.slotsPerPage) :
    p.schema.slotBytes p.image i = slotImage p.schema (p.get? i) :=
  h.slots_and_rest.1 i hi

/-- Another row in a slot, or none, is all that is different in the image. -/
theorem resets {slot : Option Tuple} (h : p.Sound)
    (h' : Sound { p with slots := p.slots.set i slot }) (hi : i < p.slots.length) :
    p.schema.Resets i slot.isSome (slotImage p.schema slot) p.image
      (image { p with slots := p.slots.set i slot }) := by
  have lt : i < p.schema.slotsPerPage := h.length_slots ▸ hi
  have inside := headerSize_le p.schema.slotsPerPage
  have get (j : Nat) := get?_set slot hi j
  constructor
  case bit =>
    rw [h'.slotBit_image (by simp only; omega), h'.slotBit_eq_isUsed lt, isUsed, get, if_pos rfl]
  case slot => rw [h'.slotBytes_image lt, get, if_pos rfl]
  case bits =>
    intro j hj other
    rw [h'.slotBit_image hj, h.slotBit_image hj]
    have bit := h.slotBit_header hj
    have bit' := h'.slotBit_header hj
    have same : (p.slots.set i slot).map Option.isSome =
        (p.slots.map Option.isSome).set i slot.isSome := List.map_set ..
    simp only [same] at bit'
    apply Option.some.inj
    rw [← bit, ← bit', List.getElem?_append, List.getElem?_append, List.length_set,
      List.getElem?_set_ne (Ne.symm other)]
  case slots =>
    intro j hj other
    rw [h'.slotBytes_image hj, h.slotBytes_image hj, get, if_neg other]
  case rest => exact h'.slots_and_rest.2.trans h.slots_and_rest.2.symm

end Sound

end HeapPage
end HeapStore
