import HeapStore.Proofs.Page.Rollback

/-!
One row on a page. Where it is stored, or why it is not, is told by the types, the row and the slots
that are used; and of the image of the page no more is different afterwards than one bit of the
header and the bytes of one slot. To delete the row again is to have the page as it was.
-/

namespace HeapStore
open Bytes

/-- A byte is known by its eight bits. -/
theorem Bytes.eq_of_testBit {a b : UInt8} (h : ∀ j < 8, a.toNat.testBit j = b.toNat.testBit j) :
    a = b := by
  apply UInt8.toNat_inj.mp
  apply Nat.eq_of_testBit_eq
  intro j
  by_cases hj : j < 8
  · exact h j hj
  · have beyond : 2 ^ 8 ≤ 2 ^ j := Nat.pow_le_pow_right (by decide) (Nat.le_of_not_lt hj)
    rw [Nat.testBit_lt_two_pow (Nat.lt_of_lt_of_le a.toNat_lt beyond),
      Nat.testBit_lt_two_pow (Nat.lt_of_lt_of_le b.toNat_lt beyond)]

/-- The one image is the other but for bit `i` of the header, which was `!used`, and for the bytes of
slot `i`: whatever byte of the page is neither that of the bit nor in the slot is the same. -/
structure Schema.Flips (schema : Schema) (i : Nat) (used : Bool) (slot : List UInt8)
    (data data' : List UInt8) : Prop extends schema.Resets i used slot data data' where
  before : slotBit data i = !used
  bytes : ∀ k, k ≠ i / 8 → k < schema.slotOffset i ∨ schema.slotOffset i + schema.width ≤ k →
    byteAt data' k = byteAt data k

namespace Schema
variable {schema : Schema} {i : Nat} {used : Bool} {slot data data' : List UInt8}

theorem byteAt_slotBytes (schema : Schema) (data : List UInt8) (j k : Nat) :
    byteAt (schema.slotBytes data j) k =
      if k < schema.width then byteAt data (schema.slotOffset j + k) else 0 := by
  rw [slotBytes, byteAt_take, byteAt_drop]

theorem Resets.byteAt_eq (h : schema.Resets i used slot data data') {k : Nat} (header : k ≠ i / 8)
    (outside : k < schema.slotOffset i ∨ schema.slotOffset i + schema.width ≤ k) :
    byteAt data' k = byteAt data k := by
  by_cases inHeader : k < headerSize schema.slotsPerPage
  · apply eq_of_testBit
    intro j hj
    have byte : (8 * k + j) / 8 = k := by omega
    have bit : (8 * k + j) % 8 = j := by omega
    have same := h.bits (8 * k + j) (by omega) (by omega)
    rwa [slotBit, slotBit, byte, bit] at same
  · have width := schema.width_pos
    by_cases inSlots : k < schema.slotOffset schema.slotsPerPage
    · obtain ⟨j, hj⟩ : ∃ j, j = (k - headerSize schema.slotsPerPage) / schema.width := ⟨_, rfl⟩
      obtain ⟨r, hr⟩ : ∃ r, r = (k - headerSize schema.slotsPerPage) % schema.width := ⟨_, rfl⟩
      have small : r < schema.width := hr ▸ Nat.mod_lt _ width
      have place : k = schema.slotOffset j + r := by
        have split := Nat.div_add_mod (k - headerSize schema.slotsPerPage) schema.width
        rw [← hj, ← hr, Nat.mul_comm] at split
        rw [slotOffset]
        omega
      have lt : j < schema.slotsPerPage := by
        rw [slotOffset] at inSlots
        rw [hj, Nat.div_lt_iff_lt_mul width]
        omega
      have other : j ≠ i := by
        rintro rfl
        omega
      have same := congrArg (byteAt · r) (h.slots j lt other)
      simpa only [byteAt_slotBytes, if_pos small, ← place] using same
    · have same := congrArg (byteAt · (k - schema.slotOffset schema.slotsPerPage)) h.rest
      simp only [byteAt_drop] at same
      rwa [Nat.add_sub_cancel' (Nat.le_of_not_lt inSlots)] at same

end Schema

namespace HeapPage
variable {p q p₀ : HeapPage} {id : PageId} {schema : Schema} {t : Tuple} {i : Nat} {rid : RecordId}

theorem Sound.flips {slot : Option Tuple} (h : p.Sound)
    (h' : Sound { p with slots := p.slots.set i slot }) (lt : i < p.slots.length)
    (before : p.isUsed i = !slot.isSome) :
    p.schema.Flips i slot.isSome (slotImage p.schema slot) p.image
      (image { p with slots := p.slots.set i slot }) := by
  have resets := h.resets h' lt
  have inside := headerSize_le p.schema.slotsPerPage
  have slots := h.length_slots
  refine { resets with before := ?_, bytes := fun k => resets.byteAt_eq }
  rw [h.slotBit_image (by omega), h.slotBit_eq_isUsed (by omega), before]

/-- The ways in which a row is stored on a page, or not. -/
inductive Stores (p : HeapPage) (t : Tuple) : Except Error (HeapPage × RecordId) → Prop
  | misfit (types : t.schema.types ≠ p.schema.types) :
      Stores p t (.error (.schemaMismatch (.pageSchema t.schema p.schema)))
  | unset (types : t.schema.types = p.schema.types) (unset : t.isComplete = false) :
      Stores p t (.error (.schemaMismatch .unsetFields))
  | full (types : t.schema.types = p.schema.types) (complete : t.isComplete = true)
      (full : ∀ i < p.slots.length, p.isUsed i = true) : Stores p t (.error (.pageFull p.id))
  | stored {i : Nat} (types : t.schema.types = p.schema.types) (complete : t.isComplete = true)
      (lt : i < p.slots.length) (free : p.isUsed i = false)
      (lowest : ∀ j < i, p.isUsed j = true) :
      Stores p t (.ok ({ p with slots := p.slots.set i (some (t.located (some ⟨p.id, i⟩))) },
        ⟨p.id, i⟩))

theorem isUsed_of_lt (h : i < p.slots.length) : p.isUsed i = p.slots[i].isSome := by
  rw [isUsed, get?, List.getElem?_eq_getElem h, Option.join_some]

theorem stores (p : HeapPage) (t : Tuple) : Stores p t (p.insert t) := by
  unfold insert
  split
  next types => exact .misfit types
  next types =>
    have types := Decidable.not_not.mp types
    split
    next unset => exact .unset types (by simpa using unset)
    next complete =>
      have complete : t.isComplete = true := by simpa using complete
      split
      next none =>
        refine .full types complete fun i hi => ?_
        have used := List.findIdx?_eq_none_iff.mp none _ (List.getElem_mem hi)
        rw [isUsed_of_lt hi]
        simpa using used
      next i found =>
        obtain ⟨lt, free, lowest⟩ := List.findIdx?_eq_some_iff_getElem.mp found
        refine .stored types complete lt ?_ fun j hj => ?_
        · rw [isUsed_of_lt lt, Option.isNone_iff_eq_none.mp free]
          rfl
        · rw [isUsed_of_lt (Nat.lt_trans hj lt)]
          exact Option.isSome_iff_ne_none.mpr (by simpa using lowest j hj)

theorem exists_unset_iff (t : Tuple) :
    (∃ k < t.schema.types.length, t.get? k = none) ↔ t.isComplete = false := by
  have length := t.fits.length_eq
  rw [Tuple.isComplete, List.all_eq_false]
  constructor
  · rintro ⟨k, hk, none⟩
    refine ⟨t.values[k], List.getElem_mem (by omega), ?_⟩
    rw [Tuple.get?, List.getElem?_eq_getElem (by omega), Option.join_some] at none
    simp [none]
  · rintro ⟨v, hv, unset⟩
    obtain ⟨k, hk, rfl⟩ := List.getElem_of_mem hv
    refine ⟨k, by omega, ?_⟩
    rw [Tuple.get?, List.getElem?_eq_getElem hk, Option.join_some]
    simpa using unset

/-- The row is in the lowest slot that was free, and only its bit and its bytes are different. -/
structure Fills (p : HeapPage) (t : Tuple) (q : HeapPage) (rid : RecordId) : Prop where
  page : rid.page = p.id
  inside : rid.slot < p.slots.length
  free : p.isUsed rid.slot = false
  lowest : ∀ j < rid.slot, p.isUsed j = true
  here : q.get? rid.slot = some (t.located (some rid))
  kept : ∀ j, j ≠ rid.slot → q.get? j = p.get? j
  image : p.schema.Flips rid.slot true t.encode p.image q.image
  undone : q.erase (some rid) = .ok p

theorem Sound.fills (h : p.Sound) (hi : p.insert t = .ok (q, rid)) : p.Fills t q rid := by
  have inserted := insert_ok h hi
  have stores := p.stores t
  rw [hi] at stores
  cases stores with
  | @stored i types complete lt free lowest =>
      refine ⟨rfl, lt, free, lowest, inserted.here, inserted.kept, ?_, ?_⟩
      · exact h.flips inserted.sound lt free
      · have used : isUsed { p with slots := p.slots.set i (some (t.located (some ⟨p.id, i⟩))) } i := by
          rw [isUsed, inserted.here]
          rfl
        have nothing : p.slots[i] = none := by
          rw [isUsed_of_lt lt] at free
          simpa using free
        rw [erase, if_pos ⟨rfl, used⟩]
        simp only [List.set_set]
        rw [← nothing, List.set_getElem_self]

/-- Nothing is in the slot any more, and only its bit and its bytes are different. -/
structure Frees (p : HeapPage) (i : Nat) (q : HeapPage) : Prop where
  here : q.get? i = none
  kept : ∀ j, j ≠ i → q.get? j = p.get? j
  image : p.schema.Flips i false (zeros p.schema.width) p.image q.image

theorem Sound.frees (h : p.Sound) (here : rid.page = p.id) (used : p.isUsed rid.slot = true) :
    ∃ q, p.erase (some rid) = .ok q ∧ p.Frees rid.slot q := by
  have erased : p.erase (some rid) = .ok { p with slots := p.slots.set rid.slot none } :=
    if_pos ⟨here, used⟩
  have lt := lt_length_of_isUsed used
  have outcome := erase_ok h erased
  exact ⟨_, erased, outcome.here, outcome.kept, h.flips outcome.sound lt used⟩

/-- Whatever has been done to a page since it was empty or read, a row is turned away for its types
or for an entry that is not set, and else exactly if all slots are used. If it is stored, it is in the
lowest free slot, the image is different in the bit and the bytes of that slot and nowhere else, and
to delete it at its place gives back the page; and to delete any row that is there clears the bit and
the bytes of its slot, and nothing else. -/
theorem change_touches_one_slot
    (origin : p₀ = empty id schema ∨ ∃ data, decode id schema data = .ok p₀)
    (edits : List PageEdit) (t : Tuple) :
    let p := p₀.edited edits
    ((∃ cause, p.insert t = .error (.schemaMismatch cause)) ↔
      t.schema.types ≠ schema.types ∨ ∃ k < t.schema.types.length, t.get? k = none) ∧
    (p.insert t = .error (.pageFull id) ↔
      t.schema.types = schema.types ∧ (∀ k < t.schema.types.length, t.get? k ≠ none) ∧
        ∀ i < schema.slotsPerPage, p.isUsed i = true) ∧
    (∀ e, p.insert t = .error e → p.edited [.insert t] = p ∧
      ((∃ cause, e = .schemaMismatch cause) ∨ e = .pageFull id)) ∧
    (∀ q rid, p.insert t = .ok (q, rid) → rid.page = id ∧ q.schema = schema ∧ p.Fills t q rid) ∧
    ∀ rid, rid.page = id → p.isUsed rid.slot = true →
      ∃ q, p.erase (some rid) = .ok q ∧ p.Frees rid.slot q := by
  intro p
  obtain ⟨rfl, rfl, sound, _⟩ : p.Formed id schema := formed_edited origin edits
  have stores := p.stores t
  have complete : (∀ k < t.schema.types.length, t.get? k ≠ none) ↔ t.isComplete = true := by
    rw [← Bool.not_eq_false, ← exists_unset_iff]
    simp
  rw [exists_unset_iff, complete, ← sound.length_slots]
  refine ⟨?_, ?_, fun e failed => ⟨?_, ?_⟩, fun q rid stored => ?_, fun rid => sound.frees⟩
  · generalize p.insert t = outcome at stores
    cases stores with
    | misfit types => exact iff_of_true ⟨_, rfl⟩ (.inl types)
    | unset _ unset => exact iff_of_true ⟨_, rfl⟩ (.inr unset)
    | full types complete => simp [types, complete]
    | stored types complete => simp [types, complete]
  · generalize p.insert t = outcome at stores
    cases stores with
    | misfit types => simp [types]
    | unset _ unset => simp [unset]
    | full types complete full => exact iff_of_true rfl ⟨types, complete, full⟩
    | @stored i _ _ lt free =>
        refine iff_of_false nofun fun h => ?_
        rw [h.2.2 i lt] at free
        cases free
  · rw [edited, PageEdit.perform, failed]
    rfl
  · rw [failed] at stores
    cases stores with
    | misfit => exact .inl ⟨_, rfl⟩
    | unset => exact .inl ⟨_, rfl⟩
    | full => exact .inr rfl
  · have fills := sound.fills stored
    exact ⟨fills.page, (insert_ok sound stored).schema, fills⟩

/-- There is a row on the page already. The next one goes behind it, and may be taken away again. -/
theorem overfull_row_touches_one_slot :
    let p := (empty ⟨.file 1, 0⟩ overfullRow.schema).edited [.insert overfullRow]
    ∃ q, p.insert overfullRow = .ok (q, ⟨⟨.file 1, 0⟩, 1⟩) ∧
      overfullRow.schema.Flips 1 true overfullRow.encode p.image q.image ∧
      q.erase (some ⟨⟨.file 1, 0⟩, 1⟩) = .ok p := by
  intro p
  have place : (p.insert overfullRow).toOption.map (·.2) = some ⟨⟨.file 1, 0⟩, 1⟩ := by
    decide +kernel
  obtain ⟨_, _, _, stored, _⟩ :=
    change_touches_one_slot (.inl (rfl : empty ⟨.file 1, 0⟩ overfullRow.schema = _))
      [.insert overfullRow] overfullRow
  cases outcome : p.insert overfullRow with
  | error e =>
      rw [outcome] at place
      cases place
  | ok placed =>
      obtain ⟨q, rid⟩ := placed
      rw [outcome] at place
      cases place
      obtain ⟨_, schema, fills⟩ := stored q _ outcome
      exact ⟨q, rfl, fills.image, fills.undone⟩

end HeapPage
end HeapStore
