import HeapStore.Page.Sheet
import HeapStore.Proofs.Draft
import HeapStore.Proofs.Page.OneSlot
import Mathlib.Data.Nat.Bitwise

/-!
How many slots fit on a page, and that all of them do: a slot less would leave room for one more,
and one more would not fit. So the bit and the bytes of every slot are where they are looked up,
whatever has become of a page, and all that is written of it has room on a page.
-/

namespace HeapStore
open Bytes

/-- A slot takes its width and one bit more. That bits come in bytes makes no difference, for the
page has a whole number of them. -/
theorem headerSize_add_le_iff (width n : Nat) :
    headerSize n + n * width ≤ pageSize ↔ n ≤ slotsFor width := by
  have bits : n * (width * 8 + 1) = 8 * (n * width) + n := by
    rw [Nat.mul_add, Nat.mul_one, ← Nat.mul_assoc, Nat.mul_comm (n * width) 8]
  rw [slotsFor, Nat.le_div_iff_mul_le (Nat.succ_pos _), bits, headerSize]
  omega

example : slotsFor 8 = 504 := rfl

theorem toNat_slotMask (i : Nat) : (slotMask i).toNat = 2 ^ (i % 8) := by
  have each : ∀ j < 8, ((1 : UInt8) <<< UInt8.ofNat j).toNat = 2 ^ j := by decide
  exact each (i % 8) (Nat.mod_lt i (by decide))

theorem testBit_slotMask (i j : Nat) : (slotMask i).toNat.testBit j = decide (i % 8 = j) := by
  rw [toNat_slotMask, Nat.testBit_two_pow]

theorem and_slotMask (byte : UInt8) (i : Nat) :
    (byte &&& slotMask i != 0) = byte.toNat.testBit (i % 8) := by
  have value : (byte &&& slotMask i).toNat = (byte.toNat.testBit (i % 8)).toNat * 2 ^ (i % 8) := by
    rw [UInt8.toNat_and, toNat_slotMask, Nat.and_two_pow]
  have zero : byte &&& slotMask i = 0 ↔ (byte &&& slotMask i).toNat = 0 := UInt8.toNat_inj.symm
  rw [Bool.eq_iff_iff, bne_iff_ne, ne_eq, zero, value]
  cases byte.toNat.testBit (i % 8) <;> simp

theorem headerBit?_eq (header : List UInt8) (i : Nat) :
    headerBit? header i = (unpack header)[i]? := by
  rw [getElem?_unpack, headerBit?]
  cases header[i / 8]? with
  | none => rfl
  | some byte => exact congrArg some (and_slotMask byte i)

theorem testBit_not (byte : UInt8) {j : Nat} (h : j < 8) :
    (~~~byte).toNat.testBit j = !byte.toNat.testBit j := by
  have bits : (~~~byte).toBitVec.getLsbD j = (decide (j < 8) && !byte.toBitVec.getLsbD j) := by
    rw [UInt8.toBitVec_not, BitVec.getLsbD_not]
  rwa [decide_eq_true h, Bool.true_and] at bits

/-- Of the bits of the byte the one is set or cleared, and the others stay. -/
theorem testBit_setBit (byte : UInt8) (i : Nat) (used : Bool) {j : Nat} (h : j < 8) :
    (if used then byte ||| slotMask i else byte &&& ~~~slotMask i).toNat.testBit j =
      if j = i % 8 then used else byte.toNat.testBit j := by
  cases used with
  | true =>
      rw [if_pos rfl, UInt8.toNat_or, Nat.testBit_or, testBit_slotMask]
      by_cases here : j = i % 8
      · rw [if_pos here, decide_eq_true here.symm, Bool.or_true]
      · rw [if_neg here, decide_eq_false (Ne.symm here), Bool.or_false]
  | false =>
      rw [if_neg Bool.false_ne_true, UInt8.toNat_and, Nat.testBit_and, testBit_not _ h,
        testBit_slotMask]
      by_cases here : j = i % 8
      · rw [if_pos here, decide_eq_true here.symm, Bool.not_true, Bool.and_false]
      · rw [if_neg here, decide_eq_false (Ne.symm here), Bool.not_false, Bool.and_true]

/-- To change a bit looks up nothing that is not there, if the header has the bit at all. -/
theorem setHeaderBit?_eq {header : List UInt8} {i : Nat} (h : i < 8 * header.length) (used : Bool) :
    setHeaderBit? header i used = some (pack ((unpack header).set i used)) := by
  have inside : i / 8 < header.length := by omega
  rw [setHeaderBit?, List.getElem?_eq_getElem inside]
  apply congrArg some
  rw [← pack_unpack (header.set _ _)]
  apply congrArg pack
  apply List.ext_getElem?
  intro j
  rw [getElem?_unpack, List.getElem?_set, List.getElem?_set, length_unpack, getElem?_unpack]
  by_cases byte : i / 8 = j / 8
  · have lt : j % 8 < 8 := Nat.mod_lt j (by decide)
    rw [if_pos byte, if_pos inside, Option.map_some, testBit_setBit _ _ _ lt]
    by_cases bit : i = j
    · rw [if_pos (by rw [bit]), if_pos bit, if_pos h]
    · rw [if_neg (by omega), if_neg bit, ← byte, List.getElem?_eq_getElem inside, Option.map_some]
  · rw [if_neg byte, if_neg fun (bit : i = j) => byte (by rw [bit])]

namespace HeapPage
variable {p q : HeapPage} {id : PageId} {schema : Schema} {data : List UInt8} {i : Nat}

@[simp] theorem sheet_id (p : HeapPage) : p.sheet.id = p.id := rfl
@[simp] theorem sheet_schema (p : HeapPage) : p.sheet.schema = p.schema := rfl
@[simp] theorem sheet_header (p : HeapPage) : p.sheet.header = p.header := rfl
@[simp] theorem sheet_slots (p : HeapPage) : p.sheet.slots = p.slots := rfl
@[simp] theorem sheet_beforeImage (p : HeapPage) : p.sheet.beforeImage = p.beforeImage := rfl

namespace Sound

theorem unpack_header (h : p.Sound) : unpack p.header = p.slots.map Option.isSome ++ p.spare :=
  unpack_pack h.bits

theorem isUsed?_sheet (h : p.Sound) (i : Nat) : p.sheet.isUsed? i = some (p.isUsed i) := by
  rw [Sheet.isUsed?, sheet_slots, sheet_header]
  split
  next inside =>
    have bit : i < (p.slots.map Option.isSome).length := by rwa [List.length_map]
    rw [headerBit?_eq, h.unpack_header, List.getElem?_append_left bit, List.getElem?_map,
      List.getElem?_eq_getElem inside, Option.map_some, isUsed_of_lt inside]
  next outside =>
    rw [isUsed, get?, List.getElem?_eq_none (Nat.le_of_not_lt outside)]
    rfl

theorem emptySlots?_sheet (h : p.Sound) : p.sheet.emptySlots? = some p.emptySlots := by
  have used := mapM_eq_some fun i (_ : i ∈ List.range p.slots.length) => h.isUsed?_sheet i
  rw [Sheet.emptySlots?, sheet_slots, used, Option.bind_eq_bind, Option.bind_some, List.countP_map,
    h.emptySlots_eq]
  apply congrArg some
  apply List.countP_congr
  intro i hi
  rw [h.slotBit_eq_isUsed (h.length_slots ▸ List.mem_range.mp hi)]
  rfl

theorem setHeaderBit?_header (h : p.Sound) (inside : i < p.slots.length) (slot : Option Tuple) :
    setHeaderBit? p.header i slot.isSome =
      some (header { p with slots := p.slots.set i slot }) := by
  have room := headerSize_le p.schema.slotsPerPage
  have bit : i < (p.slots.map Option.isSome).length := by rwa [List.length_map]
  rw [setHeaderBit?_eq (by rw [h.length_header, ← h.length_spare]; omega), h.unpack_header,
    List.set_append_left _ _ bit, ← List.map_set]
  rfl

theorem put?_sheet (h : p.Sound) (inside : i < p.slots.length) (slot : Option Tuple) :
    p.sheet.put? i slot = some (sheet { p with slots := p.slots.set i slot }) := by
  rw [Sheet.put?, sheet_slots, if_pos inside, sheet_header, h.setHeaderBit?_header inside]
  rfl

theorem insert?_sheet (h : p.Sound) (t : Tuple) :
    p.sheet.insert? t = some (match p.insert t with
      | .ok (q, rid) => (.ok rid, q.sheet)
      | .error e => (.error e, p.sheet)) := by
  have search : (List.range p.slots.length).findM? (fun i => (!·) <$> p.sheet.isUsed? i) =
      some ((List.range p.slots.length).find? fun i => !p.isUsed i) :=
    findM?_eq_some fun i _ => by rw [h.isUsed?_sheet]; rfl
  have stores := p.stores t
  generalize p.insert t = outcome at stores ⊢
  rw [Sheet.insert?, sheet_slots, sheet_schema, sheet_id, search]
  cases stores with
  | misfit types => rw [if_pos types]
  | unset types unset => rw [if_neg (not_not_intro types), if_pos (by rw [unset]; rfl)]
  | full types complete full =>
      have none : ((List.range p.slots.length).find? fun i => !p.isUsed i) = none := by
        rw [List.find?_eq_none]
        intro i hi
        rw [full i (List.mem_range.mp hi)]
        exact Bool.false_ne_true
      rw [if_neg (not_not_intro types), if_neg (by rw [complete]; exact Bool.false_ne_true), none]
      rfl
  | @stored i types complete lt free lowest =>
      have found : ((List.range p.slots.length).find? fun i => !p.isUsed i) = some i := by
        rw [List.find?_range_eq_some]
        refine ⟨by rw [free]; rfl, List.mem_range.mpr lt, fun j hj => ?_⟩
        rw [lowest j hj]
        rfl
      rw [if_neg (not_not_intro types), if_neg (by rw [complete]; exact Bool.false_ne_true), found]
      simp only [Option.bind_eq_bind, Option.bind_some, h.put?_sheet lt]
      rfl

theorem erase?_sheet (h : p.Sound) (rid : Option RecordId) :
    p.sheet.erase? rid = some (match p.erase rid with
      | .ok q => (.ok (), q.sheet)
      | .error e => (.error e, p.sheet)) := by
  cases rid with
  | none => rfl
  | some rid =>
      rw [Sheet.erase?, sheet_id, erase]
      by_cases here : rid.page = p.id
      · rw [if_neg (not_not_intro here), h.isUsed?_sheet]
        cases used : p.isUsed rid.slot with
        | true =>
            rw [if_pos ⟨here, rfl⟩]
            simp only [Option.bind_eq_bind, Option.bind_some, if_true,
              h.put?_sheet (lt_length_of_isUsed used)]
            rfl
        | false =>
            rw [if_neg fun both => Bool.false_ne_true both.2]
            rfl
      · rw [if_pos here, if_neg fun both => here both.1]

end Sound

/-- All that is written of a page is its header and its slots. -/
theorem written?_sheet (p : HeapPage) :
    p.sheet.written? = some (p.header ++ p.slots.flatMap (slotImage p.schema)) := by
  have slots (buffer : List UInt8) (slots : List (Option Tuple)) :
      Sheet.writeSlots? p.schema buffer slots =
        some (buffer ++ slots.flatMap (slotImage p.schema)) := by
    induction slots generalizing buffer with
    | nil => rw [Sheet.writeSlots?, List.flatMap_nil, List.append_nil]
    | cons slot slots ih =>
        rw [List.flatMap_cons, ← List.append_assoc]
        cases slot with
        | none =>
            have free : resize buffer (buffer.length + p.schema.width) =
                buffer ++ slotImage p.schema none := by
              rw [resize_eq_append (Nat.le_add_right ..), Nat.add_sub_cancel_left]
              rfl
            rw [Sheet.writeSlots?, free, ih]
        | some t =>
            rw [Sheet.writeSlots?, Draft.write?_draft, Option.bind_eq_bind, Option.bind_some, ih]
            rfl
  exact slots p.header p.slots

theorem image?_sheet (p : HeapPage) : p.sheet.image? = some p.image := by
  rw [Sheet.image?, p.written?_sheet]
  rfl

theorem decodeSlot?_sheet (id : PageId) (schema : Schema) (header data : List UInt8) (i : Nat) :
    Sheet.decodeSlot? id schema header data i = decodeSlot? id schema header data i := by
  rw [Sheet.decodeSlot?, decodeSlot?, headerBit?]
  cases header[i / 8]? with
  | none => rfl
  | some byte =>
      simp only [Option.bind_eq_bind, Option.bind_some, and_slotMask]
      rfl

theorem run_decodeContent? (id : PageId) (schema : Schema) (data : List UInt8) :
    (Sheet.decodeContent? id schema data).run =
      some ((decode id schema data).map fun p => (p.header, p.slots)) := by
  rw [Sheet.decodeContent?]
  split
  next hd =>
    rw [decode_of_length_ne hd]
    rfl
  next hd =>
    have hd : data.length = pageSize := Decidable.not_not.mp hd
    have header : headerSize schema.slotsPerPage ≤ pageSize :=
      Nat.le_trans (Nat.le_add_right _ _) (headerSize_add_slots_le schema)
    have slots := run_mapM fun i (hi : i ∈ List.range schema.slotsPerPage) =>
      (congrArg ExceptT.run (decodeSlot?_sheet id schema _ data i)).trans
        (run_decodeSlot? hd (List.mem_range.mp hi))
    simp only
    rw [run_lookup (readAt?_of_le (by omega)), List.drop_zero]
    refine (run_bind (run_adapt slots (Error.corrupted id)) fun slots _ => rfl).trans ?_
    have read : decode id schema data = _ := decode_eq hd
    cases found : (List.range schema.slotsPerPage).mapM (decodeSlot id schema data) with
    | error cause =>
        rw [found] at read
        rw [read]
        rfl
    | ok slots =>
        rw [found] at read
        have header := header_of_decode read
        rw [read]
        exact congrArg some (congrArg Except.ok (Prod.ext header.symm rfl))

theorem run_decode?_sheet (id : PageId) (schema : Schema) (data : List UInt8) :
    (Sheet.decode? id schema data).run = some ((decode id schema data).map sheet) := by
  rw [Sheet.decode?]
  refine (run_bind (run_decodeContent? id schema data) fun content _ => rfl).trans ?_
  cases read : decode id schema data with
  | error e => rfl
  | ok p =>
      obtain ⟨_, rfl, rfl, clean, rfl⟩ := decode_ok read
      apply congrArg some
      apply congrArg Except.ok
      rw [sheet, clean]

theorem restore?_sheet (p : HeapPage) :
    p.sheet.restore? = some (match p.restore with
      | .ok q => (.ok (), q.sheet)
      | .error e => (.error e, p.sheet)) := by
  rw [Sheet.restore?, sheet_id, sheet_schema, sheet_beforeImage, run_decodeContent?,
    restore_eq_decode]
  cases read : decode p.id p.schema p.beforeImage with
  | error e => rfl
  | ok q =>
      obtain ⟨_, id, schema, clean, before⟩ := decode_ok read
      have same : q.sheet =
          { p.sheet with header := q.header, slots := q.slots, dirtiedBy := none } := by
        rw [sheet, id, schema, clean, before]
        rfl
      simp only [same]
      rfl

theorem empty_sheet (id : PageId) (schema : Schema) :
    Sheet.empty id schema = (empty id schema).sheet := by
  have header := header_of_decode (decode_zeros id schema)
  have fits : headerSize schema.slotsPerPage ≤ pageSize :=
    Nat.le_trans (Nat.le_add_right _ _) (headerSize_add_slots_le schema)
  rw [zeros, List.take_replicate, Nat.min_eq_left fits] at header
  rw [sheet, header]
  rfl

/-- Whatever is done to a page, no place is looked up that is not there. -/
theorem Sound.perform?_sheet (h : p.Sound) (e : PageEdit) :
    p.sheet.perform? e = some (match e.perform p with
      | .ok q => (.ok (), q.sheet)
      | .error e => (.error e, p.sheet)) := by
  cases e with
  | insert t =>
      rw [Sheet.perform?, h.insert?_sheet, PageEdit.perform]
      cases p.insert t <;> rfl
  | erase rid => exact h.erase?_sheet rid
  | mark owner => rfl
  | snapshot =>
      rw [Sheet.perform?, p.image?_sheet]
      rfl
  | restore => exact p.restore?_sheet

end HeapPage

namespace Sheet
open HeapPage
variable {s : Sheet} {schema : Schema}

/-- Every page that can come about has something to vouch for it. -/
theorem Reached.exists_formed (h : Reached s) :
    ∃ (p : HeapPage) (id : PageId) (schema : Schema), p.sheet = s ∧ p.Formed id schema := by
  induction h with
  | empty id schema => exact ⟨_, id, schema, (empty_sheet id schema).symm, formed_empty id schema⟩
  | @decode id schema data s read =>
      rw [run_decode?_sheet] at read
      cases found : HeapPage.decode id schema data with
      | error e =>
          rw [found] at read
          cases read
      | ok p =>
          rw [found] at read
          cases read
          exact ⟨p, id, schema, rfl, formed_of_decode found⟩
  | @perform s s' e answer _ done ih =>
      obtain ⟨p, id, schema, rfl, formed⟩ := ih
      rw [formed.sound.perform?_sheet] at done
      cases outcome : e.perform p with
      | error _ =>
          rw [outcome] at done
          cases done
          exact ⟨p, id, schema, rfl, formed⟩
      | ok q =>
          rw [outcome] at done
          cases done
          exact ⟨q, id, schema, rfl, formed.perform outcome⟩

/-- Every place that is looked up is there, and nothing has to be left out of what is written. -/
structure Safe (s : Sheet) : Prop where
  header : s.header.length = headerSize s.schema.slotsPerPage
  slots : s.slots.length = s.schema.slotsPerPage
  isUsed : ∀ i, s.isUsed? i = some (s.slots[i]?.join.isSome)
  setBit : ∀ i < s.slots.length, ∀ used, ∃ header, setHeaderBit? s.header i used = some header
  count : ∃ free, s.emptySlots? = some free
  perform : ∀ e, ∃ answer s', s.perform? e = some (answer, s')
  written : ∃ bytes, s.written? = some bytes ∧
    bytes.length = headerSize s.slots.length + s.slots.length * s.schema.width ∧
    bytes.length ≤ pageSize ∧ s.image? = some (bytes ++ zeros (pageSize - bytes.length))

theorem safe_sheet {p : HeapPage} (h : p.Sound) : p.sheet.Safe where
  header := h.length_header
  slots := h.length_slots
  isUsed := h.isUsed?_sheet
  setBit i inside used := by
    have room := headerSize_le p.schema.slotsPerPage
    have bit : i < 8 * p.header.length := by
      have spare := h.length_spare
      rw [sheet_slots] at inside
      rw [h.length_header]
      omega
    exact ⟨_, setHeaderBit?_eq bit used⟩
  count := ⟨_, h.emptySlots?_sheet⟩
  perform e := ⟨_, _, h.perform?_sheet e⟩
  written := by
    have fits := headerSize_add_slots_le p.schema
    have length : (p.header ++ p.slots.flatMap (slotImage p.schema)).length =
        headerSize p.slots.length + p.slots.length * p.schema.width := by
      rw [List.length_append, h.length_header, length_flatMap_slotImage h.placed, h.length_slots]
    refine ⟨_, p.written?_sheet, length, ?_, ?_⟩
    · rw [length, h.length_slots]
      exact fits
    · rw [p.image?_sheet, h.image_eq_append, List.append_assoc]

/-- As many slots fit on a page as it has, for rows of any width, and not one more. Each of them has
its bit in the header and its bytes on the page. So nothing is looked up that is not there when
any bytes are read as a page, or anything is done to a page that has come about, and what is written
of that has room on a page. -/
theorem slots_fill_the_page (schema : Schema) :
    (∀ width n, headerSize n + n * width ≤ pageSize ↔ n ≤ slotsFor width) ∧
    headerSize schema.slotsPerPage + schema.slotsPerPage * schema.width ≤ pageSize ∧
    pageSize < headerSize (schema.slotsPerPage + 1) + (schema.slotsPerPage + 1) * schema.width ∧
    (∀ i < schema.slotsPerPage, i / 8 < headerSize schema.slotsPerPage ∧
      schema.slotOffset i + schema.width ≤ pageSize) ∧
    (∀ id data, ∃ answer, (decode? id schema data).run = some answer) ∧
    ∀ s : Sheet, s.Reached → s.schema = schema → s.Safe := by
  refine ⟨headerSize_add_le_iff, headerSize_add_slots_le schema, ?_, fun i hi => ?_,
    fun id data => ⟨_, run_decode?_sheet id schema data⟩, fun s reached _ => ?_⟩
  · have more := headerSize_add_le_iff schema.width (schema.slotsPerPage + 1)
    exact Nat.lt_of_not_le fun fits => Nat.not_succ_le_self _ (more.mp fits)
  · exact ⟨header_lt hi, Schema.slotOffset_add_width_le hi⟩
  · obtain ⟨p, _, _, rfl, formed⟩ := reached.exists_formed
    exact safe_sheet formed.sound

/-- Of these rows there are thirty to a page. -/
theorem overfull_rows_fill_the_page :
    overfullRow.schema.slotsPerPage = 30 ∧
      ∃ s : Sheet, s.Reached ∧ s.schema = overfullRow.schema ∧ s.Safe ∧
        s.isUsed? 0 = some true := by
  obtain ⟨_, _, _, _, _, safe⟩ := slots_fill_the_page overfullRow.schema
  have first := safe (empty ⟨.file 1, 0⟩ overfullRow.schema) (.empty _ _) rfl
  obtain ⟨answer, s, done⟩ := first.perform (.insert overfullRow)
  have known : ((empty ⟨.file 1, 0⟩ overfullRow.schema).perform? (.insert overfullRow)).map
      (fun r => (r.2.schema, r.2.isUsed? 0)) = some (overfullRow.schema, some true) := by
    decide +kernel
  rw [done, Option.map_some, Option.some.injEq, Prod.mk.injEq] at known
  have reached : Reached s := .perform (.empty _ _) done
  exact ⟨by decide, s, reached, known.1, safe s reached known.1, known.2⟩

end Sheet
end HeapStore
