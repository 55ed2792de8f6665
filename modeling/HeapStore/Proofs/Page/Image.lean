import HeapStore.Page.Image
import HeapStore.Proofs.Row

/-!
What a page keeps of its content: the rows as their slots keep them, and the spare header bits.
The image of a sound page is decided by that and gives it back when it is read, so a page may be
written and read any number of times and looks the same from then on.
-/

namespace HeapStore
open Bytes

theorem headerSize_le (n : Nat) : n ≤ 8 * headerSize n := by
  unfold headerSize
  omega

/-- The header and the slots fit on a page. -/
theorem headerSize_add_slots_le (s : Schema) :
    headerSize s.slotsPerPage + s.slotsPerPage * s.width ≤ pageSize := by
  have h := Nat.div_mul_le_self (pageSize * 8) (s.width * 8 + 1)
  change s.slotsPerPage * (s.width * 8 + 1) ≤ pageSize * 8 at h
  generalize s.slotsPerPage = n at h ⊢
  have expand : n * (s.width * 8 + 1) = 8 * (n * s.width) + n := by
    rw [Nat.mul_add, Nat.mul_one, ← Nat.mul_assoc, Nat.mul_comm (n * s.width) 8]
  unfold headerSize
  omega

/-- What a page keeps: the rows of its slots and the spare bits of its header. -/
@[ext]
structure Content where
  rows : List (Option Row)
  spare : List Bool

namespace Content

def get? (c : Content) (i : Nat) : Option Row :=
  (c.rows[i]?).join

/-- Puts a row into a slot, or frees the slot. -/
def set (c : Content) (i : Nat) (row : Option Row) : Content :=
  { c with rows := c.rows.set i row }

theorem get?_set {c : Content} {i : Nat} (row : Option Row) (h : i < c.rows.length) (j : Nat) :
    (c.set i row).get? j = if j = i then row else c.get? j := by
  simp only [get?, set, List.getElem?_set]
  by_cases hj : j = i
  · subst hj
    simp [h]
  · simp [hj, Ne.symm hj]

end Content

namespace HeapPage

def content (p : HeapPage) : Content :=
  ⟨p.slots.map (Option.map Tuple.row), p.spare⟩

theorem content_get? (p : HeapPage) (i : Nat) : p.content.get? i = (p.get? i).map Tuple.row := by
  simp only [Content.get?, content, get?, List.getElem?_map]
  cases p.slots[i]? <;> rfl

theorem slot_of_get? {p : HeapPage} {i : Nat} {t : Tuple} (h : p.get? i = some t) :
    p.slots[i]? = some (some t) :=
  Option.join_eq_some_iff.mp h

/-- The rows of `slots`, of which the first has number `first`, can be stored on a page. -/
def Placed (id : PageId) (schema : Schema) (first : Nat) (slots : List (Option Tuple)) : Prop :=
  ∀ (i : Nat) (t : Tuple), slots[i]? = some (some t) →
    t.schema.types = schema.types ∧ t.isComplete ∧ t.rid = some ⟨id, first + i⟩

theorem Placed.tail {id : PageId} {schema : Schema} {first : Nat} {slot : Option Tuple}
    {slots : List (Option Tuple)} (h : Placed id schema first (slot :: slots)) :
    Placed id schema (first + 1) slots := by
  intro i t ht
  obtain ⟨h1, h2, h3⟩ := h (i + 1) t (by simpa using ht)
  refine ⟨h1, h2, ?_⟩
  rw [h3, Nat.add_assoc, Nat.add_comm 1 i]

/-- What holds of every page that is read from a file and changed by rows going in and out. -/
structure Sound (p : HeapPage) : Prop where
  length_slots : p.slots.length = p.schema.slotsPerPage
  length_spare : p.slots.length + p.spare.length = 8 * headerSize p.schema.slotsPerPage
  placed : Placed p.id p.schema 0 p.slots

def rowImage (schema : Schema) (row : Option Row) : List UInt8 :=
  row.elim (zeros schema.width) (Tuple.encodeEntries schema.types)

theorem flatMap_slotImage {id : PageId} {schema : Schema} {first : Nat}
    {slots : List (Option Tuple)} (h : Placed id schema first slots) :
    slots.flatMap (slotImage schema) =
      (slots.map (Option.map Tuple.row)).flatMap (rowImage schema) := by
  induction slots generalizing first with
  | nil => rfl
  | cons slot slots ih =>
      simp only [List.flatMap_cons, List.map_cons, ih h.tail]
      congr 1
      cases slot with
      | none => rfl
      | some t =>
          obtain ⟨ht, _⟩ := h 0 t (by simp)
          simp [slotImage, rowImage, Tuple.encode_eq, ht]

theorem length_slotImage {schema : Schema} {slot : Option Tuple}
    (h : ∀ t, slot = some t → t.schema.types = schema.types) :
    (slotImage schema slot).length = schema.width := by
  cases slot with
  | none => exact length_zeros _
  | some t => simp only [slotImage, Option.elim, Tuple.length_encode, Schema.width, h t rfl]

theorem length_flatMap_slotImage {id : PageId} {schema : Schema} {first : Nat}
    {slots : List (Option Tuple)} (h : Placed id schema first slots) :
    (slots.flatMap (slotImage schema)).length = slots.length * schema.width := by
  induction slots generalizing first with
  | nil => simp
  | cons slot slots ih =>
      have head : (slotImage schema slot).length = schema.width :=
        length_slotImage fun t ht => (h 0 t (by rw [ht]; rfl)).1
      rw [List.flatMap_cons, List.length_append, head, ih h.tail, List.length_cons, Nat.succ_mul,
        Nat.add_comm]

theorem length_image (p : HeapPage) : p.image.length = pageSize :=
  length_resize _ _

namespace Sound
variable {p q : HeapPage}

theorem bits (h : p.Sound) :
    (p.slots.map Option.isSome ++ p.spare).length = 8 * headerSize p.schema.slotsPerPage := by
  rw [List.length_append, List.length_map]
  exact h.length_spare

theorem rid (h : p.Sound) {i : Nat} {t : Tuple} (ht : p.get? i = some t) :
    t.rid = some ⟨p.id, i⟩ := by
  have := (h.placed i t (slot_of_get? ht)).2.2
  rwa [Nat.zero_add] at this

theorem length_header (h : p.Sound) :
    p.header.length = headerSize p.schema.slotsPerPage :=
  length_pack h.bits

theorem image_eq_append (h : p.Sound) :
    p.image = p.header ++ (p.slots.flatMap (slotImage p.schema) ++
      zeros (pageSize - (p.header ++ p.slots.flatMap (slotImage p.schema)).length)) := by
  rw [image, resize_eq_append, List.append_assoc]
  rw [List.length_append, h.length_header, length_flatMap_slotImage h.placed, h.length_slots]
  exact headerSize_add_slots_le _

/-- Pages of one schema that keep the same have the same image. -/
theorem image_congr (hp : p.Sound) (hq : q.Sound) (hs : p.schema = q.schema)
    (hc : p.content = q.content) : p.image = q.image := by
  have used (r : HeapPage) : r.slots.map Option.isSome = r.content.rows.map Option.isSome := by
    simp only [content, List.map_map]
    apply List.map_congr_left
    intro slot _
    cases slot <;> rfl
  have slots : p.slots.flatMap (slotImage p.schema) = q.slots.flatMap (slotImage q.schema) := by
    rw [flatMap_slotImage hp.placed, flatMap_slotImage hq.placed, hs]
    exact congrArg (fun c => c.rows.flatMap (rowImage q.schema)) hc
  have spare : p.spare = q.spare := congrArg Content.spare hc
  simp only [image, header, used, hc, spare, slots]

end Sound

theorem decodeSlots_image {id : PageId} {schema : Schema} {first : Nat}
    {slots : List (Option Tuple)} (h : Placed id schema first slots) (rest : List UInt8) :
    ∃ slots', decodeSlots id schema first (slots.map Option.isSome)
        (slots.flatMap (slotImage schema) ++ rest) = .ok slots' ∧
      slots'.map (Option.map Tuple.values) = slots.map (Option.map Tuple.row) := by
  induction slots generalizing first with
  | nil => exact ⟨[], rfl, rfl⟩
  | cons slot slots ih =>
      obtain ⟨slots', hd, hr⟩ := ih h.tail
      cases slot with
      | none =>
          refine ⟨none :: slots', ?_, by simp [hr]⟩
          simp only [List.map_cons, List.flatMap_cons, slotImage, Option.elim, Option.isSome_none,
            decodeSlots, List.append_assoc]
          rw [List.drop_left' (length_zeros _), hd]
          rfl
      | some t =>
          obtain ⟨ht, hc, _⟩ := h 0 t (by simp)
          obtain ⟨u, hu, hvalues, _, _⟩ := Tuple.decode_encode ht hc []
          rw [List.append_nil] at hu
          have len : t.encode.length = schema.width := by
            rw [Tuple.length_encode, Schema.width, Schema.width, ht]
          refine ⟨some (u.located (some ⟨id, first⟩)) :: slots', ?_,
            by simp [hr, hvalues, Tuple.located]⟩
          simp only [List.map_cons, List.flatMap_cons, slotImage, Option.elim, Option.isSome_some,
            decodeSlots, List.append_assoc]
          rw [List.take_left' len, List.drop_left' len, hu]
          simp only [hd]
          rfl

theorem decodeSlots_ok {id : PageId} {schema : Schema} {first : Nat} {used : List Bool}
    {bs : List UInt8} {slots : List (Option Tuple)}
    (h : decodeSlots id schema first used bs = .ok slots) :
    slots.length = used.length ∧ Placed id schema first slots := by
  induction used generalizing first bs slots with
  | nil =>
      cases h
      exact ⟨rfl, by intro i t ht; simp at ht⟩
  | cons b used ih =>
      have grow {slot : Option Tuple} {rest : List (Option Tuple)}
          (hd : decodeSlots id schema (first + 1) used (bs.drop schema.width) = .ok rest)
          (hslot : ∀ t, slot = some t →
            t.schema.types = schema.types ∧ t.isComplete ∧ t.rid = some ⟨id, first⟩) :
          (slot :: rest).length = (b :: used).length ∧ Placed id schema first (slot :: rest) := by
        obtain ⟨hl, hp⟩ := ih hd
        refine ⟨by simp [hl], ?_⟩
        intro i t ht
        cases i with
        | zero => exact hslot t (by simpa using ht)
        | succ i =>
            obtain ⟨h1, h2, h3⟩ := hp i t (by simpa using ht)
            refine ⟨h1, h2, ?_⟩
            rw [h3, Nat.add_assoc, Nat.add_comm 1 i]
      cases b with
      | false =>
          obtain ⟨rest, hd, h⟩ := bind_ok_iff.mp h
          cases h
          exact grow hd nofun
      | true =>
          simp only [decodeSlots] at h
          cases ht : Tuple.decode schema (bs.take schema.width) with
          | error e => rw [ht] at h; cases h
          | ok u =>
              rw [ht] at h
              obtain ⟨rest, hd, h⟩ := bind_ok_iff.mp h
              cases h
              obtain ⟨hs, hc⟩ := Tuple.decode_ok ht
              refine grow hd ?_
              intro t heq
              cases heq
              exact ⟨by simp [Tuple.located, hs], hc, rfl⟩

theorem decodeContent_ok {id : PageId} {schema : Schema} {data : List UInt8}
    {slots : List (Option Tuple)} {spare : List Bool}
    (h : decodeContent id schema data = .ok (slots, spare)) :
    data.length = pageSize ∧ slots.length = schema.slotsPerPage ∧
      slots.length + spare.length = 8 * headerSize schema.slotsPerPage ∧
      Placed id schema 0 slots := by
  simp only [decodeContent] at h
  split at h
  next => cases h
  next hl =>
    have hl' : data.length = pageSize := by simpa using hl
    generalize hd : decodeSlots _ _ _ _ _ = r at h
    cases r with
    | error e => cases h
    | ok slots' =>
        cases h
        obtain ⟨hlen, hp⟩ := decodeSlots_ok hd
        have hn := headerSize_le schema.slotsPerPage
        have fit : headerSize schema.slotsPerPage ≤ pageSize :=
          Nat.le_trans (Nat.le_add_right _ _) (headerSize_add_slots_le schema)
        simp only [List.length_take, length_unpack, List.length_drop] at hlen ⊢
        refine ⟨hl', ?_, ?_, hp⟩ <;> rw [hl'] at * <;> omega

theorem decode_ok {id : PageId} {schema : Schema} {data : List UInt8} {p : HeapPage}
    (h : decode id schema data = .ok p) :
    p.Sound ∧ p.id = id ∧ p.schema = schema ∧ p.dirtiedBy = none ∧ p.beforeImage = data := by
  obtain ⟨content, hc, h⟩ := bind_ok_iff.mp h
  cases h
  obtain ⟨_, h1, h2, h3⟩ := decodeContent_ok hc
  exact ⟨⟨h1, h2, h3⟩, rfl, rfl, rfl, rfl⟩

theorem decodeSlots_free (id : PageId) (schema : Schema) (first n : Nat) (bs : List UInt8) :
    decodeSlots id schema first (List.replicate n false) bs = .ok (List.replicate n none) := by
  induction n generalizing first bs with
  | zero => rfl
  | succ n ih =>
      simp only [List.replicate_succ, decodeSlots, ih]
      rfl

/-- Zeros are the image of the page without a row. -/
theorem decode_zeros (id : PageId) (schema : Schema) :
    decode id schema (zeros pageSize) = .ok (empty id schema) := by
  have fit : headerSize schema.slotsPerPage ≤ pageSize :=
    Nat.le_trans (Nat.le_add_right _ _) (headerSize_add_slots_le schema)
  have hn := headerSize_le schema.slotsPerPage
  have hz : (zeros pageSize).take (headerSize schema.slotsPerPage) =
      zeros (headerSize schema.slotsPerPage) := by
    simp [zeros, Nat.min_eq_left fit]
  simp only [decode, decodeContent, length_zeros, ne_eq, not_true_eq_false, if_false, hz,
    unpack_zeros, List.take_replicate, List.drop_replicate, Nat.min_eq_left hn, decodeSlots_free]
  simp only [bind, Except.bind, empty]
  rw [Nat.mul_comm 8]

theorem decode_error {id : PageId} {schema : Schema} {data : List UInt8} {e : Error}
    (h : decode id schema data = .error e) : ∃ cause, e = .corrupted id cause := by
  have content : decodeContent id schema data = .error e :=
    (bind_error_iff.mp h).resolve_right nofun
  unfold decodeContent at content
  split at content
  next =>
    cases content
    exact ⟨_, rfl⟩
  next =>
    simp only at content
    split at content
    next cause _ =>
      cases content
      exact ⟨cause, rfl⟩
    next => cases content

/-- The bytes of a page and what they say: the content that is read from them. -/
def Reads (id : PageId) (schema : Schema) (data : List UInt8) (c : Content) : Prop :=
  ∃ slots, decodeContent id schema data = .ok (slots, c.spare) ∧
    slots.map (Option.map Tuple.row) = c.rows

theorem Reads.unique {id : PageId} {schema : Schema} {data : List UInt8} {c c' : Content}
    (h : Reads id schema data c) (h' : Reads id schema data c') : c = c' := by
  obtain ⟨slots, hd, hr⟩ := h
  obtain ⟨slots', hd', hr'⟩ := h'
  rw [hd] at hd'
  obtain ⟨rfl, hs⟩ := Prod.mk.inj (Except.ok.inj hd')
  exact Content.ext (hr.symm.trans hr') hs

theorem reads_of_decode {id : PageId} {schema : Schema} {data : List UInt8} {p : HeapPage}
    (h : decode id schema data = .ok p) : Reads id schema data p.content := by
  obtain ⟨content, hc, h⟩ := bind_ok_iff.mp h
  cases h
  exact ⟨_, hc, rfl⟩

theorem decode_of_reads {id : PageId} {schema : Schema} {data : List UInt8} {c : Content}
    (h : Reads id schema data c) : ∃ p, decode id schema data = .ok p ∧ p.content = c := by
  obtain ⟨slots, hd, hr⟩ := h
  refine ⟨{ id, schema, slots, spare := c.spare, dirtiedBy := none, beforeImage := data }, ?_, ?_⟩
  · simp [decode, hd, bind, Except.bind]
  · exact Content.ext hr rfl

/-- A sound page can be read from its image, and its rows are as it keeps them then. -/
theorem Sound.decodeContent_image {p : HeapPage} (h : p.Sound) :
    ∃ slots, decodeContent p.id p.schema p.image = .ok (slots, p.spare) ∧
      slots.map (Option.map Tuple.values) = p.content.rows := by
  obtain ⟨slots, hd, hr⟩ := decodeSlots_image h.placed
    (zeros (pageSize - (p.header ++ p.slots.flatMap (slotImage p.schema)).length))
  refine ⟨slots, ?_, hr⟩
  have bits : unpack (p.image.take (headerSize p.schema.slotsPerPage)) =
      p.slots.map Option.isSome ++ p.spare := by
    rw [h.image_eq_append, List.take_left' h.length_header, header, unpack_pack h.bits]
  have body : p.image.drop (headerSize p.schema.slotsPerPage) =
      p.slots.flatMap (slotImage p.schema) ++
        zeros (pageSize - (p.header ++ p.slots.flatMap (slotImage p.schema)).length) :=
    (congrArg (List.drop _) h.image_eq_append).trans (List.drop_left' h.length_header)
  have len : (p.slots.map Option.isSome).length = p.schema.slotsPerPage := by
    rw [List.length_map, h.length_slots]
  simp only [decodeContent, length_image, ne_eq, not_true_eq_false, if_false]
  rw [bits, body, List.take_left' len, List.drop_left' len, hd]

theorem rows_of_values {slots slots' : List (Option Tuple)}
    (h : slots'.map (Option.map Tuple.values) = slots.map (Option.map Tuple.row)) :
    slots'.map (Option.map Tuple.row) = slots.map (Option.map Tuple.row) := by
  induction slots' generalizing slots with
  | nil => exact h
  | cons u slots' ih =>
      cases slots with
      | nil => cases h
      | cons t slots =>
          obtain ⟨head, tail⟩ := List.cons.inj h
          rw [List.map_cons, List.map_cons, ih tail]
          congr 1
          cases u with
          | none => exact head
          | some u =>
              cases t with
              | none => cases head
              | some t => exact congrArg some (Tuple.row_of_values (Option.some.inj head))

/-- Reading the image of a page keeps what the page keeps. -/
theorem Sound.reads_image {p : HeapPage} (h : p.Sound) :
    Reads p.id p.schema p.image p.content := by
  obtain ⟨slots, hd, hv⟩ := h.decodeContent_image
  exact ⟨slots, hd, rows_of_values hv⟩

/-- The image says what a page keeps, no less. -/
theorem Sound.content_eq_of_image {p q : HeapPage} (hp : p.Sound) (hq : q.Sound)
    (hid : p.id = q.id) (hs : p.schema = q.schema) (hi : p.image = q.image) :
    p.content = q.content := by
  have h := hp.reads_image
  rw [hid, hs, hi] at h
  exact h.unique hq.reads_image

end HeapPage
end HeapStore
