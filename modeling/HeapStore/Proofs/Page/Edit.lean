import HeapStore.Proofs.Page.Image

/-!
What storing and deleting a row, marking, taking a snapshot and going back do to the content of a
page. Whether a row can be stored, and in which slot, is decided by what the page keeps.
-/

namespace HeapStore.HeapPage
variable {p q : HeapPage}

theorem length_content_rows (p : HeapPage) : p.content.rows.length = p.slots.length :=
  List.length_map ..

theorem isUsed_eq (p : HeapPage) (i : Nat) : p.isUsed i = (p.content.get? i).isSome := by
  rw [content_get?, isUsed]
  cases p.get? i <;> rfl

theorem emptySlots_eq (p : HeapPage) : p.emptySlots = p.content.rows.countP Option.isNone := by
  simp only [emptySlots, content, List.countP_map]
  apply List.countP_congr
  intro slot _
  cases slot <;> simp

theorem emptySlots_empty (id : PageId) (schema : Schema) :
    (empty id schema).emptySlots = schema.slotsPerPage := by
  simp [emptySlots, empty, List.countP_replicate]

theorem findIdx_free (p : HeapPage) :
    p.slots.findIdx? Option.isNone = p.content.rows.findIdx? Option.isNone := by
  simp only [content, List.findIdx?_map]
  congr 1
  funext slot
  cases slot <;> rfl

theorem lt_length_of_isUsed {i : Nat} (h : p.isUsed i) : i < p.slots.length := by
  rcases Nat.lt_or_ge i p.slots.length with hi | hi
  · exact hi
  · simp [isUsed, get?, List.getElem?_eq_none hi] at h

/-- What stays when rows go in and out of a page: its name, and what it goes back to. -/
structure Keeps (p q : HeapPage) : Prop where
  id : q.id = p.id
  schema : q.schema = p.schema
  beforeImage : q.beforeImage = p.beforeImage

theorem Keeps.refl (p : HeapPage) : p.Keeps p :=
  ⟨rfl, rfl, rfl⟩

theorem Keeps.trans {r : HeapPage} (h₁ : p.Keeps q) (h₂ : q.Keeps r) : p.Keeps r :=
  ⟨h₂.id.trans h₁.id, h₂.schema.trans h₁.schema, h₂.beforeImage.trans h₁.beforeImage⟩

/-- The slots stay sound when one of them changes to nothing or to a row that fits. -/
theorem Sound.set {i : Nat} {slot : Option Tuple} (h : p.Sound)
    (hslot : ∀ t, slot = some t →
      t.schema.types = p.schema.types ∧ t.isComplete ∧ t.rid = some ⟨p.id, i⟩) :
    Sound { p with slots := p.slots.set i slot } where
  length_slots := by simpa using h.length_slots
  length_spare := by simpa using h.length_spare
  placed := by
    intro j t ht
    rw [List.getElem?_set] at ht
    split at ht
    next hij =>
      subst hij
      split at ht
      · simpa using hslot t (by simpa using ht)
      · cases ht
    next => exact h.placed j t ht

theorem content_set (p : HeapPage) (i : Nat) (slot : Option Tuple) :
    content { p with slots := p.slots.set i slot } = p.content.set i (slot.map Tuple.row) := by
  simp [content, Content.set, List.map_set]

theorem get?_set {p : HeapPage} {i : Nat} (slot : Option Tuple) (h : i < p.slots.length) (j : Nat) :
    get? { p with slots := p.slots.set i slot } j = if j = i then slot else p.get? j := by
  simp only [get?, List.getElem?_set]
  by_cases hj : j = i
  · subst hj
    simp [h]
  · simp [hj, Ne.symm hj]

/-- Where a row goes, whatever else is on the page. -/
theorem slots_of_insert {t : Tuple} {rid : RecordId} (h : p.insert t = .ok (q, rid)) :
    rid.page = p.id ∧ p.slots.findIdx? Option.isNone = some rid.slot ∧
      q = { p with slots := p.slots.set rid.slot (some (t.located (some rid))) } := by
  unfold insert at h
  split at h
  · cases h
  · split at h
    · cases h
    · split at h
      · cases h
      · next found =>
        cases h
        exact ⟨rfl, found, rfl⟩

theorem id_of_insert {t : Tuple} {rid : RecordId} (h : p.insert t = .ok (q, rid)) :
    q.id = p.id ∧ rid.page = p.id := by
  obtain ⟨page, _, rfl⟩ := slots_of_insert h
  exact ⟨rfl, page⟩

structure Inserted (p : HeapPage) (t : Tuple) (q : HeapPage) (rid : RecordId) : Prop
    extends Keeps p q where
  sound : q.Sound
  page : rid.page = p.id
  slot_lt : rid.slot < p.content.rows.length
  content : q.content = p.content.set rid.slot (some t.row)
  free : p.get? rid.slot = none
  here : q.get? rid.slot = some (t.located (some rid))
  kept : ∀ i, i ≠ rid.slot → q.get? i = p.get? i

theorem insert_ok {t : Tuple} {rid : RecordId} (hp : p.Sound) (h : p.insert t = .ok (q, rid)) :
    p.Inserted t q rid := by
  simp only [insert] at h
  split at h
  next => cases h
  next hs =>
    split at h
    next => cases h
    next hc =>
      have fits : t.schema.types = p.schema.types := by simpa using hs
      have complete : t.isComplete := by simpa using hc
      cases hf : p.slots.findIdx? Option.isNone with
      | none => rw [hf] at h; cases h
      | some i =>
          rw [hf] at h
          cases h
          obtain ⟨hi, none, _⟩ := List.findIdx?_eq_some_iff_getElem.mp hf
          refine ⟨⟨rfl, rfl, rfl⟩, hp.set ?_, rfl, ?_, content_set _ _ _, ?_, ?_, ?_⟩
          · intro u hu
            cases hu
            exact ⟨fits, complete, rfl⟩
          · rw [length_content_rows]
            exact hi
          · rw [get?, List.getElem?_eq_getElem hi, Option.join_some]
            exact Option.isNone_iff_eq_none.mp none
          · exact (get?_set _ hi i).trans (if_pos rfl)
          · exact fun j hj => (get?_set _ hi j).trans (if_neg hj)

/-- Storing a row meets the same end on two pages that keep the same. -/
theorem insert_congr (hid : p.id = q.id) (hs : p.schema = q.schema)
    (hc : p.content = q.content) (t : Tuple) :
    (p.insert t).map Prod.snd = (q.insert t).map Prod.snd := by
  simp only [insert, findIdx_free, hc, hs, hid]
  split
  · rfl
  · split
    · rfl
    · cases q.content.rows.findIdx? Option.isNone <;> rfl

theorem id_of_erase {rid : Option RecordId} (h : p.erase rid = .ok q) : q.id = p.id := by
  unfold erase at h
  split at h
  · cases h
  · split at h
    · cases h
      rfl
    · cases h

structure Erased (p : HeapPage) (rid : RecordId) (q : HeapPage) : Prop extends Keeps p q where
  sound : q.Sound
  page : rid.page = p.id
  slot_lt : rid.slot < p.content.rows.length
  content : q.content = p.content.set rid.slot none
  here : q.get? rid.slot = none
  kept : ∀ i, i ≠ rid.slot → q.get? i = p.get? i

theorem erase_ok {rid : RecordId} (hp : p.Sound) (h : p.erase (some rid) = .ok q) :
    p.Erased rid q := by
  simp only [erase] at h
  split at h
  next hu =>
    cases h
    have hi := lt_length_of_isUsed hu.2
    refine ⟨⟨rfl, rfl, rfl⟩, hp.set (by intro t ht; cases ht), hu.1, ?_, content_set _ _ _, ?_, ?_⟩
    · rw [length_content_rows]
      exact hi
    · exact (get?_set _ hi rid.slot).trans (if_pos rfl)
    · exact fun j hj => (get?_set _ hi j).trans (if_neg hj)
  next => cases h

theorem erase_congr (hid : p.id = q.id) (hc : p.content = q.content) (rid : Option RecordId) :
    (p.erase rid).map (fun _ => ()) = (q.erase rid).map fun _ => () := by
  cases rid with
  | none => rfl
  | some rid =>
      simp only [erase, isUsed_eq, hid, hc]
      split <;> rfl

theorem mark_eq_self {owner : Option TxId} (h : p.dirtiedBy = owner) : p.mark owner = p := by
  rw [← h]
  rfl

theorem Sound.mark (h : p.Sound) (owner : Option TxId) : (p.mark owner).Sound :=
  ⟨h.length_slots, h.length_spare, h.placed⟩

theorem Sound.snapshot (h : p.Sound) : p.snapshot.Sound :=
  ⟨h.length_slots, h.length_spare, h.placed⟩

/-- The content that a page goes back to. -/
def Reverts (p : HeapPage) (c : Content) : Prop :=
  Reads p.id p.schema p.beforeImage c

theorem Keeps.reverts (h : p.Keeps q) {c : Content} : q.Reverts c ↔ p.Reverts c := by
  unfold Reverts
  rw [h.id, h.schema, h.beforeImage]

theorem Sound.reverts_snapshot (h : p.Sound) : p.snapshot.Reverts p.content :=
  h.reads_image

theorem reverts_of_decode {id : PageId} {schema : Schema} {data : List UInt8}
    (h : decode id schema data = .ok p) : p.Reverts p.content := by
  obtain ⟨_, hid, hs, _, hb⟩ := decode_ok h
  have := reads_of_decode h
  rwa [← hid, ← hs, ← hb] at this

structure Restored (p : HeapPage) (c : Content) (q : HeapPage) : Prop extends Keeps p q where
  sound : q.Sound
  clean : q.dirtiedBy = none
  content : q.content = c
  same : p.restore = .ok q

theorem restore_of_reverts {c : Content} (h : p.Reverts c) :
    ∃ q, p.restore = .ok q ∧ p.Restored c q := by
  obtain ⟨slots, hd, hr⟩ := h
  have same : p.restore = .ok { p with slots, spare := c.spare, dirtiedBy := none } := by
    simp [restore, hd, bind, Except.bind]
  refine ⟨_, same, ⟨rfl, rfl, rfl⟩, ?_, rfl, Content.ext hr rfl, same⟩
  obtain ⟨_, h1, h2, h3⟩ := decodeContent_ok hd
  exact ⟨h1, h2, h3⟩

end HeapStore.HeapPage
