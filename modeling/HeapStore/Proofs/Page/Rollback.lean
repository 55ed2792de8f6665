import HeapStore.Proofs.Page.RoundTrip
import HeapStore.Proofs.Page.Slots

/-!
A page that is in order, and the content it goes back to. Whatever is done to a page, its header
tells which of its slots are used, each row is one that belongs in its slot, and the page can go
back; and if it has only been changed since the last snapshot, it goes back to what it was then.
-/

namespace HeapStore

/-- A row comes or goes, or the page changes hands. What the page goes back to is not touched. -/
def PageEdit.IsChange : PageEdit → Prop
  | insert _ | erase _ | mark _ => True
  | snapshot | restore => False

namespace HeapPage
variable {p q p₀ : HeapPage} {id : PageId} {schema : Schema}

theorem emptySlots_add_tuples (p : HeapPage) :
    p.emptySlots + p.tuples.length = p.slots.length := by
  have used : p.tuples.length = p.slots.countP Option.isSome :=
    List.length_filterMap_eq_countP
  have free : p.emptySlots = p.slots.countP fun slot => ¬ slot.isSome := by
    rw [emptySlots]
    exact List.countP_congr fun slot _ => by simp
  rw [used, free, Nat.add_comm]
  exact (List.length_eq_countP_add_countP Option.isSome).symm

/-- The free slots are those of which the header says so. -/
theorem Sound.emptySlots_eq (h : p.Sound) :
    p.emptySlots = (List.range p.slots.length).countP fun i => !slotBit p.header i := by
  rw [emptySlots, h.length_slots]
  conv => lhs; rw [h.slots_eq]
  rw [List.countP_map]
  apply List.countP_congr
  intro i hi
  rw [Function.comp_apply, h.slotBit_eq_isUsed (List.mem_range.mp hi), isUsed]
  cases p.get? i <;> simp

/-- A page goes back by being read once more. -/
theorem restore_eq_decode (p : HeapPage) :
    p.restore = decode p.id p.schema p.beforeImage := rfl

theorem Reverts.length_beforeImage {c : Content} (h : p.Reverts c) :
    p.beforeImage.length = pageSize := by
  obtain ⟨_, read, _⟩ := h
  exact (decodeContent_ok read).1

/-- What a page goes back to stays what it is while the page is only changed. -/
theorem Formed.keeps_of_change {e : PageEdit} (h : p.Formed id schema) (change : e.IsChange)
    (he : e.perform p = .ok q) : p.Keeps q := by
  cases e with
  | insert t =>
      rw [PageEdit.perform] at he
      cases inserted : p.insert t with
      | error _ =>
          rw [inserted] at he
          cases he
      | ok placed =>
          rw [inserted] at he
          cases he
          exact (insert_ok h.sound inserted).toKeeps
  | erase rid =>
      cases rid with
      | none => cases he
      | some rid => exact (erase_ok h.sound he).toKeeps
  | mark owner =>
      cases he
      exact ⟨rfl, rfl, rfl⟩
  | snapshot => exact change.elim
  | restore => exact change.elim

theorem Formed.keeps_of_changes {changes : List PageEdit} (h : p.Formed id schema)
    (change : ∀ e ∈ changes, e.IsChange) : p.Keeps (p.edited changes) := by
  induction changes generalizing p with
  | nil => exact .refl p
  | cons e changes ih =>
      have later := fun e' he' => change e' (List.mem_cons_of_mem _ he')
      rw [HeapPage.edited]
      cases he : e.perform p with
      | error _ => exact ih h later
      | ok q =>
          have first := h.keeps_of_change (change e (List.mem_cons_self ..)) he
          exact first.trans (ih (h.perform he) later)

/-- However it is changed after a snapshot, a page goes back to one with the image of then. -/
theorem Formed.back_to_snapshot {changes : List PageEdit} (h : p.Formed id schema)
    (change : ∀ e ∈ changes, e.IsChange) :
    ∃ q, (p.snapshot.edited changes).restore = .ok q ∧ q.dirtiedBy = none ∧ q.image = p.image := by
  have taken : p.snapshot.Formed id schema := h.perform (e := .snapshot) rfl
  have keeps := taken.keeps_of_changes change
  obtain ⟨q, read, image, _⟩ := h.sound.reload rfl
  refine ⟨q, ?_, (decode_ok read).2.2.2.1, image⟩
  rw [restore_eq_decode, keeps.id, keeps.schema, keeps.beforeImage]
  exact read

/-- The slots of a page are what its header says, with rows that belong there, and the page it goes
back to can be read. -/
structure InOrder (id : PageId) (schema : Schema) (p : HeapPage) : Prop where
  slots : p.slots.length = schema.slotsPerPage
  header : p.header.length = headerSize p.slots.length
  used : ∀ i < p.slots.length, slotBit p.header i ↔ ∃ t, p.get? i = some t
  row : ∀ i t, p.get? i = some t →
    t.isComplete ∧ t.schema.types = schema.types ∧ t.rid = some ⟨id, i⟩
  free : p.emptySlots = (List.range p.slots.length).countP fun i => !slotBit p.header i
  count : p.emptySlots + p.tuples.length = p.slots.length
  before : p.beforeImage.length = pageSize
  back : ∃ q, decode id schema p.beforeImage = .ok q ∧ p.restore = .ok q ∧ q.dirtiedBy = none

theorem Formed.inOrder (h : p.Formed id schema) : p.InOrder id schema := by
  obtain ⟨rfl, rfl, sound, c, reverts⟩ := h
  constructor
  case slots => exact sound.length_slots
  case header => rw [sound.length_header, sound.length_slots]
  case used =>
    intro i hi
    rw [sound.slotBit_eq_isUsed (sound.length_slots ▸ hi), isUsed, Option.isSome_iff_exists]
  case row =>
    intro i t ht
    obtain ⟨types, complete, _⟩ := sound.placed i t (slot_of_get? ht)
    exact ⟨complete, types, sound.rid ht⟩
  case free => exact sound.emptySlots_eq
  case count => exact p.emptySlots_add_tuples
  case before => exact reverts.length_beforeImage
  case back =>
    obtain ⟨q, read, restored⟩ := restore_of_reverts reverts
    exact ⟨q, read, read, restored.clean⟩

/-- Whatever has been done to a page since it was empty or read, it is in order, and from a snapshot
that is taken then it goes back to the same image, whatever rows come and go in between. -/
theorem edited_in_order (origin : p₀ = empty id schema ∨ ∃ data, decode id schema data = .ok p₀)
    (edits : List PageEdit) :
    (p₀.edited edits).InOrder id schema ∧
      ∀ changes : List PageEdit, (∀ e ∈ changes, e.IsChange) →
        ∃ q, ((p₀.edited edits).snapshot.edited changes).restore = .ok q ∧ q.dirtiedBy = none ∧
          q.image = (p₀.edited edits).image := by
  have now := formed_edited origin edits
  exact ⟨now.inOrder, fun changes change => now.back_to_snapshot change⟩

/-- The second row is on the page, and is there again after it was deleted. -/
theorem overfull_row_in_order :
    let p := (empty ⟨.file 1, 0⟩ overfullRow.schema).edited overfullEdits
    let changes := [.erase (some ⟨⟨.file 1, 0⟩, 1⟩), .mark (some ⟨3⟩)]
    p.InOrder ⟨.file 1, 0⟩ overfullRow.schema ∧ slotBit p.header 1 ∧
      ((p.snapshot.edited changes).get? 1).isNone ∧
      ∃ q, (p.snapshot.edited changes).restore = .ok q ∧ q.dirtiedBy = none ∧
        q.image = p.image := by
  intro p changes
  obtain ⟨order, back⟩ :=
    edited_in_order (.inl (rfl : empty ⟨.file 1, 0⟩ overfullRow.schema = _)) overfullEdits
  refine ⟨order, by decide +kernel, by decide +kernel, back changes fun e he => ?_⟩
  simp only [changes, List.mem_cons, List.not_mem_nil, or_false] at he
  rcases he with rfl | rfl <;> trivial

end HeapPage
end HeapStore
