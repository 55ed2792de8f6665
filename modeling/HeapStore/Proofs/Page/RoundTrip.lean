import HeapStore.Page.Edit
import HeapStore.Proofs.Page.Edit

/-!
A page and its image. Whatever has been done to a page since it was empty or read, it can be read
from its image, by any schema of the same types: the same slots are used then, the rows are the
same but for strings that are too long, and the image is the same.
-/

namespace HeapStore

/-- `s'` is the longest initial part of `s` that takes at most `room` bytes of UTF-8. -/
structure LongestPrefix (room : Nat) (s s' : String) : Prop where
  initial : s'.toList <+: s.toList
  fits : s'.utf8ByteSize ≤ room
  longest : ∀ r : String, r.toList <+: s.toList → r.utf8ByteSize ≤ room → r.toList <+: s'.toList

theorem longestPrefix_cut (room : Nat) (s : String) :
    LongestPrefix room s (String.ofList (Utf8.cut room s.toList)) where
  initial := by
    rw [String.toList_ofList]
    exact Utf8.cut_prefix room s.toList
  fits := by
    rw [← Utf8.size_toList, String.toList_ofList]
    exact Utf8.size_cut_le room s.toList
  longest r initial fits := by
    rw [String.toList_ofList]
    exact Utf8.prefix_cut initial (Utf8.size_toList r ▸ fits)

theorem LongestPrefix.unique {room : Nat} {s a b : String} (ha : LongestPrefix room s a)
    (hb : LongestPrefix room s b) : a = b := by
  have below := hb.longest a ha.initial ha.fits
  have above := ha.longest b hb.initial hb.fits
  exact String.toList_injective (below.eq_of_length_le above.length_le)

/-- What a page keeps of a value. -/
inductive Value.KeptAs : Value → Value → Prop
  | int (n : Int32) : KeptAs (.int n) (.int n)
  | string {s s' : String} (h : LongestPrefix stringRoom s s') : KeptAs (.string s) (.string s')

theorem Value.keptAs_stored (v : Value) : v.KeptAs v.stored := by
  cases v with
  | int n => exact .int n
  | string s => exact .string (longestPrefix_cut stringRoom s)

theorem Value.KeptAs.eq_stored {v v' : Value} (h : v.KeptAs v') : v' = v.stored := by
  cases h with
  | int n => rfl
  | string h => exact congrArg Value.string (h.unique (longestPrefix_cut stringRoom _))

/-- Entry by entry, `u` has what a page keeps of `t`; none of them is missing. -/
def Tuple.KeptAs (t u : Tuple) : Prop :=
  u.values.length = t.values.length ∧
    ∀ k < t.values.length, ∃ v v', t.get? k = some v ∧ u.get? k = some v' ∧ v.KeptAs v'

theorem Tuple.keptAs_of_row {t u : Tuple} (complete : t.isComplete) (h : u.values = t.row) :
    t.KeptAs u := by
  refine ⟨by simp [h, Tuple.row], fun k hk => ?_⟩
  have set := List.all_eq_true.mp complete t.values[k] (List.getElem_mem hk)
  obtain ⟨v, hv⟩ := Option.isSome_iff_exists.mp set
  have here : t.values[k]? = some (some v) := by rw [List.getElem?_eq_getElem hk, hv]
  refine ⟨v, v.stored, ?_, ?_, v.keptAs_stored⟩
  · rw [Tuple.get?, here, Option.join_some]
  · rw [Tuple.get?, h, Tuple.row, List.getElem?_map, here]
    rfl

namespace HeapPage
variable {p q : HeapPage} {id : PageId} {schema : Schema}

/-- A page of this name and schema that can be written, and go back. -/
structure Formed (id : PageId) (schema : Schema) (p : HeapPage) : Prop where
  id : p.id = id
  schema : p.schema = schema
  sound : p.Sound
  reverts : ∃ c, p.Reverts c

theorem formed_of_decode {data : List UInt8} (h : decode id schema data = .ok p) :
    p.Formed id schema := by
  obtain ⟨sound, hid, hs, _⟩ := decode_ok h
  exact ⟨hid, hs, sound, _, reverts_of_decode h⟩

theorem formed_empty (id : PageId) (schema : Schema) : (empty id schema).Formed id schema :=
  formed_of_decode (decode_zeros id schema)

theorem Formed.of_keeps (h : p.Formed id schema) (keeps : p.Keeps q) (sound : q.Sound) :
    q.Formed id schema where
  id := keeps.id.trans h.id
  schema := keeps.schema.trans h.schema
  sound := sound
  reverts := by
    obtain ⟨c, hc⟩ := h.reverts
    exact ⟨c, keeps.reverts.mpr hc⟩

theorem Formed.perform {e : PageEdit} (h : p.Formed id schema) (he : e.perform p = .ok q) :
    q.Formed id schema := by
  cases e with
  | insert t =>
      simp only [PageEdit.perform] at he
      cases hi : p.insert t with
      | error e =>
          rw [hi] at he
          cases he
      | ok placed =>
          rw [hi] at he
          cases he
          have inserted := insert_ok h.sound hi
          exact h.of_keeps inserted.toKeeps inserted.sound
  | erase rid =>
      cases rid with
      | none => cases he
      | some rid =>
          have erased := erase_ok h.sound he
          exact h.of_keeps erased.toKeeps erased.sound
  | mark owner =>
      cases he
      exact h.of_keeps ⟨rfl, rfl, rfl⟩ (h.sound.mark owner)
  | snapshot =>
      cases he
      exact ⟨h.id, h.schema, h.sound.snapshot, _, h.sound.reverts_snapshot⟩
  | restore =>
      obtain ⟨c, hc⟩ := h.reverts
      obtain ⟨r, hr, restored⟩ := restore_of_reverts hc
      obtain rfl : q = r := Except.ok.inj (he.symm.trans hr)
      exact h.of_keeps restored.toKeeps restored.sound

theorem Formed.edited (h : p.Formed id schema) (edits : List PageEdit) :
    (p.edited edits).Formed id schema := by
  induction edits generalizing p with
  | nil => exact h
  | cons e edits ih =>
      rw [HeapPage.edited]
      cases he : e.perform p with
      | error _ => exact ih h
      | ok q => exact ih (h.perform he)

/-- Whatever has been done to a page since it was empty or read. -/
theorem formed_edited {p₀ : HeapPage}
    (origin : p₀ = empty id schema ∨ ∃ data, decode id schema data = .ok p₀)
    (edits : List PageEdit) : (p₀.edited edits).Formed id schema := by
  rcases origin with rfl | ⟨data, read⟩
  · exact (formed_empty id schema).edited edits
  · exact (formed_of_decode read).edited edits

section Renamed
variable {schema' : Schema}

/-- Names of columns are no concern of a page. -/
theorem Sound.renamed (h : p.Sound) (same : schema'.types = p.schema.types) :
    Sound { p with schema := schema' } := by
  have width : schema'.width = p.schema.width := by rw [Schema.width, Schema.width, same]
  have slots : schema'.slotsPerPage = p.schema.slotsPerPage := by
    rw [Schema.slotsPerPage, Schema.slotsPerPage, width]
  refine ⟨slots ▸ h.length_slots, slots ▸ h.length_spare, fun i t ht => ?_⟩
  obtain ⟨types, rest⟩ := h.placed i t ht
  exact ⟨types.trans same.symm, rest⟩

theorem image_renamed (same : schema'.types = p.schema.types) :
    image { p with schema := schema' } = p.image := by
  have width : schema'.width = p.schema.width := by rw [Schema.width, Schema.width, same]
  have slot : slotImage schema' = slotImage p.schema := by
    funext slot
    rw [slotImage, slotImage, width]
  simp only [image, header, slot]

/-- A sound page is read from its image as one that keeps the same. -/
theorem Sound.reload (h : p.Sound) (same : schema'.types = p.schema.types) :
    ∃ q, decode p.id schema' p.image = .ok q ∧ q.image = p.image ∧
      ∀ i, (q.get? i).map Tuple.values = (p.get? i).map Tuple.row := by
  have renamed := h.renamed same
  obtain ⟨slots, hd, values⟩ := renamed.decodeContent_image
  rw [image_renamed same] at hd
  have read : decode p.id schema' p.image = .ok ⟨p.id, schema', slots, p.spare, none, p.image⟩ := by
    simp [decode, hd, bind, Except.bind]
  refine ⟨_, read, ?_, fun i => ?_⟩
  · have content : HeapPage.content ⟨p.id, schema', slots, p.spare, none, p.image⟩ =
        HeapPage.content { p with schema := schema' } :=
      Content.ext (rows_of_values values) rfl
    exact ((decode_ok read).1.image_congr renamed rfl content).trans (image_renamed same)
  · have row := congrArg (fun rows => (rows[i]?).join) values
    simp only [content, List.getElem?_map] at row
    simp only [get?]
    cases hi : slots[i]? <;> cases hj : p.slots[i]? <;> simp_all

end Renamed

/-- Whatever has become of a page, its image has the size of a page, is read by any schema of the
same types, and is the image of the page that is read. That page has rows in the same slots, each
the same but for what is too long of its strings, and each located in its slot. -/
theorem image_round_trip {p₀ : HeapPage}
    (origin : p₀ = empty id schema ∨ ∃ data, decode id schema data = .ok p₀)
    (edits : List PageEdit) {schema' : Schema} (same : schema'.types = schema.types) :
    (p₀.edited edits).id = id ∧ (p₀.edited edits).image.length = pageSize ∧
      ∃ q, decode id schema' (p₀.edited edits).image = .ok q ∧
        q.image = (p₀.edited edits).image ∧
        (∀ i, q.isUsed i = (p₀.edited edits).isUsed i) ∧
        ∀ i t, (p₀.edited edits).get? i = some t → ∃ u, q.get? i = some u ∧ t.KeptAs u ∧
          u.schema.types = t.schema.types ∧ u.rid = some ⟨id, i⟩ := by
  have now := formed_edited origin edits
  generalize p₀.edited edits = p at now ⊢
  obtain rfl := now.id
  obtain ⟨q, read, image, rows⟩ := now.sound.reload (now.schema ▸ same)
  obtain ⟨sound, hid, hs, _⟩ := decode_ok read
  refine ⟨rfl, length_image p, q, read, image, fun i => ?_, fun i t ht => ?_⟩
  · have := congrArg Option.isSome (rows i)
    simpa [isUsed] using this
  · have row := rows i
    rw [ht, Option.map_some] at row
    obtain ⟨u, hu, values⟩ := Option.map_eq_some_iff.mp row
    obtain ⟨types, complete, _⟩ := now.sound.placed i t (slot_of_get? ht)
    obtain ⟨types', _, rid⟩ := sound.placed i u (slot_of_get? hu)
    refine ⟨u, hu, Tuple.keptAs_of_row complete values, ?_, ?_⟩
    · rw [types', types, hs, same, now.schema]
    · rw [rid, hid, Nat.zero_add]

def labelled (number text : Option String) : Schema :=
  ⟨[⟨.int, number⟩, ⟨.string, text⟩], by simp⟩

/-- Its text takes one byte more than there is room for, and ends in a character of two bytes. -/
def overfullRow : Tuple where
  schema := labelled (some "number") (some "text")
  values := [some (.int (-7)), some (.string (String.ofList (List.replicate 127 'x' ++ ['é'])))]
  fits := by simp [Fits, Schema.types, labelled, Value.type]

def overfullEdits : List PageEdit :=
  [.insert overfullRow, .snapshot, .erase (some ⟨⟨.file 1, 0⟩, 0⟩), .mark (some ⟨2⟩), .restore,
    .insert overfullRow]

/-- The second row is on the page as it was given, and is read without its last character. -/
theorem overfull_row_round_trip :
    let p := (empty ⟨.file 1, 0⟩ overfullRow.schema).edited overfullEdits
    (labelled none none).types = overfullRow.schema.types ∧
      p.get? 1 = some (overfullRow.located (some ⟨⟨.file 1, 0⟩, 1⟩)) ∧
      ∃ q u, decode ⟨.file 1, 0⟩ (labelled none none) p.image = .ok q ∧ q.image = p.image ∧
        q.get? 1 = some u ∧ u.get? 1 = some (.string (String.ofList (List.replicate 127 'x'))) := by
  intro p
  have same : (labelled none none).types = overfullRow.schema.types := rfl
  have here : p.get? 1 = some (overfullRow.located (some ⟨⟨.file 1, 0⟩, 1⟩)) := by
    decide +kernel
  obtain ⟨q, read, image, _, rows⟩ := (image_round_trip (.inl rfl) overfullEdits same).2.2
  obtain ⟨u, hu, ⟨_, entries⟩, _⟩ := rows 1 _ here
  refine ⟨same, here, q, u, read, image, hu, ?_⟩
  obtain ⟨v, v', hv, hv', kept⟩ := entries 1 (by decide)
  cases hv
  rw [hv', kept.eq_stored]
  decide +kernel

end HeapPage
end HeapStore
