import HeapStore.Proofs.Page.Edit

/-!
One row of a page. It is in the page as it was stored, until the page is read from its image; from
then on it is as the page keeps it, with its strings cut.
-/

namespace HeapStore

namespace Tuple
variable {t u v : Tuple}

/-- The row as a page keeps it. -/
def kept (t : Tuple) : Tuple where
  schema := t.schema
  values := t.row
  fits := t.fits.stored

theorem alike_iff : t.alike u ↔ t.schema.types = u.schema.types ∧ t.values = u.values := by
  simp [alike]

theorem row_kept (t : Tuple) : t.kept.row = t.row :=
  row_of_values rfl

theorem kept_kept (t : Tuple) : t.kept.kept = t.kept := by
  have same : t.kept.row = t.row := row_kept t
  simp only [kept] at same ⊢
  congr

/-- Rows that are alike are kept alike. -/
theorem alike_kept (h : u.alike t) (hv : v.values = u.row) (ht : v.schema.types = u.schema.types) :
    v.alike t.kept := by
  obtain ⟨types, values⟩ := alike_iff.mp h
  refine alike_iff.mpr ⟨ht.trans types, ?_⟩
  rw [hv, row, values]
  rfl

theorem alike_trans (h : t.alike u) (h' : u.alike v) : t.alike v := by
  obtain ⟨types, values⟩ := alike_iff.mp h
  obtain ⟨types', values'⟩ := alike_iff.mp h'
  exact alike_iff.mpr ⟨types.trans types', values.trans values'⟩

theorem alike_symm (h : t.alike u) : u.alike t := by
  obtain ⟨types, values⟩ := alike_iff.mp h
  exact alike_iff.mpr ⟨types.symm, values.symm⟩

/-- Two readings of a row are alike if both have it in full, or neither has. -/
theorem alike_readings_iff (hu : u.alike t ∨ u.alike t.kept) (hv : v.alike t ∨ v.alike t.kept) :
    u.alike v ↔ (u.alike t ↔ v.alike t) := by
  constructor
  · exact fun h => ⟨alike_trans (alike_symm h), alike_trans h⟩
  · intro both
    rcases hu with whole | cut
    · exact alike_trans whole (alike_symm (both.mp whole))
    · rcases hv with whole | cut'
      · exact alike_trans (both.mpr whole) (alike_symm whole)
      · exact alike_trans cut (alike_symm cut')

end Tuple

theorem Value.stored_eq_self_iff (s : String) :
    (Value.string s).stored = .string s ↔ Utf8.size s.toList ≤ stringRoom := by
  simp only [stored, Value.string.injEq]
  constructor
  · intro same
    have := Utf8.size_cut_le stringRoom s.toList
    rwa [← String.toList_ofList (l := Utf8.cut stringRoom s.toList), same] at this
  · intro short
    rw [Utf8.cut_eq_self short, String.ofList_toList]

/-- Nothing is lost exactly of the rows that have no string too long for a page. -/
theorem Tuple.kept_alike_iff {t : Tuple} :
    t.kept.alike t ↔
      ∀ s, some (.string s) ∈ t.values → Utf8.size s.toList ≤ stringRoom := by
  have whole : t.kept.alike t ↔ t.values.map (Option.map Value.stored) = t.values.map id := by
    rw [List.map_id]
    exact alike_iff.trans (and_iff_right rfl)
  rw [whole, List.map_inj_left]
  constructor
  · intro same s hs
    exact (Value.stored_eq_self_iff s).mp (Option.some.inj (same _ hs))
  · rintro short (_ | _ | s) hv
    · rfl
    · rfl
    · exact congrArg some ((Value.stored_eq_self_iff s).mpr (short s hv))

namespace HeapPage
variable {p q f : HeapPage} {i : Nat} {t : Tuple}

/-- There is a row like `t` in slot `i`. -/
def Has (p : HeapPage) (i : Nat) (t : Tuple) : Prop :=
  ∃ v, p.get? i = some v ∧ v.alike t

/-- There is the row `t` in slot `i`, in full or as a page keeps it. -/
def Bears (p : HeapPage) (i : Nat) (t : Tuple) : Prop :=
  p.Has i t ∨ p.Has i t.kept

/-- A page that goes back has a row like `t` in slot `i`. -/
def Recalls (p : HeapPage) (i : Nat) (t : Tuple) : Prop :=
  ∃ r, decode p.id p.schema p.beforeImage = .ok r ∧ r.Has i t

theorem Keeps.recalls (h : p.Keeps q) : q.Recalls i t ↔ p.Recalls i t := by
  rw [Recalls, Recalls, h.id, h.schema, h.beforeImage]

theorem Recalls.has (h : p.Recalls i t) (hq : p.restore = .ok q) : q.Has i t := by
  obtain ⟨r, hr, v, hv, alike⟩ := h
  simp only [decode, restore] at hr hq
  cases hc : decodeContent p.id p.schema p.beforeImage with
  | error e =>
      rw [hc] at hr
      cases hr
  | ok content =>
      rw [hc] at hr hq
      cases hr
      cases hq
      exact ⟨v, hv, alike⟩

theorem recalls_of_decode {id : PageId} {schema : Schema} {data : List UInt8}
    (h : decode id schema data = .ok p) (has : p.Has i t) : p.Recalls i t := by
  obtain ⟨_, hid, hs, _, hb⟩ := decode_ok h
  rw [Recalls, hid, hs, hb]
  exact ⟨p, h, has⟩

/-- A row that is read from the image of a page is as the page keeps it. -/
theorem Sound.has_of_image (hp : p.Sound) (h : p.Has i t)
    (hf : decode p.id p.schema p.image = .ok f) : f.Has i t.kept := by
  obtain ⟨v, hv, alike⟩ := h
  obtain ⟨slots, hd, values⟩ := hp.decodeContent_image
  obtain ⟨sound, _, schema, _⟩ := decode_ok hf
  obtain rfl : f.slots = slots := by
    rw [decode, hd] at hf
    cases hf
    rfl
  have slot : p.slots[i]? = some (some v) := by
    simpa [get?, Option.join_eq_some_iff] using hv
  have hi : (f.slots.map (Option.map Tuple.values))[i]? = some (some v.row) := by
    rw [values, content, List.getElem?_map, slot]
    rfl
  rw [List.getElem?_map] at hi
  obtain ⟨_, hu, some⟩ := Option.map_eq_some_iff.mp hi
  obtain ⟨u, rfl, row⟩ := Option.map_eq_some_iff.mp some
  refine ⟨u, by rw [get?, hu, Option.join_some], Tuple.alike_kept alike row ?_⟩
  rw [(sound.placed i u hu).1, (hp.placed i v slot).1, schema]

theorem Sound.bears_of_image (hp : p.Sound) (h : p.Bears i t)
    (hf : decode p.id p.schema p.image = .ok f) : f.Has i t.kept := by
  rcases h with whole | cut
  · exact hp.has_of_image whole hf
  · rw [← t.kept_kept]
    exact hp.has_of_image cut hf

theorem Sound.recalls_snapshot (hp : p.Sound) (h : p.Bears i t) : p.snapshot.Recalls i t.kept := by
  obtain ⟨f, hf, _⟩ := decode_of_reads hp.reads_image
  exact ⟨f, hf, hp.bears_of_image h hf⟩

end HeapPage
end HeapStore
