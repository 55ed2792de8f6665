import HeapStore.Cache

/-!
The page cache, seen through the page that it has under each id. To use a page changes none; to
cache a page changes its own id and loses at most one other page, which is clean; to change a page
in place changes only its id. The queue goes along with that: whatever is done to a cache, its queue
has the ids of the cached pages, each once, and there are no more of them than there is room for.
-/

namespace HeapStore.Cache
open Std
variable {c c' : Cache} {p : HeapPage} {f : Frame} {id id' : PageId}

theorem contains_eq (c : Cache) (id : PageId) : c.contains id = (c.find? id).isSome :=
  rfl

theorem contains_iff : c.contains id ↔ id ∈ c.table := by
  rw [contains_eq, find?, Option.isSome_map, ← ExtTreeMap.mem_iff_isSome_getElem?]

theorem find?_of_frame (h : c.table[id]? = some f) : c.find? id = some f.page := by
  rw [find?, h, Option.map_some]

theorem contains_of_frame (h : c.table[id]? = some f) : c.contains id := by
  rw [contains_eq, find?_of_frame h, Option.isSome_some]

@[simp] theorem find?_touch (c : Cache) (id id' : PageId) : (c.touch id).find? id' = c.find? id' :=
  rfl

theorem use_eq (c : Cache) (id : PageId) :
    c.use id = c ∨ c.use id = c.touch id ∧ c.contains id := by
  unfold use
  split
  next h => exact .inr ⟨rfl, h⟩
  next => exact .inl rfl

theorem use_of_some {c : Cache} {id : PageId} {p : HeapPage} (here : c.find? id = some p) :
    c.use id = c.touch id :=
  if_pos (by rw [contains_eq, here]; rfl)

/-- A page that is not cached is not used either, however often it is looked for. -/
theorem use_of_none {c : Cache} {id : PageId} (absent : c.find? id = none) : c.use id = c :=
  if_neg (by rw [contains_eq, absent]; exact Bool.false_ne_true)

@[simp] theorem find?_use (c : Cache) (id id' : PageId) : (c.use id).find? id' = c.find? id' := by
  rcases c.use_eq id with h | ⟨h, _⟩
  · rw [h]
  · rw [h, find?_touch]

theorem find?_drop (c : Cache) (id id' : PageId) :
    (c.drop id).find? id' = if id' = id then none else c.find? id' := by
  simp only [find?, drop, ExtTreeMap.getElem?_erase, Std.compare_eq_iff_eq, eq_comm (a := id)]
  split <;> rfl

theorem find?_remove (c : Cache) (id id' : PageId) :
    (c.remove id).find? id' = if id' = id then none else c.find? id' := by
  unfold remove
  split
  · exact c.find?_drop id id'
  next h =>
    split
    next same => simpa [contains_eq, same] using h
    next => rfl

theorem find?_place (c : Cache) (id id' : PageId) (p : HeapPage) :
    (c.place id p).find? id' = if id' = id then some p else c.find? id' := by
  simp only [place, find?_touch]
  simp only [find?, ExtTreeMap.getElem?_insert, Std.compare_eq_iff_eq, eq_comm (a := id)]
  split <;> rfl

theorem find?_update (c : Cache) (p : HeapPage) (id : PageId) :
    (c.update p).find? id = if id = p.id then (c.find? id).map fun _ => p else c.find? id := by
  simp only [find?, update, ExtTreeMap.getElem?_modify, Std.compare_eq_iff_eq, eq_comm (a := p.id)]
  split
  next h =>
    subst h
    cases c.table[p.id]? <;> rfl
  next => rfl

theorem find?_setLatch (c : Cache) (id id' : PageId) (latched : Bool) :
    (c.setLatch id latched).find? id' = c.find? id' := by
  simp only [find?, setLatch, ExtTreeMap.getElem?_modify]
  split
  next h =>
    rw [Std.compare_eq_iff_eq] at h
    subst h
    cases c.table[id]? <;> rfl
  next => rfl

theorem update_update (c : Cache) (p : HeapPage) : (c.update p).update p = c.update p := by
  simp only [update, Cache.mk.injEq, true_and, and_true]
  apply ExtTreeMap.ext_getElem?
  intro id
  simp only [ExtTreeMap.getElem?_modify, Std.compare_eq_iff_eq]
  split
  next =>
    cases c.table[p.id]? <;> rfl
  next => rfl

theorem ids_update (c : Cache) (p : HeapPage) : (c.update p).ids = c.ids :=
  rfl

/-- What holds of a cache whatever is done to it: the queue has the ids of the cached pages, each
once, every page is cached under its own id, and there are not more pages than there is room for. -/
structure Ordered (c : Cache) : Prop where
  nodup : c.ids.Nodup
  listed : ∀ id, id ∈ c.ids ↔ c.contains id
  keyed : ∀ id p, c.find? id = some p → p.id = id
  bounded : c.size ≤ c.capacity

theorem ordered_of_empty (table : c.table = ∅) (ids : c.ids = []) : c.Ordered where
  nodup := by simp [ids]
  listed id := by simp [ids, contains_eq, find?, table]
  keyed id p h := by simp [find?, table] at h
  bounded := by simp [size, table]

/-- The queue is as long as there are pages. -/
theorem Ordered.length_ids (hc : c.Ordered) : c.ids.length = c.size := by
  have nodup : c.table.keys.Nodup :=
    ExtTreeMap.distinct_keys.imp fun h same => h (Std.compare_eq_iff_eq.mpr same)
  rw [size, ← ExtTreeMap.length_keys]
  apply ((List.perm_ext_iff_of_nodup hc.nodup nodup).mpr _).length_eq
  intro id
  rw [hc.listed, contains_iff, ExtTreeMap.mem_keys]

/-- An id that goes to the end of a queue is there only. -/
theorem nodup_requeue {ids : List PageId} (nodup : ids.Nodup) (id : PageId) :
    (ids.erase id ++ [id]).Nodup := by
  refine List.nodup_append.mpr ⟨nodup.erase id, by simp, ?_⟩
  intro a ha b hb
  rw [List.mem_singleton.mp hb]
  exact (nodup.mem_erase_iff.mp ha).1

theorem requeue_last {before : List PageId} (nodup : (before ++ [id]).Nodup) :
    (before ++ [id]).erase id ++ [id] = before ++ [id] := by
  have earlier : id ∉ before := fun h =>
    (List.nodup_append.mp nodup).2.2 id h id (List.mem_singleton_self id) rfl
  rw [List.erase_append_right _ earlier, List.erase_cons_head, List.append_nil]

theorem Ordered.touch (hc : c.Ordered) (h : c.contains id) : (c.touch id).Ordered where
  nodup := nodup_requeue hc.nodup id
  listed id' := by
    rw [contains_eq, find?_touch, ← contains_eq]
    simp only [Cache.touch, List.mem_append, hc.nodup.mem_erase_iff, List.mem_singleton,
      hc.listed id']
    by_cases same : id' = id <;> simp [same, h]
  keyed := hc.keyed
  bounded := hc.bounded

theorem Ordered.use (hc : c.Ordered) (id : PageId) : (c.use id).Ordered := by
  rcases c.use_eq id with h | ⟨h, here⟩
  · rwa [h]
  · rw [h]
    exact hc.touch here

theorem Ordered.drop (hc : c.Ordered) (id : PageId) : (c.drop id).Ordered where
  nodup := hc.nodup.erase id
  listed id' := by
    rw [contains_eq, find?_drop]
    simp only [Cache.drop, hc.nodup.mem_erase_iff, hc.listed id', contains_eq]
    split <;> simp_all
  keyed id' p h := by
    rw [find?_drop] at h
    split at h
    · cases h
    · exact hc.keyed id' p h
  bounded := Nat.le_trans ExtTreeMap.size_erase_le hc.bounded

theorem Ordered.remove (hc : c.Ordered) (id : PageId) : (c.remove id).Ordered := by
  unfold Cache.remove
  split
  · exact hc.drop id
  · exact hc

/-- A page is cached in place of another of its id, or where there is room for one more. -/
theorem Ordered.place (hc : c.Ordered) (hid : p.id = id)
    (room : c.contains id ∨ c.size < c.capacity) : (c.place id p).Ordered := by
  have nodup : (c.ids.erase id ++ [id]).Nodup := by
    refine List.nodup_append.mpr ⟨hc.nodup.erase id, by simp, ?_⟩
    intro a ha b hb
    rw [List.mem_singleton.mp hb]
    exact (hc.nodup.mem_erase_iff.mp ha).1
  constructor
  case nodup => exact nodup
  case listed =>
    intro id'
    rw [contains_eq, find?_place]
    simp only [Cache.place, Cache.touch, List.mem_append, hc.nodup.mem_erase_iff,
      List.mem_singleton, hc.listed id', contains_eq]
    by_cases same : id' = id <;> simp [same]
  case keyed =>
    intro id' q h
    rw [find?_place] at h
    split at h
    next same =>
      cases h
      rw [same, hid]
    next => exact hc.keyed id' q h
  case bounded =>
    show (c.table.insert id { page := p }).size ≤ c.capacity
    rw [ExtTreeMap.size_insert]
    have bounded : c.table.size ≤ c.capacity := hc.bounded
    split
    · exact bounded
    next absent => exact room.resolve_left (mt contains_iff.mp absent)

theorem Ordered.update (hc : c.Ordered) (p : HeapPage) : (c.update p).Ordered where
  nodup := hc.nodup
  listed id := by
    rw [ids_update, hc.listed, contains_eq, contains_eq, find?_update]
    split <;> simp
  keyed id q h := by
    rw [find?_update] at h
    split at h
    next same =>
      obtain ⟨_, _, rfl⟩ := Option.map_eq_some_iff.mp h
      exact same.symm
    next => exact hc.keyed id q h
  bounded := by
    rw [size, Cache.update, ExtTreeMap.size_modify]
    exact hc.bounded

theorem Ordered.setLatch (hc : c.Ordered) (id : PageId) (latched : Bool) :
    (c.setLatch id latched).Ordered where
  nodup := hc.nodup
  listed id' := by
    rw [contains_eq, find?_setLatch]
    exact hc.listed id'
  keyed id' p h := hc.keyed id' p (by rwa [find?_setLatch] at h)
  bounded := by
    rw [size, Cache.setLatch, ExtTreeMap.size_modify]
    exact hc.bounded

/-- Who has to go is clean, and nobody is writing to it. -/
theorem frame_of_victim? (h : c.victim? = some id) :
    ∃ f, c.table[id]? = some f ∧ f.evictable := by
  have found := List.find?_some h
  rwa [Option.any_eq_true] at found

theorem size_drop (h : c.contains id) : (c.drop id).size + 1 = c.size := by
  have here : id ∈ c.table := contains_iff.mp h
  have some : c.table.size ≠ 0 := by
    rw [ne_eq, ← ExtTreeMap.eq_empty_iff_size_eq_zero]
    rintro empty
    simp [empty] at here
  rw [size, size, drop, ExtTreeMap.size_erase, if_pos (ExtTreeMap.contains_iff_mem.mpr here)]
  omega

/-- Nobody has to go if every page is dirty or being written. -/
theorem victim?_eq_none : c.victim? = none ↔
    ∀ id ∈ c.ids, ∀ f, c.table[id]? = some f → f.evictable = false := by
  simp [victim?, Option.any_eq_false]

/-- The ways in which caching a page ends. -/
inductive Inserted (c : Cache) (id : PageId) (p : HeapPage) :
    Except Error (Option PageId) → Cache → Prop
  | placed (room : c.contains id ∨ c.size < c.capacity) : Inserted c id p (.ok none) (c.place id p)
  | evicting {victim : PageId} (absent : c.contains id = false) (full : c.capacity ≤ c.size)
      (oldest : c.victim? = some victim) :
      Inserted c id p (.ok (some victim)) ((c.drop victim).place id p)
  | refused (absent : c.contains id = false) (full : c.capacity ≤ c.size)
      (stuck : c.victim? = none) : Inserted c id p (.error .evictionImpossible) c

theorem inserted (c : Cache) (id : PageId) (p : HeapPage) :
    Inserted c id p (c.insert id p).1 (c.insert id p).2 := by
  unfold insert evict
  split
  next room => exact .placed room
  next full =>
    rw [not_or, Bool.not_eq_true, Nat.not_lt] at full
    cases h : c.victim? with
    | some victim => exact .evicting full.1 full.2 h
    | none => exact .refused full.1 full.2 h

theorem Ordered.insert (hc : c.Ordered) (hid : p.id = id) : (c.insert id p).2.Ordered := by
  have inserted := c.inserted id p
  generalize c.insert id p = outcome at inserted ⊢
  obtain ⟨r, c'⟩ := outcome
  cases inserted with
  | placed room => exact hc.place hid room
  | @evicting victim _ _ oldest =>
      obtain ⟨f, hf, _⟩ := frame_of_victim? oldest
      have fewer := size_drop (contains_of_frame hf)
      have bounded := hc.bounded
      have room : (c.drop victim).size < (c.drop victim).capacity := by
        show _ < c.capacity
        omega
      exact (hc.drop victim).place hid (.inr room)
  | refused => exact hc

theorem capacity_use (c : Cache) (id : PageId) : (c.use id).capacity = c.capacity := by
  unfold use
  split <;> rfl

theorem capacity_remove (c : Cache) (id : PageId) : (c.remove id).capacity = c.capacity := by
  unfold remove
  split <;> rfl

theorem capacity_insert (c : Cache) (id : PageId) (p : HeapPage) :
    (c.insert id p).2.capacity = c.capacity := by
  have inserted := c.inserted id p
  generalize c.insert id p = outcome at inserted ⊢
  obtain ⟨r, c'⟩ := outcome
  cases inserted <;> rfl

/-- A page that is cached already is replaced without a loss. -/
theorem insert_of_contains (h : c.contains id) (p : HeapPage) :
    c.insert id p = (.ok none, c.place id p) := by
  simp [insert, h]

theorem contains_place (c : Cache) (id id' : PageId) (p : HeapPage) :
    (c.place id p).contains id' = (decide (id' = id) || c.contains id') := by
  rw [contains_eq, find?_place, contains_eq]
  by_cases h : id' = id <;> simp [h]

theorem size_place_of_contains (h : c.contains id) (p : HeapPage) :
    (c.place id p).size = c.size := by
  show (c.table.insert id { page := p }).size = c.table.size
  rw [ExtTreeMap.size_insert, if_pos (ExtTreeMap.contains_iff_mem.mpr (contains_iff.mp h))]

/-- A page that finds no room changes nothing. -/
theorem eq_of_insert_error {e : Error} (h : c.insert id p = (.error e, c')) :
    e = .evictionImpossible ∧ c' = c := by
  have inserted := c.inserted id p
  rw [h] at inserted
  cases inserted
  exact ⟨rfl, rfl⟩

/-- The queue is the same, and so is who is writing to which page. -/
structure Unmoved (c c' : Cache) : Prop where
  ids : c'.ids = c.ids
  latched : ∀ id : PageId, c'.table[id]?.map Frame.latched = c.table[id]?.map Frame.latched

theorem unmoved_update (c : Cache) (p : HeapPage) : c.Unmoved (c.update p) where
  ids := rfl
  latched id := by
    simp only [Cache.update, ExtTreeMap.getElem?_modify, Std.compare_eq_iff_eq]
    split
    next same =>
      subst same
      cases c.table[p.id]? <;> rfl
    next => rfl

/-- Who has to go may be another page only because some page is clean now, or dirty. -/
theorem Unmoved.victim? (h : c.Unmoved c') (clean : ∀ id : PageId,
    (c'.find? id).map HeapPage.isDirty = (c.find? id).map HeapPage.isDirty) :
    c'.victim? = c.victim? := by
  have same (id : PageId) :
      c'.table[id]?.any Frame.evictable = c.table[id]?.any Frame.evictable := by
    have latched := h.latched id
    have clean := clean id
    simp only [find?, Option.map_map] at clean
    cases hf : c.table[id]? with
    | none =>
        rw [hf, Option.map_none, Option.map_eq_none_iff] at latched
        rw [latched]
    | some f =>
        obtain ⟨g, hg, latched⟩ := Option.map_eq_some_iff.mp (latched.trans (by rw [hf]; rfl))
        rw [hf, hg] at clean
        simp only [Option.map_some, Option.some.injEq, Function.comp_apply] at clean
        simp [hg, Frame.evictable, latched, clean]
  rw [Cache.victim?, Cache.victim?, h.ids]
  congr 1
  exact funext same

/-- What holds of the cache between calls: it is in order, and nobody is writing to any page. -/
structure Consistent (c : Cache) : Prop extends Ordered c where
  unlatched : ∀ (id : PageId) (f : Frame), c.table[id]? = some f → f.latched = false

theorem consistent_of_empty (table : c.table = ∅) (ids : c.ids = []) : c.Consistent where
  toOrdered := ordered_of_empty table ids
  unlatched id f h := by simp [table] at h

theorem Consistent.id_of_find? (hc : c.Consistent) (h : c.find? id = some p) : p.id = id :=
  hc.keyed id p h

theorem Consistent.mem_ids_of_find? (hc : c.Consistent) (h : c.find? id = some p) : id ∈ c.ids := by
  rw [hc.listed, contains_eq, h]
  rfl

theorem Consistent.use (hc : c.Consistent) (id : PageId) : (c.use id).Consistent where
  toOrdered := hc.toOrdered.use id
  unlatched := by
    rcases c.use_eq id with h | ⟨h, _⟩ <;> (rw [h]; exact hc.unlatched)

theorem Consistent.drop (hc : c.Consistent) (id : PageId) : (c.drop id).Consistent where
  toOrdered := hc.toOrdered.drop id
  unlatched id' f h := by
    rw [Cache.drop, ExtTreeMap.getElem?_erase] at h
    split at h
    · cases h
    · exact hc.unlatched id' f h

theorem Consistent.remove (hc : c.Consistent) (id : PageId) : (c.remove id).Consistent := by
  unfold Cache.remove
  split
  · exact hc.drop id
  · exact hc

theorem Consistent.place (hc : c.Consistent) (hid : p.id = id)
    (room : c.contains id ∨ c.size < c.capacity) : (c.place id p).Consistent where
  toOrdered := hc.toOrdered.place hid room
  unlatched id f h := by
    simp only [Cache.place, Cache.touch, ExtTreeMap.getElem?_insert] at h
    split at h
    · cases h
      rfl
    · exact hc.unlatched id f h

theorem Consistent.update (hc : c.Consistent) (p : HeapPage) : (c.update p).Consistent where
  toOrdered := hc.toOrdered.update p
  unlatched id f h := by
    simp only [Cache.update, ExtTreeMap.getElem?_modify] at h
    split at h
    next =>
      obtain ⟨g, hg, rfl⟩ := Option.map_eq_some_iff.mp h
      exact hc.unlatched p.id g hg
    next => exact hc.unlatched id f h

/-- Caching a page: it is there afterwards, and of the others at most one clean page is not. -/
structure Admitted (c : Cache) (p : HeapPage) (c' : Cache) : Prop where
  consistent : c'.Consistent
  here : c'.find? p.id = some p
  others : ∀ id, id ≠ p.id → c'.find? id = c.find? id ∨
    c'.find? id = none ∧ ∃ q, c.find? id = some q ∧ q.isDirty = false
  capacity : c'.capacity = c.capacity

theorem admitted_of_insert {evicted : Option PageId} (hc : c.Consistent) (hp : p.id = id)
    (h : c.insert id p = (.ok evicted, c')) : c.Admitted p c' := by
  subst hp
  have ordered := hc.toOrdered.insert (p := p) rfl
  have inserted := c.inserted p.id p
  rw [h] at inserted ordered
  cases inserted with
  | placed room =>
      have after id := c.find?_place p.id id p
      exact ⟨hc.place rfl room, (after p.id).trans (if_pos rfl),
        fun id hid => .inl ((after id).trans (if_neg hid)), rfl⟩
  | @evicting victim _ _ oldest =>
      have after id := (c.drop victim).find?_place p.id id p
      obtain ⟨f, hf, evictable⟩ := frame_of_victim? oldest
      simp only [Frame.evictable, Bool.and_eq_true, Bool.not_eq_true'] at evictable
      refine ⟨⟨ordered, ?_⟩, (after p.id).trans (if_pos rfl), fun id hid => ?_, rfl⟩
      · intro id g hg
        simp only [ExtTreeMap.getElem?_insert] at hg
        split at hg
        · cases hg
          rfl
        · exact (hc.drop victim).unlatched id g hg
      · have kept := (after id).trans (if_neg hid)
        rw [find?_drop] at kept
        split at kept
        next same =>
          subst same
          exact .inr ⟨kept, f.page, find?_of_frame hf, evictable.2⟩
        next => exact .inl kept

/-- Where no page can be dropped from a full cache, one is dirty. -/
theorem dirty_of_stuck (hc : c.Consistent) (full : c.capacity ≤ c.size) (stuck : c.victim? = none) :
    ∃ id q, c.find? id = some q ∧ q.isDirty := by
  have pages : c.ids ≠ [] := by
    intro none
    have := c.capacity_pos
    have := hc.length_ids
    rw [none, List.length_nil] at this
    omega
  obtain ⟨oldest, here⟩ := List.exists_mem_of_ne_nil _ pages
  obtain ⟨q, hq⟩ := Option.isSome_iff_exists.mp ((hc.listed oldest).mp here)
  obtain ⟨f, hf, rfl⟩ := Option.map_eq_some_iff.mp hq
  have := victim?_eq_none.mp stuck oldest here f hf
  refine ⟨oldest, f.page, hq, ?_⟩
  simpa [Frame.evictable, hc.unlatched oldest f hf] using this

end HeapStore.Cache
