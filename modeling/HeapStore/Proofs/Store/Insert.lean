import HeapStore.Proofs.Store.Climb
import HeapStore.Proofs.Store.Queue

/-!
The ways in which a call that is to store a row ends. A row that has been stored is in the page that
the search came to last, and nothing that follows in the call does any more than to keep that page
in the cache.
-/

namespace HeapStore

/-- The lowest free slot of an empty page is the first, if there are any. -/
theorem HeapPage.lowest_of_empty {q : PageId} {schema : Schema} {i : Nat}
    (lowest : (HeapPage.empty q schema).slots.findIdx? Option.isNone = some i) :
    i = 0 ∧ 0 < schema.slotsPerPage := by
  simp only [HeapPage.empty, List.findIdx?_replicate] at lowest
  split at lowest
  next some => exact ⟨(Option.some.inj lowest).symm, some.1⟩
  next => cases lowest

namespace Store
variable {s s' s₁ : Store} {f : HeapFile} {tx : TxId} {t : Tuple} {table : TableId} {q : PageId}
  {p p' : HeapPage}

/-- A page takes the place of the one that was cached under its id, and that is all. -/
structure Overlays (q : PageId) (p : HeapPage) (s s' : Store) : Prop where
  catalog : s'.catalog = s.catalog
  disk : s'.disk = s.disk
  locks : s'.pool.locks = s.pool.locks
  cached : ∀ q', s'.cached q' = if q' = q then some p else s.cached q'

theorem overlays_put (here : s.cached q = some p) (id : p'.id = q) :
    Overlays q p' s (put p' s).2 where
  catalog := rfl
  disk := rfl
  locks := rfl
  cached q' := by
    show (s.pool.cache.update p').find? q' = _
    rw [Cache.find?_update, id]
    by_cases same : q' = q
    · subst same
      have found : s.pool.cache.find? q' = some p := here
      simp [found]
    · simp [same, cached]

/-- To make the page the most recently used changes nothing more. -/
theorem Overlays.readmit (h : Overlays q p s s') (plain : s.catalog.Plain) (id : p.id = q)
    (owner : p.dirtiedBy = some tx) (table : TableId) :
    ∃ s₂, (do afterMutate table; readmit tx p : StoreM Unit) s' = (.ok (), s₂) ∧
      Overlays q p s s₂ := by
  subst id
  have here : s'.pool.cache.find? p.id = some p := (h.cached p.id).trans (if_pos rfl)
  have contains : s'.pool.cache.contains p.id := by rw [Cache.contains_eq, here]; rfl
  have plain' : s'.catalog.Plain := h.catalog ▸ plain
  rw [bind_apply, afterMutate_of_plain plain']
  simp only [Store.readmit, HeapPage.mark_eq_self owner, keep_apply,
    Cache.insert_of_contains contains]
  refine ⟨_, rfl, h.catalog, h.disk, h.locks, fun q' => ?_⟩
  show (s'.pool.cache.place p.id p).find? q' = _
  rw [Cache.find?_place]
  split
  · rfl
  · next other => exact (h.cached q').trans (if_neg other)

theorem Overlays.mode? (h : Overlays q p s s') (u : TxId) (q' : PageId) :
    s'.mode? u q' = s.mode? u q' := by
  rw [Store.mode?, h.locks, Store.mode?]

theorem Overlays.onFile (h : Overlays q p s s') (q' : PageId) : s'.onFile q' = s.onFile q' := by
  simp only [Store.onFile, h.catalog, h.disk]

/-- A search that has found room in page `m`, with the page as it was had there and the store then. -/
structure Found (f : HeapFile) (tx : TxId) (t : Tuple) (s : Store) (rs : List PageRequest)
    (m : Nat) (s₀ s₁ : Store) (p : HeapPage) (rid : RecordId) : Prop where
  climbs : Climbs f tx 0 s rs m s₀
  inside : m < f.numPages s₀.disk
  got : fetch tx ⟨f.table, m⟩ .readWrite s₀ = (.ok p, s₁)
  requests : insertRequests f tx t s = rs ++ [⟨tx, ⟨f.table, m⟩, .readWrite, s₀⟩]
  id : p.id = ⟨f.table, m⟩
  page : rid.page = p.id
  lowest : p.slots.findIdx? Option.isNone = some rid.slot

theorem Found.spares {rs : List PageRequest} {m : Nat} {s₀ s₁ : Store} {rid : RecordId}
    (plain : s.catalog.Plain) (h : Found f tx t s rs m s₀ s₁ p rid) :
    Spares f.id (insertRequests f tx t s) s s₁ := by
  rw [h.requests]
  exact h.climbs.spares_fetch plain h.got

theorem Found.here {rs : List PageRequest} {m : Nat} {s₀ s₁ : Store} {rid : RecordId}
    (plain : s.catalog.Plain) (h : Found f tx t s rs m s₀ s₁ p rid) :
    s₁.cached rid.page = some p := by
  rw [h.page, h.id]
  exact (h.climbs.replied plain h.got).here

/-- The page with the row in it. -/
def filled (p : HeapPage) (tx : TxId) (t : Tuple) (rid : RecordId) : HeapPage :=
  { p with slots := p.slots.set rid.slot (some (t.located (some rid))), dirtiedBy := some tx }

/-- The ways in which a row is stored in a file, or not. -/
inductive Files (f : HeapFile) (tx : TxId) (t : Tuple) (s : Store) :
    Except Error (HeapPage × RecordId) → Store → Prop
  | misfit (types : t.schema.types ≠ f.schema.types) :
      Files f tx t s (.error (.schemaMismatch (.tableSchema t.schema f.schema))) s
  | failed {e : Error} {s' : Store} (types : t.schema.types = f.schema.types)
      (seeks : Seeks f tx t 0 s (insertRequests f tx t s) (.error e) s') :
      Files f tx t s (.error e) s'
  | stored {rs : List PageRequest} {m : Nat} {s₀ s₁ s' : Store} {p : HeapPage} {rid : RecordId}
      (found : Found f tx t s rs m s₀ s₁ p rid)
      (overlays : Overlays rid.page (filled p tx t rid) s₁ s') :
      Files f tx t s (.ok (filled p tx t rid, rid)) s'

theorem files_of_insertInto (plain : s.catalog.Plain) (ordered : s.pool.cache.Ordered)
    (f : HeapFile) (tx : TxId) (t : Tuple) :
    Files f tx t s (insertInto f tx t s).1 (insertInto f tx t s).2 := by
  by_cases types : t.schema.types = f.schema.types
  case neg =>
    rw [insertInto_foreign types]
    exact .misfit types
  case pos =>
    have seeks := seeks_of_insertInto types tx s
    generalize requests : insertRequests f tx t s = all at seeks
    generalize insertInto f tx t s = outcome at seeks ⊢
    obtain ⟨e | placed, s'⟩ := outcome
    · exact .failed types (requests ▸ seeks)
    · cases seeks with
      | @placed m s₀ s₁ rs p p' rid climbs inside got fit =>
          have here := (climbs.replied plain got).here
          have id := ((arranging.of_fetch got).2 (climbs.ordered ordered)).keyed _ p here
          obtain ⟨page, lowest, rfl⟩ := HeapPage.slots_of_insert fit
          exact .stored ⟨climbs, inside, got, requests, id, page, lowest⟩
            (overlays_put (page.trans id ▸ here) page.symm)

/-- The ways in which a call that is to store a row in a table ends, with the row as it is left. -/
inductive Inserts (tx : TxId) (table : TableId) (t : Tuple) (s : Store) :
    Except Error Unit × Tuple → Store → Prop
  | unknown {err : Error} (missing : s.catalog.find table = .error err) :
      Inserts tx table t s (.error err, t) s
  | failed {e : Entry} {err : Error} {s' : Store} (entry : s.catalog.find table = .ok e)
      (files : Files e.file tx t s (.error err) s') : Inserts tx table t s (.error err, t) s'
  | stored {e : Entry} {rs : List PageRequest} {m : Nat} {s₀ s₁ s' : Store} {p : HeapPage}
      {rid : RecordId} (entry : s.catalog.find table = .ok e)
      (found : Found e.file tx t s rs m s₀ s₁ p rid)
      (overlays : Overlays rid.page (filled p tx t rid) s₁ s') :
      Inserts tx table t s (.ok (), t.located (some rid)) s'

theorem inserts (plain : s.catalog.Plain) (ordered : s.pool.cache.Ordered) (tx : TxId)
    (table : TableId) (t : Tuple) :
    Inserts tx table t s (insert tx table t s).1 (insert tx table t s).2 := by
  rw [insert_apply, bind_apply, lookup_apply]
  cases entry : s.catalog.find table with
  | error err => exact .unknown entry
  | ok e =>
      have files := files_of_insertInto plain ordered e.file tx t
      simp only
      generalize insertInto e.file tx t s = outcome at files ⊢
      obtain ⟨err | ⟨p', rid⟩, s'⟩ := outcome
      · exact .failed entry files
      · cases files with
        | @stored rs m s₀ s₁ _ p rid found overlays =>
            have plain₁ : s₁.catalog.Plain := (found.spares plain).catalog ▸ plain
            obtain ⟨s₂, again, overlays₂⟩ := overlays.readmit plain₁ found.page.symm rfl table
            simp only [again]
            exact .stored entry found overlays₂

end Store
end HeapStore
