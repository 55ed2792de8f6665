import HeapStore.Moment
import HeapStore.Proofs.Store.Opened

/-!
The cache is in order at any time. Its table and its queue are changed one after the other, by
requests, by hooks in the middle of requests, and by calls that fail half way; whatever happens, and
whatever the files have to say, they agree afterwards, and no more pages are cached than there is
room for.
-/

namespace HeapStore

namespace Store
variable {s s' : Store}

/-- A cache that was in order is so afterwards, and has as much room as before. -/
def Arranges (s s' : Store) : Prop :=
  s'.pool.cache.capacity = s.pool.cache.capacity ∧ (s.pool.cache.Ordered → s'.pool.cache.Ordered)

theorem Arranges.of_cache (h : s'.pool.cache = s.pool.cache) : Arranges s s' := by
  simp [Arranges, h]

theorem arranging : Careful Arranges where
  refl _ := .of_cache rfl
  trans h₁ h₂ := ⟨h₂.1.trans h₁.1, fun hs => h₂.2 (h₁.2 hs)⟩
  catalog _ _ := .of_cache rfl
  granted _ := .of_cache rfl
  used s q := ⟨s.pool.cache.capacity_use q, fun hs => hs.use q⟩
  changed _ p := ⟨rfl, fun hs => hs.update p⟩
  kept s _ p hp := ⟨s.pool.cache.capacity_insert _ p, fun hs => hs.insert hp⟩
  dropped s q := ⟨s.pool.cache.capacity_remove q, fun hs => hs.remove q⟩

theorem arranging_writing : Writing Arranges :=
  { arranging with disk := fun _ _ => .of_cache rfl }

theorem Arranges.letGo {s₁ : Store} {held : Bool} {tx : TxId} {q : PageId} (h : Arranges s s₁) :
    Arranges s (letGo held tx q s₁).2 := by
  rw [letGo_apply]
  exact arranging.trans h (.of_cache (by split <;> rfl))

theorem arranges_insertInto (f : HeapFile) (tx : TxId) (t : Tuple) :
    Keeping Arranges (insertInto f tx t) :=
  arranging.insertInto (arranging_writing.append f) Arranges.letGo tx t

theorem Climbs.ordered {f : HeapFile} {tx : TxId} {n m : Nat} {rs : List PageRequest}
    (h : Climbs f tx n s rs m s') (ordered : s.pool.cache.Ordered) : s'.pool.cache.Ordered :=
  (arranging.climbs (arranging_writing.append f) Arranges.letGo h).2 ordered

theorem arranges_complete (tx : TxId) (ending : Ending) :
    Keeping Arranges (complete tx ending) := by
  intro s
  cases ending with
  | commit => exact arranging.trans (arranging_writing.commit tx s) (.of_cache rfl)
  | abort => exact arranging.trans (arranging_writing.rollback tx s) (.of_cache rfl)

end Store

open Store
variable {s : Store}

theorem Call.arranges (c : Call) (s : Store) : Arranges s (c.perform s).2 := by
  have mapped {α : Type} {x : StoreM α} {f : α → Answer} (h : Keeping Arranges x) :
      Arranges s ((f <$> x) s).2 := by
    rw [map_apply]
    exact h s
  cases c with
  | get tx page a => exact mapped (arranging.fetch tx page a)
  | insert tx table t => exact arranging.insert fun e _ => arranges_insertInto e.file tx t
  | delete tx rid => exact mapped (arranging.delete tx rid)
  | flushPage page => exact mapped (arranging_writing.flushPage page)
  | flushAll => exact mapped arranging_writing.flushAll
  | flushTx tx => exact mapped (arranging_writing.flushTx tx)
  | discard page => exact arranging.dropped s page
  | release tx page => exact .of_cache rfl
  | complete tx ending => exact mapped (arranges_complete tx ending)

theorem Act.arranges (a : Act) (s : Store) : Arranges s (a.perform s).2 := by
  cases a with
  | call c => exact c.arranges s
  | insertInto f tx t => exact arranges_insertInto f tx t s
  | deleteFrom f tx rid => exact arranging.deleteFrom f tx rid s
  | scan sc request =>
      exact arranging.request (fun q => arranging.fetch sc.tx q .readOnly) request s

theorem Moment.arranges (m : Moment) (s : Store) : Arranges s (m.perform s).2 := by
  have entered : Arranges s (m.enter s) := .of_cache rfl
  refine arranging.trans entered ?_
  unfold Moment.perform
  cases m.what with
  | act a => exact a.arranges _
  | look page => exact .of_cache rfl
  | edit p => exact arranging.changed _ p
  | latch page latched => exact ⟨rfl, fun hs => hs.setLatch page latched⟩

theorem Store.arranges_course (moments : List Moment) (s : Store) :
    Arranges s (course moments s).2 := by
  induction moments generalizing s with
  | nil => exact .of_cache rfl
  | cons m moments ih => exact arranging.trans (m.arranges s) (ih _)

/-- Whatever has happened to a pool since it was set up, its cache is in order. And whatever a cache
is like, a page that cannot be cached for want of room leaves table and queue as they were, and one
that is cached already is cached again, at no other's cost. -/
theorem Store.cache_in_order {config : Config} (new : Pool.new? config = some s.pool)
    (moments : List Moment) :
    ((course moments s).2.pool.cache.Ordered ∧
      (course moments s).2.pool.cache.capacity = config.capacity) ∧
    ∀ (c : Cache) (id : PageId) (p : HeapPage),
      (∀ e c', c.insert id p = (.error e, c') → e = .evictionImpossible ∧ c' = c) ∧
      (c.contains id → ∃ c', c.insert id p = (.ok none, c') ∧ c'.size = c.size ∧
        (∀ id', c'.contains id' = c.contains id') ∧
        ∀ id', id' ≠ id → c'.find? id' = c.find? id') := by
  constructor
  · obtain ⟨capacity, ordered⟩ := arranges_course moments s
    exact ⟨ordered (Pool.eq_of_new? new).2.1.toOrdered,
      capacity.trans (Pool.eq_of_new? new).2.2.2⟩
  · intro c id p
    refine ⟨fun e c' => Cache.eq_of_insert_error, fun here => ?_⟩
    refine ⟨_, Cache.insert_of_contains here p, Cache.size_place_of_contains here p, ?_, ?_⟩
    · intro id'
      rw [Cache.contains_place]
      by_cases same : id' = id <;> simp [same, here]
    · intro id' other
      rw [Cache.find?_place, if_neg other]

/-- Two pages without rows. -/
def Store.emptyPages : Disk TableId :=
  ({} : Disk TableId).replace sampleEntry.file.id (Bytes.zeros (pageSize + 1))

/-- When a page is read, another is dropped and then read again. -/
def Store.hookedCatalog : Catalog :=
  Catalog.add {} { sampleEntry with
    hook := some { onRead := [.discard samplePage, .fetch ⟨3⟩ samplePage .readOnly] } }

/-- The pages of the sample have to make room for each other. -/
def Store.crowdedMoments : List Moment :=
  let second : PageId := ⟨.file 0, 1⟩
  [⟨.act (.call sampleInsert), Catalog.add {} sampleEntry, emptyPages⟩,
    ⟨.act (.call (.get ⟨2⟩ second .readOnly)), Catalog.add {} sampleEntry, emptyPages⟩,
    ⟨.act (.call (.complete ⟨1⟩ .commit)), Catalog.add {} sampleEntry, emptyPages⟩,
    ⟨.latch samplePage true, {}, {}⟩,
    ⟨.act (.scan { file := sampleEntry.file, tx := ⟨2⟩ } .start), hookedCatalog, emptyPages⟩,
    ⟨.latch samplePage false, {}, {}⟩,
    ⟨.act (.call (.get ⟨2⟩ second .readOnly)), hookedCatalog, emptyPages⟩]

theorem Store.crowded_cache_in_order :
    let c := (course crowdedMoments (sample [] 1 (by decide))).2.pool.cache
    c.ids = [⟨.file 0, 1⟩] ∧ c.Ordered ∧ c.capacity = 1 := by
  refine ⟨by decide +kernel, ?_⟩
  exact (cache_in_order (opened_sample (by decide) (by decide)).pool crowdedMoments).1

end HeapStore
