import HeapStore.Proofs.Store.View

/-!
A store whose pool has just been set up. Nothing is cached and nobody holds a lock, so every page is
had as its file has it.
-/

namespace HeapStore

theorem Pool.eq_of_new? {config : Config} {pool : Pool} (h : Pool.new? config = some pool) :
    pool.locks = {} ∧ pool.cache.Consistent ∧ pool.cache.table = ∅ ∧
      pool.cache.capacity = config.capacity := by
  unfold Pool.new? at h
  split at h
  · cases h
    exact ⟨rfl, Cache.consistent_of_empty rfl rfl, rfl, rfl⟩
  · cases h

namespace Store
open Std
variable {T : Tables} {s s' : Store} {config : Config}

theorem cached_of_new (h : Pool.new? config = some s.pool) (q : PageId) : s.cached q = none := by
  simp [Store.cached, Cache.find?, (Pool.eq_of_new? h).2.2.1]

theorem mode?_of_new (h : Pool.new? config = some s.pool) (tx : TxId) (q : PageId) :
    s.mode? tx q = none := by
  simp [Store.mode?, (Pool.eq_of_new? h).1, LockTable.mode?, LockTable.on]

/-- A new pool over the files of `T`, on a medium that gives back what it has taken. -/
structure Founded (T : Tables) (config : Config) (s : Store) : Prop where
  pool : Pool.new? config = some s.pool
  tables : T.Hold s.catalog
  readable : s.disk.Readable

theorem Founded.intact (h : Founded T config s) : s.Intact T where
  tables := h.tables
  readable := h.readable
  locks := by
    rw [(Pool.eq_of_new? h.pool).1]
    exact LockTable.consistent_default
  cache := (Pool.eq_of_new? h.pool).2.1
  pages q p hp := by
    rw [cached_of_new h.pool] at hp
    cases hp

theorem Founded.owned (h : Founded T config s) : s.Owned := by
  intro q p u hp
  rw [cached_of_new h.pool] at hp
  cases hp

/-- A new pool over plain tables, on a medium that fails nowhere. -/
structure Opened (config : Config) (s : Store) : Prop where
  pool : Pool.new? config = some s.pool
  plain : s.catalog.Plain
  reliable : s.disk.Reliable

theorem Opened.cached (h : Opened config s) (q : PageId) : s.cached q = none :=
  cached_of_new h.pool q

theorem Opened.mode? (h : Opened config s) (tx : TxId) (q : PageId) : s.mode? tx q = none :=
  mode?_of_new h.pool tx q

theorem Opened.founded (h : Opened config s) : Founded (.ofCatalog s.catalog) config s :=
  ⟨h.pool, Tables.hold_ofCatalog h.plain, h.reliable.read⟩

theorem Opened.draft (h : Opened config s) (q : PageId) : s.draft q = none := by
  simp [Store.draft, h.cached]

theorem Opened.sound (h : Opened config s) : s.Sound := by
  apply h.founded.intact.sound h.reliable _ h.founded.owned
  intro q p hp
  rw [h.cached] at hp
  cases hp

theorem Opened.settled (h : Opened config s) : s.Settled := by
  intro q p hp
  rw [h.cached] at hp
  cases hp

/-- A transaction that no other is in the way of gets its lock. -/
theorem acquire?_ne_none {tx : TxId} {q : PageId} {m : LockMode}
    (h : ∀ u, u ≠ tx → s.mode? u q = none) : s.pool.locks.acquire? tx q m ≠ none := by
  intro refused
  rw [LockTable.acquire?_eq_none] at refused
  apply refused
  have holder {u : TxId} (hu : (s.mode? u q).isSome) : u = tx := by
    apply Classical.byContradiction
    intro hne
    rw [h u hne] at hu
    cases hu
  have writer : ((s.pool.locks.on q).exclusive.all fun u => u == tx) = true := by
    cases hx : (s.pool.locks.on q).exclusive with
    | none => rfl
    | some u =>
        have : u = tx := holder (PageLocks.isSome_mode?.mpr (.inl hx))
        simp [this]
  have readers : ((s.pool.locks.on q).shared.toList.all fun u => u == tx) = true := by
    rw [List.all_eq_true]
    intro u hu
    have : u = tx := holder (PageLocks.isSome_mode?.mpr (.inr (ExtTreeSet.mem_toList.mp hu)))
    simp [this]
  cases m with
  | shared => exact writer
  | exclusive =>
      simp only [PageLocks.grants, Bool.and_eq_true]
      exact ⟨writer, readers⟩

/-- With nothing dirty and no other transaction in the way, a page that is not cached is had as the
file has it, or not at all for the reason that the file gives. -/
theorem fetch_of_free {tx : TxId} {q : PageId} (hs : s.Sound) (absent : s.cached q = none)
    (clean : ∀ q, s.draft q = none) (free : ∀ u, u ≠ tx → s.mode? u q = none) (a : Access) :
    (fetch tx q a s).1 = s.onFile q := by
  have hf := fetched hs.intact tx q a
  generalize fetch tx q a s = outcome at hf ⊢
  obtain ⟨r, s'⟩ := outcome
  cases hf with
  | refused h => exact absurd h (acquire?_ne_none free)
  | hit _ here _ =>
      rw [absent] at here
      cases here
  | unread _ _ unreadable _ => exact unreadable.symm
  | crowded _ _ dirty _ =>
      obtain ⟨q', p, hp, hd⟩ := dirty
      have := draft_eq_none.mp (clean q') p hp
      simp [HeapPage.isDirty, this] at hd
  | miss _ _ read _ _ => exact read.symm

theorem Opened.fetch (h : Opened config s) (tx : TxId) (q : PageId) (a : Access) :
    (fetch tx q a s).1 = s.onFile q :=
  fetch_of_free h.sound (h.cached q) h.draft (fun u _ => h.mode? u q) a

/-- A table of one column. -/
def sampleEntry : Entry where
  name := "names"
  file := ⟨.file 0, 0, ⟨[⟨.string, none⟩], by decide⟩⟩

/-- The first page of that table. -/
def samplePage : PageId :=
  ⟨.file 0, 0⟩

def sampleConfig (capacity : Nat) : Config where
  capacity
  lockTimeout := some 1000

/-- A store with that table, which has `bs` in its file, and a pool for `capacity` pages. -/
def sample (bs : List UInt8) (capacity : Nat) (h : 0 < capacity) : Store where
  disk := ({} : Disk TableId).replace sampleEntry.file.id bs
  catalog := Catalog.add {} sampleEntry
  pool := ⟨sampleConfig capacity, {}, { capacity, capacity_pos := h }⟩

/-- A row for that table. -/
def sampleRow (name : String) : Tuple where
  schema := ⟨[⟨.string, none⟩], by decide⟩
  values := [some (.string name)]
  fits := ⟨fun _ h => by cases h; rfl, trivial⟩

def sampleInsert : Call :=
  .insert ⟨1⟩ (.file 0) (sampleRow "a")

theorem find_sample {bs : List UInt8} {capacity : Nat} (h : 0 < capacity) :
    (sample bs capacity h).catalog.find (.file 0) = .ok sampleEntry := by
  have entry : (sample bs capacity h).catalog.tables[TableId.file 0]? = some sampleEntry :=
    ExtTreeMap.getElem?_insert_self
  simp only [Catalog.find, entry]

theorem opened_sample {bs : List UInt8} {capacity : Nat} (h : 0 < capacity)
    (hm : capacity ≤ Config.maxCapacity) :
    Opened (sampleConfig capacity) (sample bs capacity h) where
  pool := by
    unfold Pool.new?
    rw [dif_pos ⟨h, hm⟩]
    rfl
  plain := Catalog.plain_default.add rfl
  reliable := ⟨fun _ _ => rfl, fun _ _ => rfl⟩

theorem exists_of_isOk {α : Type} {r : Except Error α} (h : r.isOk) : ∃ a, r = .ok a := by
  cases r with
  | ok a => exact ⟨a, rfl⟩
  | error e => cases h

/-- Setting up a pool in place of another opens the store anew. -/
theorem opened_of_replacePool? (hs : s.Sound) (h : s.replacePool? config = some s') :
    Opened config s' ∧ ∀ q, s'.onFile q = s.onFile q := by
  obtain ⟨pool, hpool, rfl⟩ := Option.map_eq_some_iff.mp h
  exact ⟨⟨hpool, hs.plain, hs.reliable⟩, fun _ => rfl⟩

end Store
end HeapStore
