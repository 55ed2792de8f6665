import HeapStore.Proofs.Cache
import HeapStore.Proofs.HeapFile
import HeapStore.Proofs.Lock.Table
import HeapStore.Proofs.Page.Edit
import HeapStore.Store.Complete
import HeapStore.Store.Rows

/-!
The store, seen page by page: the page that is cached and the page that the file has. Tables may be
missing from the catalog for a while and files may refuse writes; a store is intact all the same if
every cached page has its place in a file. It is sound if no table is missing either, the medium is
reliable, and whoever has changed a page has it locked.
-/

namespace HeapStore
open Std

/-- Every table goes by its own id and has no hook. -/
def Catalog.Plain (c : Catalog) : Prop :=
  ∀ (id : TableId) (e : Entry), c.tables[id]? = some e → e.file.table = id ∧ e.hook = none

theorem Catalog.plain_default : Catalog.Plain {} := by
  intro id e h
  simp at h

/-- What is registered after a table has been added was so before, but for that table. -/
theorem Catalog.entry_of_add {c : Catalog} {e e' : Entry} {id : TableId}
    (h : (c.add e).tables[id]? = some e') :
    e.file.table = id ∧ e' = e ∨ c.tables[id]? = some e' := by
  simp only [Catalog.add, ExtTreeMap.getElem?_insert, Std.compare_eq_iff_eq] at h
  split at h
  next same => exact .inl ⟨same, (Option.some.inj h).symm⟩
  next =>
    right
    unfold Catalog.dropNamesake at h
    split at h
    · split at h
      · exact h
      · rw [ExtTreeMap.getElem?_erase] at h
        split at h
        · cases h
        · exact h
    · exact h

theorem Catalog.Plain.add {c : Catalog} {e : Entry} (h : c.Plain) (he : e.hook = none) :
    (c.add e).Plain := by
  intro id e' hid
  rcases Catalog.entry_of_add hid with ⟨table, rfl⟩ | old
  · exact ⟨table, he⟩
  · exact h id e' old

theorem Catalog.find_ok {c : Catalog} {id : TableId} {e : Entry} (h : c.find id = .ok e) :
    c.tables[id]? = some e := by
  unfold Catalog.find at h
  split at h
  next he =>
    cases h
    exact he
  next => cases h

/-- The table has no hook, if it is registered. -/
def Catalog.Unhooked (c : Catalog) (id : TableId) : Prop :=
  ∀ e, c.find id = .ok e → e.hook = none

theorem Catalog.Plain.unhooked {c : Catalog} (h : c.Plain) (id : TableId) : c.Unhooked id :=
  fun e he => (h id e (find_ok he)).2

/-- The files of all tables, also of those that are not registered at the moment. -/
structure Tables where
  file : TableId → HeapFile
  table_file : ∀ id, (file id).table = id

namespace Tables

/-- Whatever table a catalog has, it has it with its file and without a hook. -/
def Hold (T : Tables) (c : Catalog) : Prop :=
  ∀ (id : TableId) (e : Entry), c.tables[id]? = some e → e.file = T.file id ∧ e.hook = none

theorem Hold.plain {T : Tables} {c : Catalog} (h : T.Hold c) : c.Plain := by
  intro id e he
  obtain ⟨file, hook⟩ := h id e he
  exact ⟨by rw [file, T.table_file], hook⟩

theorem Hold.file {T : Tables} {c : Catalog} {id : TableId} {e : Entry} (h : T.Hold c)
    (he : c.find id = .ok e) : e.file = T.file id :=
  (h id e (Catalog.find_ok he)).1

/-- The files that a catalog has, and some file for every other table. -/
def ofCatalog (c : Catalog) : Tables where
  file id :=
    match c.tables[id]? with
    | some e => { e.file with table := id }
    | none => ⟨id, 0, ⟨[⟨.int, none⟩], by decide⟩⟩
  table_file id := by split <;> rfl

theorem hold_ofCatalog {c : Catalog} (h : c.Plain) : (ofCatalog c).Hold c := by
  intro id e he
  obtain ⟨table, hook⟩ := h id e he
  refine ⟨?_, hook⟩
  simp only [ofCatalog, he]
  rw [← table]

/-- The page that a file has in the place of `q`. -/
def page (T : Tables) (s : Store) (q : PageId) : Except Error HeapPage :=
  (T.file q.table).readPage s.disk q

end Tables

namespace Store
variable {α β : Type} {s s' : Store} {T : Tables}

theorem bind_apply (x : StoreM α) (f : α → StoreM β) (s : Store) :
    (x >>= f) s = match x s with
      | (.ok a, s') => f a s'
      | (.error e, s') => (.error e, s') := by
  show (ExceptT.bindCont f (x s).1) (x s).2 = _
  rcases x s with ⟨r, s'⟩
  cases r <;> rfl

/-- What ends well has gone well from the start. -/
theorem bind_eq_ok {x : StoreM α} {f : α → StoreM β} {b : β} :
    (x >>= f) s = (.ok b, s') ↔ ∃ a s₁, x s = (.ok a, s₁) ∧ f a s₁ = (.ok b, s') := by
  rw [bind_apply]
  rcases x s with ⟨_ | a, s₁⟩
  · exact ⟨nofun, nofun⟩
  · exact ⟨fun h => ⟨a, s₁, rfl, h⟩, fun ⟨_, _, first, rest⟩ => by cases first; exact rest⟩

theorem bind_run (x : StateM Store α) (f : α → StateM Store β) (s : Store) :
    (x >>= f) s = f (x s).1 (x s).2 :=
  rfl

theorem map_apply (g : α → β) (x : StoreM α) (s : Store) :
    (g <$> x) s = ((x s).1.map g, (x s).2) := by
  rw [map_eq_pure_bind, bind_apply]
  generalize x s = outcome
  rcases outcome with ⟨_ | _, _⟩ <;> rfl

@[simp] theorem pure_apply (a : α) (s : Store) : (pure a : StoreM α) s = (.ok a, s) :=
  rfl

@[simp] theorem get_apply (s : Store) : (get : StoreM Store) s = (.ok s, s) :=
  rfl

@[simp] theorem ofExcept_apply (r : Except Error α) (s : Store) : ofExcept r s = (r, s) :=
  rfl

theorem acquire_apply (tx : TxId) (page : PageId) (mode : LockMode) (s : Store) :
    acquire tx page mode s = match s.pool.locks.acquire? tx page mode with
      | some locks => (.ok (), { s with pool.locks := locks })
      | none => (.error (.lockTimeout tx page), s) := by
  simp only [acquire, bind_apply, get_apply]
  cases s.pool.locks.acquire? tx page mode <;> rfl

theorem cached?_apply (page : PageId) (s : Store) :
    cached? page s =
      (.ok (s.pool.cache.find? page), { s with pool.cache := s.pool.cache.use page }) :=
  rfl

theorem keep_apply (q : PageId) (p : HeapPage) (s : Store) :
    keep q p s = ((s.pool.cache.insert q p).1.map fun _ => (),
      { s with pool.cache := (s.pool.cache.insert q p).2 }) :=
  rfl

theorem lookup_apply (table : TableId) (s : Store) :
    lookup table s = (s.catalog.find table, s) :=
  rfl

theorem put_apply (p : HeapPage) (s : Store) :
    put p s = (.ok (), { s with pool.cache := s.pool.cache.update p }) :=
  rfl

theorem append_apply (f : HeapFile) (s : Store) :
    append f s = match f.appendPage s.disk with
      | .ok disk => (.ok (), { s with disk })
      | .error e => (.error e, s) := by
  simp only [append, bind_apply, get_apply, ofExcept_apply]
  cases f.appendPage s.disk <;> rfl

theorem append_ok {s s' : Store} {f : HeapFile} (h : append f s = (.ok (), s')) :
    s' = { s with disk := s'.disk } ∧ f.appendPage s.disk = .ok s'.disk := by
  rw [append_apply] at h
  cases appended : f.appendPage s.disk with
  | error e =>
      rw [appended] at h
      cases h
  | ok disk =>
      rw [appended] at h
      cases h
      exact ⟨rfl, rfl⟩

theorem append_error {s s' : Store} {f : HeapFile} {e : Error} (h : append f s = (.error e, s')) :
    s' = s ∧ ∃ cause, e = .io cause := by
  rw [append_apply] at h
  cases appended : f.appendPage s.disk with
  | ok disk =>
      rw [appended] at h
      cases h
  | error err =>
      rw [appended] at h
      cases h
      exact ⟨rfl, HeapFile.appendPage_error appended⟩

theorem writeDirect_apply (f : HeapFile) (p : HeapPage) (s : Store) :
    writeDirect f p s = match f.writePage s.disk p with
      | .ok (p, disk) => (.ok p, { s with disk })
      | .error e => (.error e, s) := by
  simp only [writeDirect, bind_apply, get_apply, ofExcept_apply]
  cases f.writePage s.disk p <;> rfl

/-- The page that is cached under `q`. -/
def cached (s : Store) (q : PageId) : Option HeapPage :=
  s.pool.cache.find? q

/-- The page that the file of its table has in the place of `q`. -/
def onFile (s : Store) (q : PageId) : Except Error HeapPage := do
  (← s.catalog.find q.table).file.readPage s.disk q

/-- The lock that `tx` has on `q`. -/
def mode? (s : Store) (tx : TxId) (q : PageId) : Option LockMode :=
  s.pool.locks.mode? tx q

/-- What holds of a page that is cached under `q`, whoever has changed it. -/
structure Kept (T : Tables) (s : Store) (q : PageId) (p : HeapPage) : Prop where
  sound : p.Sound
  schema : p.schema = (T.file q.table).schema
  file : ∃ f, T.page s q = .ok f
  reverts : ∃ c, p.Reverts c

/-- What holds of a store at every moment, also when writes have failed. -/
structure Intact (T : Tables) (s : Store) : Prop where
  tables : T.Hold s.catalog
  readable : s.disk.Readable
  locks : s.pool.locks.Consistent
  cache : s.pool.cache.Consistent
  pages : ∀ q p, s.cached q = some p → Kept T s q p

/-- Whoever has changed a page that has not been written since has it locked. -/
def Owned (s : Store) : Prop :=
  ∀ q p u, s.cached q = some p → p.dirtiedBy = some u → s.mode? u q = some .exclusive

/-- What is sound about a page that is cached under `q`. -/
structure Backed (s : Store) (q : PageId) (p : HeapPage) : Prop where
  sound : p.Sound
  file : ∃ f, s.onFile q = .ok f ∧ f.schema = p.schema
  reverts : ∃ c, p.Reverts c
  locked : ∀ tx, p.dirtiedBy = some tx → s.mode? tx q = some .exclusive

/-- What holds of a store at every moment as long as no write fails. -/
structure Sound (s : Store) : Prop where
  plain : s.catalog.Plain
  reliable : s.disk.Reliable
  locks : s.pool.locks.Consistent
  cache : s.pool.cache.Consistent
  pages : ∀ q p, s.cached q = some p → s.Backed q p

theorem id_of_cached {q : PageId} {p : HeapPage} (hc : s.pool.cache.Consistent)
    (h : s.cached q = some p) : p.id = q :=
  hc.id_of_find? h

theorem onFile_eq_page {q : PageId} {e : Entry} (ht : T.Hold s.catalog)
    (he : s.catalog.find q.table = .ok e) : s.onFile q = T.page s q := by
  simp only [onFile, he, bind, Except.bind, Tables.page, ht.file he]

theorem find_of_onFile {q : PageId} {p : HeapPage} (h : s.onFile q = .ok p) :
    ∃ e, s.catalog.find q.table = .ok e := by
  unfold onFile at h
  cases he : s.catalog.find q.table with
  | ok e => exact ⟨e, rfl⟩
  | error err =>
      rw [he] at h
      cases h

/-- A table that is registered has its page in its file. -/
theorem page_of_onFile {q : PageId} {p : HeapPage} (ht : T.Hold s.catalog)
    (h : s.onFile q = .ok p) : T.page s q = .ok p := by
  obtain ⟨e, he⟩ := find_of_onFile h
  rw [← onFile_eq_page ht he, h]

theorem unread_of_onFile {q : PageId} {e : Error} (h : s.onFile q = .error e) : Unread q e := by
  unfold onFile at h
  cases found : s.catalog.find q.table with
  | ok entry =>
      rw [found] at h
      exact HeapFile.unread h
  | error missing =>
      rw [found] at h
      cases h
      unfold Catalog.find at found
      split at found
      · cases found
      · cases found
        exact .missing

/-- There is no page exactly where the file says so. -/
theorem onFile_eq_missing {t : TableId} {e : Entry} (hc : s.catalog.Plain)
    (hd : s.disk.Readable) (he : s.catalog.find t = .ok e) (n : Nat) :
    s.onFile ⟨t, n⟩ = .error (PageId.missing ⟨t, n⟩) ↔ e.file.numPages s.disk ≤ n := by
  have table := (hc _ _ (Catalog.find_ok he)).1
  simp only [onFile, he, bind, Except.bind]
  rw [HeapFile.readPage_eq hd]
  by_cases hn : n < e.file.numPages s.disk
  · rw [if_pos ⟨table.symm, hn⟩]
    constructor
    · intro out
      obtain ⟨cause, h⟩ := HeapPage.decode_error out
      unfold PageId.missing at h
      split at h <;> cases h
    · omega
  · rw [if_neg (fun h => hn h.2)]
    simpa using hn

structure AsRead (q : PageId) (p : HeapPage) : Prop where
  sound : p.Sound
  id : p.id = q
  clean : p.dirtiedBy = none
  reverts : p.Reverts p.content

theorem decode_of_readPage {f : HeapFile} {d : Disk TableId} {q : PageId} {p : HeapPage}
    (hd : d.Readable) (h : f.readPage d q = .ok p) :
    q.number < f.numPages d ∧ HeapPage.decode q f.schema (f.blockAt d q.number) = .ok p := by
  rw [HeapFile.readPage_eq hd] at h
  split at h
  next hq => exact ⟨hq.2, h⟩
  next => cases h

/-- A page as a file has it is sound and clean, and goes back to what it is. -/
theorem asRead_of_readPage {f : HeapFile} {d : Disk TableId} {q : PageId} {p : HeapPage}
    (h : f.readPage d q = .ok p) : AsRead q p ∧ p.schema = f.schema := by
  obtain ⟨data, decode⟩ := HeapFile.decode_of_readPage_ok h
  obtain ⟨hp, hid, schema, hclean, _⟩ := HeapPage.decode_ok decode
  exact ⟨⟨hp, hid, hclean, HeapPage.reverts_of_decode decode⟩, schema⟩

theorem asRead_of_onFile {q : PageId} {p : HeapPage} (h : s.onFile q = .ok p) : AsRead q p := by
  obtain ⟨e, he⟩ := find_of_onFile h
  simp only [onFile, he, bind, Except.bind] at h
  exact (asRead_of_readPage h).1

/-- A page that is as its file has it is as a cached page is to be. -/
theorem kept_of_page {q : PageId} {p : HeapPage} (h : T.page s q = .ok p) : Kept T s q p := by
  obtain ⟨read, schema⟩ := asRead_of_readPage h
  exact ⟨read.sound, schema, ⟨p, h⟩, _, read.reverts⟩

/-- If no table is missing and nobody has changed a page without a lock, an intact store on a
reliable medium is sound. -/
theorem Intact.sound (hs : s.Intact T) (hd : s.disk.Reliable)
    (registered : ∀ q p, s.cached q = some p → ∃ e, s.catalog.find q.table = .ok e)
    (owned : s.Owned) : s.Sound where
  plain := hs.tables.plain
  reliable := hd
  locks := hs.locks
  cache := hs.cache
  pages q p hp := by
    obtain ⟨e, he⟩ := registered q p hp
    have kept := hs.pages q p hp
    obtain ⟨f, hf⟩ := kept.file
    have schema := (asRead_of_readPage hf).2
    exact ⟨kept.sound, ⟨f, (onFile_eq_page hs.tables he).trans hf, schema.trans kept.schema.symm⟩,
      kept.reverts, fun u => owned q p u hp⟩

theorem Sound.intact (hs : s.Sound) : s.Intact (.ofCatalog s.catalog) where
  tables := Tables.hold_ofCatalog hs.plain
  readable := hs.reliable.read
  locks := hs.locks
  cache := hs.cache
  pages q p hp := by
    have backed := hs.pages q p hp
    obtain ⟨f, hf, schema⟩ := backed.file
    have page := page_of_onFile (Tables.hold_ofCatalog hs.plain) hf
    refine ⟨backed.sound, ?_, ⟨f, page⟩, backed.reverts⟩
    rw [← schema]
    exact (asRead_of_readPage page).2

theorem Sound.owned (hs : s.Sound) : s.Owned :=
  fun q p u hp => (hs.pages q p hp).locked u

theorem addressable_of_onFile {q : PageId} {p : HeapPage} (h : s.onFile q = .ok p) :
    q.Addressable := by
  obtain ⟨e, he⟩ := find_of_onFile h
  simp only [onFile, he, bind, Except.bind] at h
  exact HeapFile.addressable_of_inside (HeapFile.inside_of_readPage_ok h).2

/-- Every page that is cached is addressable. -/
theorem Sound.addressable (hs : s.Sound) {q : PageId} {p : HeapPage} (hp : s.cached q = some p) :
    q.Addressable := by
  obtain ⟨f, hf, _⟩ := (hs.pages q p hp).file
  exact addressable_of_onFile hf

theorem Sound.registered (hs : s.Sound) {q : PageId} {p : HeapPage} (hp : s.cached q = some p) :
    ∃ e, s.catalog.find q.table = .ok e := by
  obtain ⟨f, hf, _⟩ := (hs.pages q p hp).file
  exact find_of_onFile hf

end Store
end HeapStore
