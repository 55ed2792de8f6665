import HeapStore.Proofs.Store.Rounds

/-!
Flushing moves bytes and does nothing else: a page that is written is clean, and is what it was in
all other respects, and the bytes in its file are what it is read back from. Where a write fails it
is over with; the pages before have been flushed, and that page and those behind it are as they
were.
-/

namespace HeapStore
open Std
namespace Store
variable {s s' : Store} {tx : TxId} {q : PageId} {p : HeapPage} {due : HeapPage → Prop}
  {done pages : List PageId}

/-- The file of the table of `q` gives the bytes of `p` back, through any handle of the same
columns. -/
def ReadsBack (s : Store) (q : PageId) (p : HeapPage) : Prop :=
  s.disk.Readable → ∃ e, s.catalog.find q.table = .ok e ∧
    ∀ f : HeapFile, f.id = e.file.id → f.schema.types = p.schema.types →
      ∃ r, f.readPage s.disk q = .ok r ∧ r.image = p.image

theorem OnDisk.readsBack (on : OnDisk s q p.image) (keyed : s.catalog.Keyed) (made : p.Made q) :
    ReadsBack s q p := by
  intro readable
  obtain ⟨e, found, inside, there⟩ := on
  refine ⟨e, found, fun f same types => ?_⟩
  obtain ⟨r, decoded, image, _⟩ := made.sound.reload types
  have table : q.table = f.table := by
    rw [← keyed _ _ (Catalog.find_ok found)]
    exact congrArg FileId.name same.symm
  have numPages : f.numPages s.disk = e.file.numPages s.disk := by
    rw [HeapFile.numPages, HeapFile.numPages, same]
  have block : f.blockAt s.disk q.number = p.image := by
    rw [← there, HeapFile.blockAt, HeapFile.blockAt, same]
  refine ⟨r, ?_, image⟩
  rw [HeapFile.readPage_eq readable, if_pos ⟨table, numPages ▸ inside⟩, block]
  exact made.id ▸ decoded

/-- What has come of a flush that has seen to the pages `done`, and to no more. -/
structure FlushedUpTo (due : HeapPage → Prop) (done : List PageId) (s s' : Store) : Prop where
  frame : s' = { s with disk := s'.disk, pool.cache := s'.pool.cache }
  ids : s'.pool.cache.ids = s.pool.cache.ids
  content : ∀ q, (s'.cached q).map (·.mark none) = (s.cached q).map (·.mark none)
  seen : ∀ q ∈ done, ∀ p, s'.cached q = some p → ¬ due p
  written : ∀ q ∈ done, ∀ p, s.cached q = some p → due p →
    s'.cached q = some (p.mark none) ∧ OnDisk s' q p.image ∧ ReadsBack s' q p
  spared : ∀ q p, s.cached q = some p → ¬ due p → s'.cached q = some p
  left : ∀ q, q ∉ done → s'.cached q = s.cached q
  files : s.disk.Patched (fun q => q ∈ done ∧ ∃ p, s.cached q = some p ∧ due p) s'.disk

/-- A flush comes as far as the first page that is due and cannot be written. -/
def Flushes (due : HeapPage → Prop) (pages : List PageId) (s : Store)
    (r : Except Error Unit × Store) : Prop :=
  ∃ done halt, Outcome s pages done halt r.1 ∧
    (∀ q, halt = some q → ∃ p, s.cached q = some p ∧ due p) ∧ FlushedUpTo due done s r.2

theorem Round.flushedUpTo [DecidablePred due] (hs : s.Coherent) (dirty : ∀ p, due p → p.isDirty)
    (h : Round due (·.flushed due) done s s') : FlushedUpTo due done s s' := by
  have flushed {q : PageId} {p : HeapPage} (hq : q ∈ done) (hp : s.cached q = some p) :
      s'.cached q = some (p.flushed due) := by
    rw [h.seen q hq, hp, Option.map_some]
  constructor
  case frame => exact h.frame
  case ids => exact h.unmoved.ids
  case content =>
    intro q
    by_cases hq : q ∈ done
    · rw [h.seen q hq, Option.map_map]
      exact Option.map_congr fun p _ => p.mark_flushed
    · rw [h.cached q hq]
  case seen =>
    intro q hq p' hp' ready
    rw [h.seen q hq] at hp'
    obtain ⟨p, _, rfl⟩ := Option.map_eq_some_iff.mp hp'
    by_cases was : due p
    · rw [HeapPage.flushed_of_due was] at ready
      exact absurd (dirty _ ready) Bool.false_ne_true
    · rw [HeapPage.flushed_of_not_due was] at ready
      exact was ready
  case written =>
    intro q hq p hp ready
    have there := h.written q hq p hp ready
    refine ⟨?_, there, there.readsBack (h.catalog ▸ hs.catalog) (hs.pages q p hp)⟩
    rw [flushed hq hp, HeapPage.flushed_of_due ready]
  case spared =>
    intro q p hp ready
    by_cases hq : q ∈ done
    · rw [flushed hq hp, HeapPage.flushed_of_not_due ready]
    · rw [h.cached q hq, hp]
  case left => exact h.cached
  case files => exact h.disk

theorem Rounds.flushes [DecidablePred due] {r : Except Error Unit × Store} (hs : s.Coherent)
    (dirty : ∀ p, due p → p.isDirty) (h : Rounds due (·.flushed due) pages s r) :
    Flushes due pages s r := by
  obtain ⟨done, halt, outcome, stuck, round⟩ := h
  exact ⟨done, halt, outcome, stuck, round.flushedUpTo hs dirty⟩

theorem flushes_pages (hs : s.Coherent) (plain : s.catalog.Plain) (nodup : pages.Nodup) :
    Flushes (fun p => p.isDirty) pages s (pages.forM flushPage s) := by
  have dirty (p : HeapPage) (h : p.isDirty) : p.isDirty := h
  have writing : (fun p : HeapPage => if p.isDirty then writeBack p else pure ()) = writeBack := by
    funext p
    unfold writeBack
    split <;> rfl
  have rounds := Attends.rounds (attends_flush dirty) hs plain nodup
  rw [writing] at rounds
  exact rounds.flushes hs dirty

theorem flushes_page (hs : s.Coherent) (plain : s.catalog.Plain) (q : PageId) :
    Flushes (fun p => p.isDirty) [q] s (flushPage q s) := by
  have one : [q].forM flushPage = flushPage q := by simp
  rw [← one]
  exact flushes_pages hs plain (by simp)

theorem flushes_tx (hs : s.Coherent) (plain : s.catalog.Plain) (tx : TxId) :
    Flushes (·.dirtiedBy = some tx) ((s.pool.locks.pagesOf tx).filter fun q =>
      (s.cached q).any (·.dirtiedBy = some tx)) s (flushTx tx s) := by
  have dirty (p : HeapPage) (own : p.dirtiedBy = some tx) : p.isDirty := isDirty_of_owner own
  have rounds := Attends.rounds (attends_flush dirty) hs plain
    (LockTable.nodup_pagesOf s.pool.locks tx)
  refine (rounds.filter _ fun q other p hp => ?_).flushes hs dirty
  rw [hp] at other
  have foreign : p.dirtiedBy ≠ some tx := by simpa using other
  exact ⟨HeapPage.flushed_of_not_due foreign, foreign⟩

/-- There is nothing to flush where all pages are clean. -/
theorem flushAll_of_clean (clean : ∀ q p, s.cached q = some p → p.isDirty = false) :
    flushAll s = (.ok (), s) := by
  have nothing (pages : List PageId) : pages.forM flushPage s = (.ok (), s) := by
    induction pages with
    | nil => rfl
    | cons q pages ih =>
        show (flushPage q >>= fun _ => pages.forM flushPage) s = _
        rw [bind_apply, flushPage, withCached_apply]
        cases hp : s.cached q with
        | none => exact ih
        | some p =>
            simp only [writeBack, clean q p hp]
            exact ih
  exact nothing s.pool.cache.ids

/-- All pages are clean once all have been flushed. -/
theorem Flushes.clean (hs : s.Coherent)
    (h : Flushes (fun p => p.isDirty) s.pool.cache.ids s (.ok (), s')) (hp : s'.cached q = some p) :
    p.isDirty = false := by
  obtain ⟨done, halt, outcome, _, flushed⟩ := h
  obtain rfl : done = s.pool.cache.ids := by
    cases outcome
    rfl
  by_cases listed : q ∈ s.pool.cache.ids
  · exact Bool.eq_false_of_not_eq_true (flushed.seen q listed p hp)
  · rw [flushed.left q listed] at hp
    have here : s.pool.cache.contains q := by
      rw [Cache.contains_eq, show s.pool.cache.find? q = some p from hp]
      rfl
    exact absurd ((hs.cache.listed q).mpr here) listed

/-- Flushing all pages in the order of the queue, one page, or the pages that a transaction has
locked and dirtied in their order, writes those that are dirty, up to the first that cannot be
written, and marks them clean. Everything else stays. Once all pages have been flushed there is
nothing to flush. -/
theorem flush_moves_bytes (arises : Arises s) (plain : s.catalog.Plain) :
    (s.pool.cache.ids.Nodup ∧ (∀ q, q ∈ s.pool.cache.ids ↔ (s.cached q).isSome) ∧
      Flushes (fun p => p.isDirty) s.pool.cache.ids s (flushAll s) ∧
      ((flushAll s).1 = .ok () →
        (∀ q p, (flushAll s).2.cached q = some p → p.isDirty = false) ∧
        flushAll (flushAll s).2 = (.ok (), (flushAll s).2))) ∧
    (∀ q, Flushes (fun p => p.isDirty) [q] s (flushPage q s)) ∧
    ∀ tx, ∃ pages : List PageId,
      (∀ q, q ∈ pages ↔
        (s.mode? tx q).isSome ∧ ∃ p, s.cached q = some p ∧ p.dirtiedBy = some tx) ∧
      pages.Pairwise (fun p q => compare p q = .lt) ∧
      Flushes (·.dirtiedBy = some tx) pages s (flushTx tx s) := by
  have hs := arises.coherent
  refine ⟨?_, flushes_page hs plain, fun tx => ⟨_, fun q => ?_, ?_, flushes_tx hs plain tx⟩⟩
  · have all : Flushes (fun p => p.isDirty) s.pool.cache.ids s (flushAll s) :=
      flushes_pages hs plain hs.cache.nodup
    refine ⟨hs.cache.nodup, hs.cache.listed, all, fun ok => ?_⟩
    generalize flushAll s = result at all ok ⊢
    obtain ⟨_, s'⟩ := result
    cases ok
    have clean (q : PageId) (p : HeapPage) (hp : s'.cached q = some p) : p.isDirty = false :=
      all.clean hs hp
    exact ⟨clean, flushAll_of_clean clean⟩
  · have listed : q ∈ s.pool.locks.pagesOf tx ↔ (s.mode? tx q).isSome := hs.locks.listed
    rw [List.mem_filter, listed, Option.any_eq_true]
    simp only [decide_eq_true_eq]
  · exact (LockTable.pagesOf_ascending _ tx).filter _

/-- Both rows are flushed, and then there is nothing to flush; and where the second cannot be, the
first is all the same. -/
theorem rows_flushed :
    let s := twoRowsOver {}
    let s' := (flushAll s).2
    let t := twoRowsOver halfRefusing
    let t' := (flushAll t).2
    ((∀ q p, s'.cached q = some p → p.isDirty = false) ∧ flushAll s' = (.ok (), s')) ∧
      (flushAll t).1 ≠ .ok () ∧
      ∃ done, samplePage ∈ done ∧ otherPage ∉ done ∧
        FlushedUpTo (fun p => p.isDirty) done t t' := by
  intro s s' t t'
  have arises : Arises s := arises_twoRowsOver {}
  have arises' : Arises t := arises_twoRowsOver halfRefusing
  obtain ⟨ok, failed, dirty, clean, kept⟩ :
      (flushAll s).1.isOk ∧ (flushAll t).1.isOk = false ∧
      (t.cached samplePage).map (·.isDirty) = some true ∧
      (t'.cached samplePage).map (·.isDirty) = some false ∧
      (t'.cached otherPage).map (·.isDirty) = some true := by
    decide +kernel
  have whole : (flushAll s).1 = .ok () := (exists_of_isOk ok).choose_spec
  have notOk : (flushAll t).1 ≠ .ok () := by
    intro ok
    rw [ok] at failed
    cases failed
  obtain ⟨⟨_, _, ⟨done, _, _, _, flushed⟩, _⟩, _⟩ := flush_moves_bytes arises' plain_bothTables
  have flushed : FlushedUpTo (fun p => p.isDirty) done t t' := flushed
  obtain ⟨⟨_, _, _, clear⟩, _⟩ := flush_moves_bytes arises plain_bothTables
  refine ⟨clear whole, notOk, done, ?_, ?_, flushed⟩
  · apply Classical.byContradiction
    intro unseen
    rw [flushed.left samplePage unseen, dirty] at clean
    cases clean
  · intro seen
    obtain ⟨p, hp, still⟩ := Option.map_eq_some_iff.mp kept
    exact flushed.seen otherPage seen p hp still

theorem numbers_ne_nil : [(⟨.int, none⟩ : Column)] ≠ [] :=
  List.cons_ne_nil _ _

/-- A table of numbers in the file of the second table, and a row of it. -/
def numbersEntry : Entry where
  name := "numbers"
  file := ⟨.file 1, 1, ⟨_, numbers_ne_nil⟩⟩

theorem number_fits : Fits numbersEntry.file.schema.types [some (.int 7)] :=
  ⟨fun _ h => by cases h; rfl, trivial⟩

def numbersRow : Tuple where
  schema := numbersEntry.file.schema
  values := [some (.int 7)]
  fits := number_fits

/-- A page with a row that it has not been marked for. -/
def unmarkedPage : HeapPage :=
  (HeapPage.empty samplePage sampleEntry.file.schema).edited [.insert (sampleRow "a")]

theorem made_unmarkedPage : unmarkedPage.Made unmarkedPage.id := by
  have made : unmarkedPage.Made samplePage :=
    ⟨_, (HeapPage.formed_empty samplePage sampleEntry.file.schema).edited _⟩
  rwa [made.id]

/-- The first page of a table has been read, to be changed. -/
def readStore : Store :=
  ((Act.call (.get ⟨1⟩ samplePage .readWrite)).perform
    (sample (Bytes.zeros pageSize) 2 Nat.two_pos)).2

/-- It has been changed, but not marked. -/
def changedStore : Store :=
  (put unmarkedPage readStore).2

/-- There is a table of numbers as well. -/
def numbersStore : Store :=
  { changedStore with
    catalog := sampleCatalog.add numbersEntry
    parked := [] }

/-- Another transaction has stored a number, and its table is not registered any more. -/
def unregisteredStore : Store :=
  let s := ((Act.call (.insert ⟨2⟩ (.file 1) numbersRow)).perform numbersStore).2
  { s with catalog := sampleCatalog, parked := [] }

/-- After a flush that has failed, the file is registered once more, as a table of strings. -/
def retypedStore : Store :=
  let s := ((Act.call .flushAll).perform unregisteredStore).2
  { s with catalog := bothTables, parked := [] }

theorem plain_sampleCatalog : sampleCatalog.Plain :=
  Catalog.plain_default.add rfl

theorem arises_unregisteredStore : Arises unregisteredStore := by
  have read : Arises readStore :=
    (arises_sample Nat.two_pos (by decide)).acted (.call (.get ⟨1⟩ samplePage .readWrite))
  have changed : Arises changedStore := read.edited made_unmarkedPage
  have keyed := (plain_sampleCatalog.add (e := numbersEntry) rfl).keyed
  have numbers : Arises numbersStore := changed.elsewhere keyed changedStore.disk []
  exact (numbers.acted (.call (.insert ⟨2⟩ (.file 1) numbersRow))).elsewhere
    plain_sampleCatalog.keyed _ []

theorem arises_retypedStore : Arises retypedStore :=
  (arises_unregisteredStore.acted (.call .flushAll)).elsewhere plain_bothTables.keyed _ []

/-- The page has other bytes in the cache than it is read with from its file. -/
def apart (s : Store) (q : PageId) : Bool :=
  match s.cached q, s.onFile q with
  | some p, .ok r => p.image != r.image
  | _, _ => false

/-- A page that has been changed but not marked is passed over by a flush, so it is clean and yet not
on disk; and a page that has been flushed is not read back with its bytes by a table of other
columns. -/
theorem flush_is_not_all :
    (Arises unregisteredStore ∧ unregisteredStore.catalog.Plain ∧
      unregisteredStore.pool.cache.ids = [samplePage, otherPage] ∧
      (flushAll unregisteredStore).1 = .error (.unknownTable otherPage.table) ∧
      let s := (flushAll unregisteredStore).2
      (s.cached samplePage).map (·.dirtiedBy) = some none ∧ apart s samplePage) ∧
    Arises retypedStore ∧ retypedStore.catalog.Plain ∧ (flushAll retypedStore).1 = .ok () ∧
      (retypedStore.cached otherPage).map (·.dirtiedBy) = some (some ⟨2⟩) ∧
      apart (flushAll retypedStore).2 otherPage := by
  obtain ⟨unmarked, retyped⟩ :
      (unregisteredStore.pool.cache.ids = [samplePage, otherPage] ∧
        (flushAll unregisteredStore).1 = .error (.unknownTable otherPage.table) ∧
        ((flushAll unregisteredStore).2.cached samplePage).map (·.dirtiedBy) = some none ∧
        apart (flushAll unregisteredStore).2 samplePage) ∧
      (flushAll retypedStore).1 = .ok () ∧
        (retypedStore.cached otherPage).map (·.dirtiedBy) = some (some ⟨2⟩) ∧
        apart (flushAll retypedStore).2 otherPage := by
    decide +kernel
  exact ⟨⟨arises_unregisteredStore, plain_sampleCatalog, unmarked⟩, arises_retypedStore,
    plain_bothTables, retyped⟩

end Store
end HeapStore
