import HeapStore.Proofs.Store.Insert
import HeapStore.Proofs.Store.Passage

/-!
The stores that a pool can meet from its set-up on, whatever happens to it, as long as every table
keeps its file and no file gets shorter. Each page in the cache has its place in its file then:
a page is cached when it has been read, and from then on the file has it.
-/

namespace HeapStore
open Std Store

/-- Every table has the file of the generation that is given for it, and no hook. -/
def Catalog.Housed (home : TableId → Nat) (c : Catalog) : Prop :=
  ∀ (id : TableId) (e : Entry), c.tables[id]? = some e →
    e.file.id = ⟨id, home id⟩ ∧ e.hook = none

theorem Catalog.Housed.plain {home : TableId → Nat} {c : Catalog} (h : c.Housed home) : c.Plain :=
  fun id e he => ⟨congrArg FileId.name (h id e he).1, (h id e he).2⟩

theorem Catalog.Housed.add {home : TableId → Nat} {c : Catalog} {e : Entry} (h : c.Housed home)
    (file : e.file.id = ⟨e.file.table, home e.file.table⟩) (hook : e.hook = none) :
    (c.add e).Housed home := by
  intro id e' hid
  rcases Catalog.entry_of_add hid with ⟨rfl, rfl⟩ | old
  · exact ⟨file, hook⟩
  · exact h id e' old

theorem Catalog.housed_default (home : TableId → Nat) : Catalog.Housed home {} := by
  intro id e h
  simp at h

/-- If there is such a table, a page of it has room for a row. -/
def Catalog.Roomy (c : Catalog) (table : TableId) : Prop :=
  ∀ e, c.find table = .ok e → 0 < e.file.schema.slotsPerPage

theorem Catalog.roomy_of_find {c : Catalog} {table : TableId} {e : Entry}
    (entry : c.find table = .ok e) (room : 0 < e.file.schema.slotsPerPage) : c.Roomy table :=
  fun _ entry' => Except.ok.inj (entry.symm.trans entry') ▸ room

namespace Store
variable {home : TableId → Nat} {s s' s₁ : Store} {tx : TxId} {q : PageId} {p : HeapPage}

/-- The stores that can be met. Between what happens tables come and go, and files change. -/
inductive Reachable (home : TableId → Nat) : Store → Prop
  | opened {s : Store} {config : Config} (new : Pool.new? config = some s.pool)
      (housed : s.catalog.Housed home) : Reachable home s
  | changed {s : Store} {catalog : Catalog} {disk : Disk TableId} (before : Reachable home s)
      (housed : catalog.Housed home) (longer : ∀ file, s.disk.length file ≤ disk.length file) :
      Reachable home { s with catalog, disk }
  | happened {s : Store} (before : Reachable home s) (what : Happening) :
      Reachable home (what.perform s).2

/-- No file has got shorter. -/
def Lengthens (s s' : Store) : Prop :=
  ∀ file, s.disk.length file ≤ s'.disk.length file

theorem Lengthens.of_disk (h : s'.disk = s.disk) : Lengthens s s' := by
  intro file
  rw [h]

theorem lengthening : Lenient Lengthens where
  refl _ := .of_disk rfl
  trans h₁ h₂ file := Nat.le_trans (h₁ file) (h₂ file)
  catalog _ _ := .of_disk rfl
  cache _ _ := .of_disk rfl
  granted _ := .of_disk rfl

theorem lengthening_rewriting : Rewriting Lengthens :=
  { lengthening with wrote := Disk.length_le_of_write }

theorem Lengthens.letGo {held : Bool} (h : Lengthens s s₁) :
    Lengthens s (letGo held tx q s₁).2 := by
  rw [Lengthens, disk_letGo]
  exact h

theorem lengthens_insertInto (f : HeapFile) (tx : TxId) (t : Tuple) :
    Keeping Lengthens (insertInto f tx t) :=
  lengthening.insertInto (lengthening_rewriting.append f) Lengthens.letGo tx t

theorem lengthens_complete (tx : TxId) (ending : Ending) :
    Keeping Lengthens (complete tx ending) := by
  intro s
  cases ending with
  | commit => exact lengthening.trans (lengthening_rewriting.commit tx s) (.of_disk rfl)
  | abort => exact lengthening.trans (lengthening_rewriting.rollback tx s) (.of_disk rfl)

end Store

variable {home : TableId → Nat} {s s' s₁ : Store} {tx : TxId} {q : PageId} {p : HeapPage}

theorem Call.lengthens (c : Call) (s : Store) : Lengthens s (c.perform s).2 := by
  have mapped {α : Type} {x : StoreM α} {f : α → Answer} (h : Keeping Lengthens x) :
      Lengthens s ((f <$> x) s).2 := by
    rw [map_apply]
    exact h s
  cases c with
  | get tx page a => exact mapped (lengthening.fetch tx page a)
  | insert tx table t =>
      exact lengthening.insert fun e _ => lengthens_insertInto e.file tx t
  | delete tx rid => exact mapped (lengthening.delete tx rid)
  | flushPage page => exact mapped (lengthening_rewriting.flushPage page)
  | flushAll => exact mapped lengthening_rewriting.flushAll
  | flushTx tx => exact mapped (lengthening_rewriting.flushTx tx)
  | discard page => exact .of_disk rfl
  | release tx page => exact .of_disk rfl
  | complete tx ending => exact mapped (lengthens_complete tx ending)

theorem Act.lengthens (a : Act) (s : Store) : Lengthens s (a.perform s).2 := by
  cases a with
  | call c => exact c.lengthens s
  | insertInto f tx t => exact lengthens_insertInto f tx t s
  | deleteFrom f tx rid => exact lengthening.deleteFrom f tx rid s
  | scan sc request =>
      exact lengthening.request (fun q => lengthening.fetch sc.tx q .readOnly) request s

namespace Store

/-- A page that is cached was cached before, or the file has it. -/
def Arrives (s s' : Store) : Prop :=
  ∀ q, s'.pool.cache.contains q → s.pool.cache.contains q ∨ ∃ p, s'.onFile q = .ok p

theorem Arrives.of_contains (h : ∀ q, s'.pool.cache.contains q = s.pool.cache.contains q) :
    Arrives s s' :=
  fun q here => .inl (h q ▸ here)

theorem Arrives.of_cached
    (h : ∀ q, s'.cached q = s.cached q ∨ ∀ p, s'.cached q = some p → s'.onFile q = .ok p) :
    Arrives s s' := by
  intro q here
  obtain ⟨p, hp⟩ := Option.isSome_iff_exists.mp here
  rcases h q with same | came
  · left
    rw [Cache.contains_eq, show s.pool.cache.find? q = some p from same.symm.trans hp]
    rfl
  · exact .inr ⟨p, came p hp⟩

theorem Spares.arrives {file : FileId TableId} {rs : List PageRequest} (h : Spares file rs s s') :
    Arrives s s' :=
  .of_cached fun q => (h.cached q).imp And.left And.right

theorem Found.arrives {f : HeapFile} {t : Tuple} {rs : List PageRequest} {m : Nat} {s₀ : Store}
    {rid : RecordId} (plain : s.catalog.Plain) (found : Found f tx t s rs m s₀ s₁ p rid)
    (overlays : Overlays rid.page (filled p tx t rid) s₁ s') : Arrives s s' := by
  intro q cached
  rw [overlays.onFile]
  apply (found.spares plain).arrives
  rw [Cache.contains_eq, show s'.pool.cache.find? q = _ from overlays.cached q] at cached
  rw [Cache.contains_eq]
  split at cached
  next same => rw [same, show s₁.pool.cache.find? rid.page = _ from found.here plain]; rfl
  next => exact cached

theorem Files.arrives {f : HeapFile} {t : Tuple} {r : Except Error (HeapPage × RecordId)}
    (plain : s.catalog.Plain) (h : Files f tx t s r s') :
    Arrives s s' ∧ s'.catalog = s.catalog := by
  cases h with
  | misfit _ => exact ⟨.of_contains fun _ => rfl, rfl⟩
  | failed _ seeks =>
      have spares := seeks.spares plain
      exact ⟨spares.arrives, spares.catalog⟩
  | stored found overlays =>
      exact ⟨found.arrives plain overlays, overlays.catalog.trans (found.spares plain).catalog⟩

theorem Inserts.arrives {table : TableId} {t : Tuple} {r : Except Error Unit × Tuple}
    (plain : s.catalog.Plain) (h : Inserts tx table t s r s') :
    Arrives s s' ∧ s'.catalog = s.catalog := by
  cases h with
  | unknown _ => exact ⟨.of_contains fun _ => rfl, rfl⟩
  | failed _ files => exact files.arrives plain
  | stored _ found overlays =>
      exact ⟨found.arrives plain overlays, overlays.catalog.trans (found.spares plain).catalog⟩

/-- Nothing is done but to get pages: each is the same as before in the cache, or it is as its file
has it if it is there. -/
def Gathers (s s' : Store) : Prop :=
  s.catalog.Plain → s'.catalog = s.catalog ∧ s'.disk = s.disk ∧
    ∀ q, s'.cached q = s.cached q ∨ ∀ p, s'.cached q = some p → s'.onFile q = .ok p

theorem gathering : Onward Gathers where
  refl _ _ := ⟨rfl, rfl, fun _ => .inl rfl⟩
  trans h₁ h₂ plain := by
    obtain ⟨catalog₁, disk₁, cached₁⟩ := h₁ plain
    obtain ⟨catalog₂, disk₂, cached₂⟩ := h₂ (catalog₁ ▸ plain)
    refine ⟨catalog₂.trans catalog₁, disk₂.trans disk₁, fun q => ?_⟩
    rcases cached₂ q with same | came
    · simpa only [same, onFile, catalog₂, disk₂] using cached₁ q
    · exact .inr came

theorem gathers_fetch (tx : TxId) (q : PageId) (a : Access) : Keeping Gathers (fetch tx q a) := by
  intro s plain
  obtain ⟨catalog, disk⟩ := (replied_of_plain plain tx q a).frame
  exact ⟨catalog, disk, fun q' =>
    ((spares_of_fetch plain ⟨q.table, 0⟩ rfl).cached q').imp And.left And.right⟩

theorem Gathers.arrives (h : Gathers s s') (plain : s.catalog.Plain) : Arrives s s' :=
  .of_cached (h plain).2.2

theorem Passage.arrives_of_none (h : Passage s [] s') : Arrives s s' := by
  cases h with
  | still h => exact .of_contains h.contains

/-- After a single request no page comes or goes any more. -/
theorem Passage.arrives_of_one {a : Access} (plain : s.catalog.Plain)
    (disk : s'.disk = s.disk) (h : Passage s [⟨tx, q, a, s⟩] s') : Arrives s s' := by
  have gathers := gathers_fetch tx q a s
  obtain ⟨catalog, disk', _⟩ := gathers plain
  have same := h.catalog_eq plain
  cases h with
  | request _ rest =>
      cases rest with
      | still h =>
          intro q' here
          rw [h.contains] at here
          simpa only [onFile, catalog, disk', same, disk] using gathers.arrives plain q' here

end Store

/-- A page that is cached after an act was cached before, or its file has it. -/
theorem Act.arrives (plain : s.catalog.Plain) (ordered : s.pool.cache.Ordered) (a : Act) :
    Arrives s (a.perform s).2 ∧ (a.perform s).2.catalog = s.catalog := by
  by_cases discards : ∃ q, a = .call (.discard q)
  · obtain ⟨q, rfl⟩ := discards
    refine ⟨fun q' here => .inl ?_, rfl⟩
    have found : ((s.pool.cache.remove q).find? q').isSome := here
    rw [Cache.find?_remove] at found
    split at found
    · cases found
    · exact found
  have ends := a.ends plain ordered fun q h => discards ⟨q, h⟩
  refine ⟨?_, ends.passage.catalog_eq plain⟩
  have passage := ends.passage
  cases a with
  | scan sc request =>
      have gathers := gathering.request (fun q => gathers_fetch sc.tx q .readOnly) request s
      exact gathers.arrives plain
  | insertInto f tx t => exact ((files_of_insertInto plain ordered f tx t).arrives plain).1
  | deleteFrom f tx rid =>
      cases rid with
      | none => exact passage.arrives_of_none
      | some rid =>
          have disk := lenient_disk.deleteFrom f tx (some rid) s
          simp only [Act.requests, deleteRequests] at passage
          split at passage
          · exact passage.arrives_of_one plain disk
          · exact passage.arrives_of_none
  | call c =>
      cases c with
      | get tx q access =>
          rw [Act.perform, Call.perform, map_apply]
          exact (gathers_fetch tx q access s).arrives plain
      | insert tx table t => exact ((inserts plain ordered tx table t).arrives plain).1
      | delete tx rid =>
          cases rid with
          | none => exact passage.arrives_of_none
          | some rid =>
              have disk : (Act.perform (.call (.delete tx (some rid))) s).2.disk = s.disk := by
                rw [Act.perform, Call.perform, map_apply]
                exact lenient_disk.delete tx (some rid) s
              simp only [Act.requests] at passage
              split at passage
              · simp only [deleteRequests] at passage
                split at passage
                · exact passage.arrives_of_one plain disk
                · exact passage.arrives_of_none
              · exact passage.arrives_of_none
      | flushPage q => exact passage.arrives_of_none
      | flushAll => exact passage.arrives_of_none
      | flushTx tx => exact passage.arrives_of_none
      | discard q => exact absurd ⟨q, rfl⟩ discards
      | release tx q => exact passage.arrives_of_none
      | complete tx ending => exact passage.arrives_of_none

namespace Store

/-- Every cached page has its place in the file of its table. -/
structure Seated (home : TableId → Nat) (s : Store) : Prop where
  housed : s.catalog.Housed home
  ordered : s.pool.cache.Ordered
  inside : ∀ q, s.pool.cache.contains q → q.offset < s.disk.length ⟨q.table, home q.table⟩

theorem Seated.of_arrives (h : s.Seated home) (arrives : Arrives s s')
    (ordered : s'.pool.cache.Ordered) (catalog : s'.catalog = s.catalog)
    (longer : Lengthens s s') : s'.Seated home where
  housed := catalog ▸ h.housed
  ordered := ordered
  inside q here := by
    rcases arrives q here with before | ⟨p, read⟩
    · exact Nat.lt_of_lt_of_le (h.inside q before) (longer _)
    · obtain ⟨e, he⟩ := find_of_onFile read
      have id := (h.housed _ e (Catalog.find_ok (catalog ▸ he))).1
      simp only [onFile, he, bind, Except.bind] at read
      rw [HeapFile.readPage_apply] at read
      split at read
      next within => exact id ▸ (HeapFile.lt_numPages_iff ..).mp within.2
      next => cases read

theorem Seated.happened (h : s.Seated home) (what : Happening) :
    (what.perform s).2.Seated home := by
  cases what with
  | act a =>
      obtain ⟨arrives, catalog⟩ := a.arrives h.housed.plain h.ordered
      exact h.of_arrives arrives ((a.arranges s).2 h.ordered) catalog (a.lengthens s)
  | look page => exact h
  | edit p =>
      refine h.of_arrives (.of_contains (s.pool.cache.contains_update p)) (h.ordered.update p) rfl ?_
      exact .of_disk rfl
  | latch page latched =>
      refine h.of_arrives (.of_contains fun q => ?_) (h.ordered.setLatch page latched) rfl
        (.of_disk rfl)
      exact congrArg Option.isSome (s.pool.cache.find?_setLatch page q latched)

theorem Reachable.seated (h : Reachable home s) : s.Seated home := by
  induction h with
  | @opened s config new housed =>
      refine ⟨housed, (Pool.eq_of_new? new).2.1.toOrdered, fun q here => ?_⟩
      have absent : s.pool.cache.find? q = none := cached_of_new new q
      rw [Cache.contains_eq, absent] at here
      cases here
  | changed before housed longer ih =>
      exact ⟨housed, ih.ordered, fun q here => Nat.lt_of_lt_of_le (ih.inside q here) (longer _)⟩
  | happened before what ih => exact ih.happened what

theorem Reachable.run (h : Reachable home s) (calls : List Call) :
    Reachable home (run calls s).2 := by
  induction calls generalizing s with
  | nil => exact h
  | cons c calls ih => exact ih (h.happened (.act (.call c)))

/-- A table that is registered has its own file. -/
theorem Seated.bound (h : s.Seated home) {e : Entry} {table : TableId}
    (entry : s.catalog.find table = .ok e) :
    e.file.table = table ∧ e.file.generation = home table := by
  have id := (h.housed _ e (Catalog.find_ok entry)).1
  exact ⟨congrArg FileId.name id, congrArg FileId.generation id⟩

section
variable {f : HeapFile}

/-- The page after the last one of a file is not cached. -/
theorem Seated.absent (h : s.Seated home) (bound : f.generation = home f.table) {n : Nat}
    (outside : f.numPages s.disk ≤ n) : s.cached ⟨f.table, n⟩ = none := by
  cases hp : s.cached ⟨f.table, n⟩ with
  | none => rfl
  | some p =>
      have here : s.pool.cache.contains ⟨f.table, n⟩ := by
        rw [Cache.contains_eq, show s.pool.cache.find? ⟨f.table, n⟩ = some p from hp]
        rfl
      have inside := h.inside _ here
      rw [show (⟨(⟨f.table, n⟩ : PageId).table, home f.table⟩ : FileId TableId) = f.id by
        rw [← bound]; rfl] at inside
      exact absurd ((HeapFile.lt_numPages_iff ..).mpr inside) (Nat.not_lt_of_le outside)

/-- A page that was not in the file at the beginning of a search is empty when it is had. -/
theorem Seated.had_new {rs : List PageRequest} {s₀ : Store} {n : Nat} {a : Access}
    (seated : s.Seated home) (bound : f.generation = home f.table) (spares : Spares f.id rs s s₀)
    (replied : Replied tx ⟨f.table, n⟩ a s₀ (.ok p) s₁) (outside : f.numPages s.disk ≤ n) :
    ∃ e, s.catalog.find f.table = .ok e ∧ p = .empty ⟨f.table, n⟩ e.file.schema := by
  have absent := seated.absent bound outside
  have read : s₀.onFile ⟨f.table, n⟩ = .ok p := by
    rcases replied.source with here | ⟨_, read⟩
    · rcases spares.cached ⟨f.table, n⟩ with ⟨same, _⟩ | ⟨_, came⟩
      · rw [← same, here] at absent
        cases absent
      · exact came p here
    · exact read
  obtain ⟨e, entry⟩ := find_of_onFile read
  rw [spares.catalog] at entry
  refine ⟨e, entry, ?_⟩
  have file : e.file.id = f.id := by
    obtain ⟨table, generation⟩ := seated.bound entry
    rw [HeapFile.id, table, generation, ← bound, HeapFile.id]
  have same := HeapFile.numPages_congr file s.disk
  simp only [Store.onFile, spares.catalog, entry, bind, Except.bind] at read
  exact HeapFile.decode_of_readPage_grown (file ▸ spares.disk) (same ▸ outside) read

/-- If a page has room for a row at all, a search passes no page that it has added. -/
theorem Climbs.reached {rs : List PageRequest} {s₀ : Store} {m : Nat}
    (climbs : Climbs f tx 0 s rs m s₀) (seated : s.Seated home)
    (bound : f.generation = home f.table) (roomy : s.catalog.Roomy f.table) :
    m ≤ f.numPages s.disk := by
  by_contra further
  obtain ⟨_, s₁, _, p, _, climbs₁, got, full⟩ :=
    climbs.passed (Nat.zero_le _) (Nat.lt_of_not_le further)
  have spares := climbs₁.spares seated.housed.plain
  have replied := climbs₁.replied seated.housed.plain got
  obtain ⟨e, entry, rfl⟩ := seated.had_new bound spares replied (Nat.le_refl _)
  rw [HeapPage.emptySlots_empty] at full
  exact absurd (roomy e entry) (Nat.not_lt_of_le (Nat.le_of_eq full))

end

/-- The generations of the files of the sample tables. -/
def sampleHome : TableId → Nat
  | .file i => i
  | .num _ => 0

theorem reachable_sample {bs : List UInt8} {capacity : Nat} (h : 0 < capacity)
    (hm : capacity ≤ Config.maxCapacity) : Reachable sampleHome (sample bs capacity h) :=
  .opened (opened_sample h hm).pool ((Catalog.housed_default _).add rfl rfl)

end Store
end HeapStore
