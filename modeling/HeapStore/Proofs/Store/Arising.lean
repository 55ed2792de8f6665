import HeapStore.Proofs.Lock.Safety
import HeapStore.Proofs.Page.RoundTrip
import HeapStore.Proofs.Store.Queue

/-!
What holds of a store that has come about in whatever way, hooks and failures and all: its cache and
its locks are in order, every table goes by its own id, and every page in the cache is one that can
be made under its id. Whatever is put together from steps that keep this keeps it too; the steps
that cache a page or change one in place need to know about the page, so what is handed out from
step to step is told along.
-/

namespace HeapStore
open Std

/-- Every table goes by its own id. -/
def Catalog.Keyed (c : Catalog) : Prop :=
  ∀ (id : TableId) (e : Entry), c.tables[id]? = some e → e.file.table = id

namespace Catalog
variable {c : Catalog}

theorem Plain.keyed (h : c.Plain) : c.Keyed :=
  fun id e he => (h id e he).1

theorem keyed_default : Keyed {} :=
  plain_default.keyed

/-- Tables are registered under the ids of their files. -/
theorem Keyed.add (h : c.Keyed) (e : Entry) : (c.add e).Keyed := by
  intro id e' hid
  rcases entry_of_add hid with ⟨table, rfl⟩ | old
  · exact table
  · exact h id e' old

theorem Keyed.setHook (h : c.Keyed) (id : TableId) (hook : Hook) : (c.setHook id hook).Keyed := by
  intro id' e he
  simp only [Catalog.setHook, ExtTreeMap.getElem?_alter] at he
  split at he
  next same =>
    obtain ⟨e₀, he₀, rfl⟩ := Option.map_eq_some_iff.mp he
    exact (h _ e₀ he₀).trans (Std.compare_eq_iff_eq.mp same)
  next => exact h id' e he

end Catalog

/-- A page that can be made under this name, by some schema. -/
def HeapPage.Made (q : PageId) (p : HeapPage) : Prop :=
  ∃ schema, p.Formed q schema

namespace HeapPage
variable {q : PageId} {p p' : HeapPage}

theorem Made.perform {e : PageEdit} (h : p.Made q) (he : e.perform p = .ok p') : p'.Made q :=
  h.imp fun _ formed => formed.perform he

theorem Made.mark (h : p.Made q) (owner : Option TxId) : (p.mark owner).Made q :=
  h.perform (e := .mark owner) rfl

theorem Made.snapshot (h : p.Made q) : p.snapshot.Made q :=
  h.perform (e := .snapshot) rfl

theorem Made.id (h : p.Made q) : p.id = q :=
  h.elim fun _ formed => formed.id

theorem Made.own (h : p.Made q) : p.Made p.id := by
  rwa [h.id]

theorem Made.sound (h : p.Made q) : p.Sound :=
  h.elim fun _ formed => formed.sound

end HeapPage

theorem Cache.find?_of_insert {c : Cache} {id id' : PageId} {p r : HeapPage}
    (h : (c.insert id p).2.find? id' = some r) : id' = id ∧ r = p ∨ c.find? id' = some r := by
  have placed {c : Cache} (h : (c.place id p).find? id' = some r) :
      id' = id ∧ r = p ∨ c.find? id' = some r := by
    rw [find?_place] at h
    split at h
    next same => exact .inl ⟨same, (Option.some.inj h).symm⟩
    next => exact .inr h
  have inserted := c.inserted id p
  generalize c.insert id p = outcome at inserted h
  obtain ⟨_, c'⟩ := outcome
  cases inserted with
  | placed => exact placed h
  | evicting =>
      refine (placed h).imp_right fun left => ?_
      rw [find?_drop] at left
      split at left
      · cases left
      · exact left
  | refused => exact .inr h

namespace Store
variable {α β : Type} {s s' : Store} {tx : TxId} {q : PageId} {a : Access} {p : HeapPage}
  {e : Entry} {f : HeapFile} {t : Tuple}

structure Coherent (s : Store) : Prop where
  catalog : s.catalog.Keyed
  cache : s.pool.cache.Ordered
  locks : s.pool.locks.Consistent
  pages : ∀ q p, s.cached q = some p → p.Made q

namespace Coherent

theorem of_new {config : Config} (h : Pool.new? config = some s.pool) (keyed : s.catalog.Keyed) :
    s.Coherent where
  catalog := keyed
  cache := (Pool.eq_of_new? h).2.1.toOrdered
  locks := by
    rw [(Pool.eq_of_new? h).1]
    exact LockTable.consistent_default
  pages q p hp := by
    rw [cached_of_new h] at hp
    cases hp

/-- Files and other pools are of no concern, nor what tables there are. -/
theorem elsewhere (h : s.Coherent) {catalog : Catalog} (keyed : catalog.Keyed)
    (disk : Disk TableId) (parked : List Pool) : Coherent { s with catalog, disk, parked } :=
  ⟨keyed, h.cache, h.locks, h.pages⟩

theorem wrote (h : s.Coherent) (disk : Disk TableId) : Coherent { s with disk } :=
  ⟨h.catalog, h.cache, h.locks, h.pages⟩

theorem locked (h : s.Coherent) {locks : LockTable} (hl : locks.Consistent) :
    Coherent { s with pool.locks := locks } :=
  ⟨h.catalog, h.cache, hl, h.pages⟩

theorem used (h : s.Coherent) (q : PageId) :
    Coherent { s with pool.cache := s.pool.cache.use q } where
  catalog := h.catalog
  cache := h.cache.use q
  locks := h.locks
  pages q' p hp := h.pages q' p (by rwa [Store.cached, Cache.find?_use] at hp)

theorem dropped (h : s.Coherent) (q : PageId) :
    Coherent { s with pool.cache := s.pool.cache.remove q } where
  catalog := h.catalog
  cache := h.cache.remove q
  locks := h.locks
  pages q' p hp := by
    rw [Store.cached, Cache.find?_remove] at hp
    split at hp
    · cases hp
    · exact h.pages q' p hp

theorem kept (h : s.Coherent) (made : p.Made q) :
    Coherent { s with pool.cache := (s.pool.cache.insert q p).2 } where
  catalog := h.catalog
  cache := h.cache.insert made.id
  locks := h.locks
  pages q' r hr := by
    rcases Cache.find?_of_insert hr with ⟨rfl, rfl⟩ | before
    · exact made
    · exact h.pages q' r before

theorem changed (h : s.Coherent) (made : p.Made q) : (put p s).2.Coherent where
  catalog := h.catalog
  cache := h.cache.update p
  locks := h.locks
  pages q r hr := by
    have here : (s.pool.cache.update p).find? q = some r := hr
    rw [Cache.find?_update] at here
    split at here
    next same =>
      obtain ⟨_, _, rfl⟩ := Option.map_eq_some_iff.mp here
      exact same ▸ made.own
    next => exact h.pages q r here

theorem latched (h : s.Coherent) (q : PageId) (latched : Bool) :
    Coherent { s with pool.cache := s.pool.cache.setLatch q latched } where
  catalog := h.catalog
  cache := h.cache.setLatch q latched
  locks := h.locks
  pages q' p hp := h.pages q' p (by rwa [Store.cached, Cache.find?_setLatch] at hp)

end Coherent

/-- A store that was coherent is so afterwards, and what is handed out, if all goes well, is `Q`. -/
def Delivers (Q : α → Prop) (x : StoreM α) : Prop :=
  ∀ s, s.Coherent → (x s).2.Coherent ∧ ∀ a, (x s).1 = .ok a → Q a

namespace Delivers
variable {Q : α → Prop} {Q' : β → Prop}

theorem bind {x : StoreM α} {f : α → StoreM β} (hx : Delivers Q x)
    (hf : ∀ a, Q a → Delivers Q' (f a)) : Delivers Q' (x >>= f) := by
  intro s hs
  obtain ⟨coherent, handed⟩ := hx s hs
  rw [bind_apply]
  generalize x s = outcome at coherent handed
  obtain ⟨_ | a, s₁⟩ := outcome
  · exact ⟨coherent, nofun⟩
  · exact hf a (handed a rfl) s₁ coherent

theorem pure {a : α} (h : Q a) : Delivers Q (Pure.pure a : StoreM α) := by
  intro s hs
  refine ⟨hs, fun b hb => ?_⟩
  cases hb
  exact h

theorem ofExcept {r : Except Error α} (h : ∀ a, r = .ok a → Q a) :
    Delivers Q (Store.ofExcept r) :=
  fun _ hs => ⟨hs, h⟩

theorem get : Delivers Coherent (MonadState.get : StoreM Store) := by
  intro s hs
  refine ⟨hs, fun s' same => ?_⟩
  cases same
  exact hs

theorem done {x : StoreM Unit} (h : ∀ s, s.Coherent → (x s).2.Coherent) :
    Delivers (fun _ => True) x :=
  fun s hs => ⟨h s hs, fun _ _ => trivial⟩

theorem ensure (c : Prop) [Decidable c] (e : Error) :
    Delivers (fun _ => True) (Store.ensure c e) := by
  unfold Store.ensure
  split
  · exact pure trivial
  · exact done fun _ hs => hs

theorem lookup (table : TableId) : Delivers (fun _ => True) (Store.lookup table) :=
  fun _ hs => ⟨hs, fun _ _ => trivial⟩

theorem forM {f : α → StoreM Unit} (h : ∀ a, Delivers (fun _ => True) (f a)) (as : List α) :
    Delivers (fun _ => True) (as.forM f) := by
  induction as with
  | nil => exact pure trivial
  | cons a as ih => exact bind (h a) fun _ _ => ih

theorem put (h : p.Made q) : Delivers (fun _ => True) (Store.put p) :=
  done fun _ hs => hs.changed h

theorem setHook (table : TableId) (hook : Hook) :
    Delivers (fun _ => True) (onCatalog (·.setHook table hook)) :=
  done fun s hs => hs.elsewhere (hs.catalog.setHook table hook) s.disk s.parked

theorem acquire (tx : TxId) (q : PageId) (m : LockMode) :
    Delivers (fun _ => True) (Store.acquire tx q m) := by
  refine done fun s hs => ?_
  rw [acquire_apply]
  cases ha : s.pool.locks.acquire? tx q m with
  | none => exact hs
  | some locks => exact hs.locked (hs.locks.acquire? ha)

theorem cached? (q : PageId) : Delivers (fun p? => ∀ p ∈ p?, p.Made q) (Store.cached? q) := by
  intro s hs
  rw [cached?_apply]
  refine ⟨hs.used q, fun p? found p hp => ?_⟩
  cases found
  exact hs.pages q p hp

theorem keep (h : p.Made q) : Delivers (fun _ => True) (Store.keep q p) :=
  done fun _ hs => hs.kept h

theorem read {interrupt : List Action → StoreM Unit}
    (h : ∀ actions, Delivers (fun _ => True) (interrupt actions)) (e : Entry) (q : PageId) :
    Delivers (HeapPage.Made q) (Store.read interrupt e q) := by
  have direct : Delivers (HeapPage.Made q) (readDirect e.file q) := by
    refine bind get fun s _ => ofExcept fun p hp => ?_
    obtain ⟨data, decoded⟩ := HeapFile.decode_of_readPage_ok hp
    exact ⟨_, HeapPage.formed_of_decode decoded⟩
  unfold Store.read
  split
  · exact direct
  · refine bind (setHook _ _) fun _ _ => bind (ensure _ _) fun _ _ => ?_
    exact bind direct fun p made => bind (h _) fun _ _ => pure made

theorem fetchWith {interrupt : List Action → StoreM Unit}
    (h : ∀ actions, Delivers (fun _ => True) (interrupt actions)) (tx : TxId) (q : PageId)
    (a : Access) : Delivers (HeapPage.Made q) (Store.fetchWith interrupt tx q a) := by
  unfold Store.fetchWith
  refine bind (acquire tx q a.mode) fun _ _ => bind (cached? q) fun p? found => ?_
  split
  next p => exact pure (found p rfl)
  next =>
    refine bind (lookup q.table) fun e _ => bind (read h e q) fun p made => ?_
    refine bind (cached? q) fun p? found => ?_
    split
    next p => exact pure (found p rfl)
    next => exact bind (keep made) fun _ _ => pure made

theorem runActions {fetch : TxId → PageId → Access → StoreM HeapPage}
    (h : ∀ tx q a, Delivers (HeapPage.Made q) (fetch tx q a)) (actions : List Action) :
    Delivers (fun _ => True) (Store.runActions fetch actions) := by
  apply forM
  intro action
  cases action with
  | discard q => exact done fun _ hs => hs.dropped q
  | fetch tx q a => exact bind (h tx q a) fun _ _ => pure trivial
  | dirty tx q => exact bind (h tx q .readWrite) fun p made => put (made.mark (some tx))

theorem fetchNested (depth : Nat) (tx : TxId) (q : PageId) (a : Access) :
    Delivers (HeapPage.Made q) (Store.fetchNested depth tx q a) := by
  induction depth generalizing tx q a with
  | zero => exact fetchWith (fun _ => pure trivial) tx q a
  | succ depth ih => exact fetchWith (runActions ih) tx q a

theorem fetch (tx : TxId) (q : PageId) (a : Access) :
    Delivers (HeapPage.Made q) (Store.fetch tx q a) :=
  bind get fun _ _ => fetchNested _ tx q a

theorem of_fetch {r : Except Error HeapPage} (hs : s.Coherent)
    (h : Store.fetch tx q a s = (r, s')) : s'.Coherent ∧ ∀ p, r = .ok p → p.Made q := by
  have fetched := fetch tx q a s hs
  rwa [h] at fetched

theorem letGo (held : Bool) (tx : TxId) (q : PageId) :
    Delivers (fun _ => True) (Store.letGo held tx q) := by
  refine done fun s hs => ?_
  rw [letGo_apply]
  split
  · exact hs
  · exact hs.locked (hs.locks.release tx q)

theorem append (f : HeapFile) : Delivers (fun _ => True) (Store.append f) := by
  refine done fun s hs => ?_
  rw [append_apply]
  split
  next disk _ => exact hs.wrote disk
  next => exact hs

theorem climbs {n m : Nat} {rs : List PageRequest} (hs : s.Coherent)
    (h : Climbs f tx n s rs m s') : s'.Coherent := by
  induction h with
  | here _ _ => exact hs
  | full _ got _ _ ih => exact ih (letGo _ tx _ _ (of_fetch hs got).1).1
  | @grown _ _ s _ _ _ _ grows _ ih =>
      have grown := (append f s hs).1
      rw [grows] at grown
      exact ih grown

theorem insertInto (f : HeapFile) (tx : TxId) (t : Tuple) :
    Delivers (fun x => x.1.Made x.1.id) (Store.insertInto f tx t) := by
  intro s hs
  rcases insertInto_cases f tx t s with ⟨_, _, refused⟩ | seeks
  · rw [refused]
    exact ⟨hs, nofun⟩
  · generalize insertRequests f tx t s = rs, Store.insertInto f tx t s = outcome at seeks ⊢
    obtain ⟨r, s'⟩ := outcome
    cases seeks with
    | unfetched way _ had | unfit way _ had => exact ⟨(of_fetch (climbs hs way) had).1, nofun⟩
    | ungrown way _ | endless way => exact ⟨climbs hs way, nofun⟩
    | @placed _ _ s₁ _ p p' _ way _ got fit =>
        obtain ⟨hs₁, made⟩ := of_fetch (climbs hs way) got
        have inserted : p'.Made _ :=
          (made p rfl).perform (e := .insert t) (by rw [PageEdit.perform, fit]; rfl)
        have marked := inserted.mark (some tx)
        refine ⟨hs₁.changed marked, ?_⟩
        rintro _ ⟨⟩
        exact marked.own

theorem deleteFrom (f : HeapFile) (tx : TxId) (rid : Option RecordId) :
    Delivers (fun p => p.Made p.id) (Store.deleteFrom f tx rid) := by
  intro s hs
  cases rid with
  | none => exact ⟨hs, nofun⟩
  | some loc =>
      have erases := erases f tx loc s
      generalize Store.deleteFrom f tx (some loc) s = outcome at erases ⊢
      obtain ⟨r, s'⟩ := outcome
      cases erases with
      | elsewhere _ => exact ⟨hs, nofun⟩
      | unfetched _ had | vacant _ had _ => exact ⟨(of_fetch hs had).1, nofun⟩
      | @erased p p' s₁ _ got done =>
          obtain ⟨hs₁, made⟩ := of_fetch hs got
          have erased : p'.Made loc.page := (made p rfl).perform (e := .erase (some loc)) done
          have marked := erased.mark (some tx)
          refine ⟨hs₁.changed marked, ?_⟩
          rintro _ ⟨⟩
          exact marked.own

theorem afterMutate (table : TableId) : Delivers (fun _ => True) (Store.afterMutate table) := by
  refine bind get fun s _ => ?_
  split
  · exact pure trivial
  · exact bind (setHook _ _) fun _ _ => runActions fetch _

theorem readmit (tx : TxId) (h : p.Made p.id) : Delivers (fun _ => True) (Store.readmit tx p) :=
  keep (h.mark (some tx))

theorem delete (tx : TxId) (rid : Option RecordId) :
    Delivers (fun _ => True) (Store.delete tx rid) := by
  unfold Store.delete
  split
  · exact ofExcept nofun
  · refine bind (lookup _) fun e _ => bind (deleteFrom e.file tx _) fun p made => ?_
    exact bind (afterMutate _) fun _ _ => readmit tx made

theorem withCached {visit : HeapPage → StoreM Unit}
    (h : ∀ p, p.Made q → Delivers (fun _ => True) (visit p)) :
    Delivers (fun _ => True) (Store.withCached q visit) := by
  refine bind get fun s hs => ?_
  split
  next p here => exact h p (hs.pages q p here)
  next => exact pure trivial

theorem writeBack (h : p.Made q) : Delivers (fun _ => True) (Store.writeBack p) := by
  refine done fun s hs => ?_
  have ends := writesBack p s
  generalize Store.writeBack p s = outcome at ends ⊢
  obtain ⟨r, s'⟩ := outcome
  cases ends with
  | spared _ | refused _ _ => exact hs
  | @written disk _ _ => exact (hs.wrote disk).changed (h.mark none)

theorem flushPage (q : PageId) : Delivers (fun _ => True) (Store.flushPage q) :=
  withCached fun _ => writeBack

theorem flushAll : Delivers (fun _ => True) Store.flushAll :=
  bind get fun _ _ => forM flushPage _

theorem flushTx (tx : TxId) : Delivers (fun _ => True) (Store.flushTx tx) := by
  refine bind get fun s _ => forM (fun q => withCached fun p made => ?_) _
  split
  · exact writeBack made
  · exact pure trivial

theorem commitPage (tx : TxId) (h : p.Made q) :
    Delivers (fun _ => True) (Store.commitPage tx p) := by
  refine done fun s hs => ?_
  have ends := commitsPage tx p s
  generalize Store.commitPage tx p s = outcome at ends ⊢
  obtain ⟨r, s'⟩ := outcome
  cases ends with
  | refused _ _ => exact hs
  | @own disk _ _ => exact (hs.wrote disk).changed (h.mark none).snapshot
  | clean _ => exact hs.changed h.snapshot
  | foreign _ _ => exact hs.changed h

theorem rollbackPage (tx : TxId) (h : p.Made q) :
    Delivers (fun _ => True) (Store.rollbackPage tx p) := by
  have back {p' : HeapPage} (restored : p.restore = .ok p') : p'.Made q :=
    h.perform (e := .restore) restored
  refine done fun s hs => ?_
  have ends := rollsBackPage tx p s
  generalize Store.rollbackPage tx p s = outcome at ends ⊢
  obtain ⟨r, s'⟩ := outcome
  cases ends with
  | unrestored _ _ | same _ _ | foreign _ _ => exact hs
  | own _ restored | refused _ _ restored _ => exact hs.changed (back restored)
  | @flushed _ disk _ _ restored _ => exact (hs.wrote disk).changed (back restored)

theorem commit (tx : TxId) : Delivers (fun _ => True) (Store.commit tx) :=
  bind get fun _ _ => forM (fun _ => withCached fun _ => commitPage tx) _

theorem rollback (tx : TxId) : Delivers (fun _ => True) (Store.rollback tx) := by
  refine bind get fun s _ => forM (fun q => ?_) _
  split
  · exact withCached fun _ => rollbackPage tx
  · exact pure trivial

theorem complete (tx : TxId) (ending : Ending) :
    Delivers (fun _ => True) (Store.complete tx ending) := by
  refine done fun s hs => ?_
  cases ending with
  | commit =>
      have ended := (commit tx s hs).1
      exact ended.locked (ended.locks.releaseAll tx)
  | abort =>
      have ended := (rollback tx s hs).1
      exact ended.locked (ended.locks.releaseAll tx)

end Delivers

theorem Coherent.insert (hs : s.Coherent) (tx : TxId) (table : TableId) (t : Tuple) :
    (Store.insert tx table t s).2.Coherent := by
  have placed : Delivers (fun x : HeapPage × RecordId => x.1.Made x.1.id)
      (do Store.insertInto (← lookup table).file tx t) :=
    .bind (.lookup table) fun e _ => .insertInto e.file tx t
  have placed := placed s hs
  rw [insert_apply]
  generalize (do Store.insertInto (← lookup table).file tx t : StoreM (HeapPage × RecordId)) s =
    outcome at placed
  obtain ⟨_ | ⟨p, rid⟩, s₁⟩ := outcome
  · exact placed.1
  · have admitted := Delivers.bind (.afterMutate table) fun _ _ =>
      Delivers.readmit tx (placed.2 _ rfl)
    exact (admitted s₁ placed.1).1

end Store

open Store
variable {s : Store}

theorem Call.coherent (c : Call) (hs : s.Coherent) : (c.perform s).2.Coherent := by
  have mapped {α : Type} {Q : α → Prop} {x : StoreM α} {f : α → Answer} (h : Delivers Q x) :
      ((f <$> x) s).2.Coherent := by
    rw [map_apply]
    exact (h s hs).1
  cases c with
  | get tx page a => exact mapped (.fetch tx page a)
  | insert tx table t => exact hs.insert tx table t
  | delete tx rid => exact mapped (.delete tx rid)
  | flushPage page => exact mapped (.flushPage page)
  | flushAll => exact mapped .flushAll
  | flushTx tx => exact mapped (.flushTx tx)
  | discard page => exact hs.dropped page
  | release tx page => exact hs.locked (hs.locks.release tx page)
  | complete tx ending => exact mapped (.complete tx ending)

/-- A store that is coherent before is so afterwards. -/
theorem Store.onward_coherent : Onward fun s s' => s.Coherent → s'.Coherent where
  refl _ := id
  trans h₁ h₂ := h₂ ∘ h₁

theorem Act.coherent (a : Act) (hs : s.Coherent) : (a.perform s).2.Coherent := by
  cases a with
  | call c => exact c.coherent hs
  | insertInto f tx t => exact (Delivers.insertInto f tx t s hs).1
  | deleteFrom f tx rid => exact (Delivers.deleteFrom f tx rid s hs).1
  | scan sc request =>
      have fetch (q : PageId) :
          Keeping (fun s s' => s.Coherent → s'.Coherent) (Store.fetch sc.tx q .readOnly) :=
        fun s hs => (Delivers.fetch sc.tx q .readOnly s hs).1
      exact onward_coherent.request fetch request s hs

namespace Store

/-- The stores that a pool can meet from its set-up on. Clients act; they put pages of their making
in place of cached ones, hold on to pages to write to them, and make calls on the lock table; and in
between tables come and go, files change or fail in any way, and other pools are used. -/
inductive Arises : Store → Prop
  | opened {s : Store} {config : Config} (new : Pool.new? config = some s.pool)
      (keyed : s.catalog.Keyed) : Arises s
  | elsewhere {s : Store} (before : Arises s) {catalog : Catalog} (keyed : catalog.Keyed)
      (disk : Disk TableId) (parked : List Pool) : Arises { s with catalog, disk, parked }
  | acted {s : Store} (before : Arises s) (a : Act) : Arises (a.perform s).2
  | edited {s : Store} (before : Arises s) {p : HeapPage} (made : p.Made p.id) :
      Arises (put p s).2
  | latched {s : Store} (before : Arises s) (q : PageId) (latched : Bool) :
      Arises { s with pool.cache := s.pool.cache.setLatch q latched }
  | locked {s : Store} (before : Arises s) (c : LockCall) :
      Arises { s with pool.locks := c.perform s.pool.locks }

theorem Arises.coherent (h : Arises s) : s.Coherent := by
  induction h with
  | opened new keyed => exact .of_new new keyed
  | elsewhere _ keyed disk parked ih => exact ih.elsewhere keyed disk parked
  | acted _ a ih => exact a.coherent ih
  | edited _ made ih => exact ih.changed made
  | latched _ q latched ih => exact ih.latched q latched
  | locked _ c ih =>
      apply ih.locked
      exact LockTable.perform_induction ih.locks c ih.locks.acquire? ih.locks.release
        ih.locks.releaseAll

theorem arises_sample {bs : List UInt8} {capacity : Nat} (h : 0 < capacity)
    (hm : capacity ≤ Config.maxCapacity) : Arises (sample bs capacity h) :=
  .opened (opened_sample h hm).pool (opened_sample h hm).plain.keyed

/-- A row has been stored in a table that was empty. -/
def oneRow (capacity : Nat) (h : 0 < capacity) : Store :=
  ((Act.call sampleInsert).perform (sample [] capacity h)).2

theorem arises_oneRow {capacity : Nat} (h : 0 < capacity) (hm : capacity ≤ Config.maxCapacity) :
    Arises (oneRow capacity h) :=
  .acted (arises_sample h hm) (.call sampleInsert)

end Store
end HeapStore
