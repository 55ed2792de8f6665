import HeapStore.Proofs.Store.Getting
import HeapStore.Store.Shared

/-!
Pages that are shared are seen as pages that are not: what a call answers and what is seen
afterwards is the same. The page that a row has come to, or gone from, is the one that is cached,
and the most recently used, so to cache it once more does nothing.
-/

namespace HeapStore
open Std

theorem Store.delete_apply {s : Store} {e : Entry} {loc : RecordId}
    (listed : s.catalog.find loc.page.table = .ok e) (tx : TxId) :
    Store.delete tx (some loc) s = (do
      let p ← Store.deleteFrom e.file tx (some loc)
      afterMutate loc.page.table
      readmit tx p : StoreM Unit) s := by
  rw [Store.delete, Store.bind_apply, Store.lookup_apply, listed]

namespace Shared
variable {α β γ δ : Type} {m m' : Shared} {own : TableId} {q : PageId} {r : PageRef}
  {p : HeapPage} {tx : TxId}

theorem bind_apply (x : SharedM α) (f : α → SharedM β) (m : Shared) :
    (x >>= f) m = match x m with
      | (.ok a, m') => f a m'
      | (.error e, m') => (.error e, m') := by
  show (ExceptT.bindCont f (x m).1) (x m).2 = _
  rcases x m with ⟨o, m'⟩
  cases o <;> rfl

theorem bind_run (x : StateM Shared α) (f : α → StateM Shared β) (m : Shared) :
    (x >>= f) m = f (x m).1 (x m).2 :=
  rfl

@[simp] theorem pure_apply (a : α) (m : Shared) : (pure a : SharedM α) m = (.ok a, m) :=
  rfl

@[simp] theorem get_apply (m : Shared) : (get : SharedM Shared) m = (.ok m, m) :=
  rfl

theorem seen_table (m : Shared) (q : PageId) :
    m.seen.pool.cache.table[q]? = m.table[q]?.map m.frames :=
  ExtTreeMap.getElem?_map

theorem seen_cached (m : Shared) (q : PageId) : m.seen.cached q = m.table[q]?.map m.page := by
  rw [Store.cached, Cache.find?, seen_table, Option.map_map]
  rfl

/-- The cache is seen as `c` if it is so under each id. -/
theorem seen_eq {s : Store} {c : Cache} (h : m'.seen = { s with pool.cache := m'.seen.pool.cache })
    (capacity : c.capacity = m'.capacity) (ids : c.ids = m'.ids)
    (table : ∀ q : PageId, c.table[q]? = m'.table[q]?.map m'.frames) :
    m'.seen = { s with pool.cache := c } := by
  have same : m'.seen.pool.cache.table = c.table :=
    ExtTreeMap.ext_getElem? fun q => (m'.seen_table q).trans (table q).symm
  obtain ⟨_, _, _, _⟩ := c
  cases capacity
  cases ids
  cases same
  exact h

theorem seen_drop (m : Shared) (q : PageId) :
    (m.drop q).seen = { m.seen with pool.cache := m.seen.pool.cache.drop q } := by
  refine seen_eq rfl rfl rfl fun id => ?_
  simp only [Cache.drop, Shared.drop, ExtTreeMap.getElem?_erase, seen_table]
  split <;> rfl

theorem seen_place (frame : m.frames r = { page := p }) (q : PageId) :
    (m.place q r).seen = { m.seen with pool.cache := m.seen.pool.cache.place q p } := by
  refine seen_eq rfl rfl rfl fun id => ?_
  simp only [Cache.place, Cache.touch, Shared.place, Shared.touch, ExtTreeMap.getElem?_insert,
    seen_table, ← frame]
  split <;> rfl

theorem seen_victim? (m : Shared) : m.seen.pool.cache.victim? = m.victim? := by
  rw [Cache.victim?, victim?]
  congr 1
  funext q
  rw [seen_table]
  cases m.table[q]? <;> rfl

/-- Can be cached under `q`: it has been made, and goes by that id. Nobody is writing to it if it is
a page of the table at hand. -/
structure Fit (own : TableId) (m : Shared) (q : PageId) (r : PageRef) : Prop where
  made : r.number < m.made
  id : (m.page r).id = q
  free : q.table = own → (m.frames r).latched = false

theorem Fit.elsewhere (h : m.Fit own q r) (frame : m'.frames r = m.frames r)
    (made : m.made ≤ m'.made) : m'.Fit own q r where
  made := Nat.lt_of_lt_of_le h.made made
  id := (congrArg (·.page.id) frame).trans h.id
  free here := (congrArg Frame.latched frame).trans (h.free here)

/-- Every page is cached under its own id, so no two ids have the same page in memory. -/
structure Whole (own : TableId) (m : Shared) : Prop where
  plain : m.catalog.Plain
  nodup : m.ids.Nodup
  fit : ∀ (q : PageId) (r : PageRef), m.table[q]? = some r → m.Fit own q r

namespace Whole

/-- Locks and files are of no concern. -/
theorem elsewhere (h : m.Whole own) (disk : Disk TableId) (locks : LockTable) :
    Whole own { m with disk, locks } where
  plain := h.plain
  nodup := h.nodup
  fit q r hr := (h.fit q r hr).elsewhere rfl (Nat.le_refl _)

theorem touch (h : m.Whole own) (q : PageId) : (m.touch q).Whole own where
  plain := h.plain
  nodup := Cache.nodup_requeue h.nodup q
  fit q r hr := (h.fit q r hr).elsewhere rfl (Nat.le_refl _)

theorem drop (h : m.Whole own) (q : PageId) : (m.drop q).Whole own where
  plain := h.plain
  nodup := h.nodup.erase q
  fit q' r hr := by
    rw [Shared.drop, ExtTreeMap.getElem?_erase] at hr
    split at hr
    · cases hr
    · exact (h.fit q' r hr).elsewhere rfl (Nat.le_refl _)

theorem place (h : m.Whole own) (fit : m.Fit own q r) : (m.place q r).Whole own := by
  have inserted : Whole own { m with table := m.table.insert q r } := by
    refine ⟨h.plain, h.nodup, fun q' r' hr => ?_⟩
    simp only [ExtTreeMap.getElem?_insert, Std.compare_eq_iff_eq] at hr
    split at hr
    next same =>
      cases hr
      subst same
      exact fit.elsewhere rfl (Nat.le_refl _)
    next => exact (h.fit q' r' hr).elsewhere rfl (Nat.le_refl _)
  exact inserted.touch q

end Whole

/-- It is the page in memory that is cached under `q`, and the most recently used. -/
structure Had (q : PageId) (r : PageRef) (p : HeapPage) (m : Shared) : Prop where
  here : m.table[q]? = some r
  frame : m.frames r = { page := p }
  last : ∃ ids, m.ids = ids ++ [q]

theorem Had.page (h : Had q r p m) : m.page r = p :=
  congrArg Frame.page h.frame

theorem Had.id (h : Had q r p m) (whole : m.Whole own) : p.id = q :=
  h.page ▸ (whole.fit q r h.here).id

theorem Had.touch (here : m.table[q]? = some r) (frame : m.frames r = { page := p }) :
    Had q r p (m.touch q) :=
  ⟨here, frame, _, rfl⟩

theorem Had.place (frame : m.frames r = { page := p }) (q : PageId) : Had q r p (m.place q r) :=
  ⟨ExtTreeMap.getElem?_insert_self, frame, _, rfl⟩

/-- The last of the queue is put at its end. -/
theorem Had.touch_eq (h : Had q r p m) (whole : m.Whole own) : m.touch q = m := by
  obtain ⟨ids, last⟩ := h.last
  have nodup := whole.nodup
  rw [last] at nodup
  have same : m.ids.erase q ++ [q] = m.ids := by rw [last, Cache.requeue_last nodup]
  rw [Shared.touch, same]

theorem Had.place_eq (h : Had q r p m) (whole : m.Whole own) : m.place q r = m := by
  have same : m.table.insert q r = m.table := by
    apply ExtTreeMap.ext_getElem?
    intro q'
    rw [ExtTreeMap.getElem?_insert]
    split
    next eq => rw [← Std.compare_eq_iff_eq.mp eq, h.here]
    next => rfl
  rw [Shared.place, same]
  exact h.touch_eq whole

/-- How a call goes here, and how it is seen to go: they answer alike, and leave the same to be
seen. -/
inductive Shows (own : TableId) (R : α → β → Shared → Prop) :
    Except Error α × Shared → Except Error β × Store → Prop
  | ok {a : α} {b : β} {m : Shared} (whole : m.Whole own) (related : R a b m) :
      Shows own R (.ok a, m) (.ok b, m.seen)
  | error {e : Error} {m : Shared} (whole : m.Whole own) :
      Shows own R (.error e, m) (.error e, m.seen)

theorem Shows.bind {R : α → β → Shared → Prop} {R' : γ → δ → Shared → Prop} {x : SharedM α}
    {y : StoreM β} {f : α → SharedM γ} {g : β → StoreM δ} (h : Shows own R (x m) (y m.seen))
    (next : ∀ a b m', m'.Whole own → R a b m' → Shows own R' (f a m') (g b m'.seen)) :
    Shows own R' ((x >>= f) m) ((y >>= g) m.seen) := by
  rw [bind_apply, Store.bind_apply]
  generalize x m = o, y m.seen = o' at h
  cases h with
  | ok whole related => exact next _ _ _ whole related
  | error whole => exact .error whole

theorem Shows.mono {R R' : α → β → Shared → Prop} {o : Except Error α × Shared}
    {o' : Except Error β × Store} (h : Shows own R o o')
    (weaker : ∀ a b m, R a b m → R' a b m) : Shows own R' o o' := by
  cases h with
  | ok whole related => exact .ok whole (weaker _ _ _ related)
  | error whole => exact .error whole

theorem apart_apply (x : StoreM α) (m : Shared) :
    apart x m = ((x m.seen).1, { m with
      disk := (x m.seen).2.disk
      catalog := (x m.seen).2.catalog
      locks := (x m.seen).2.pool.locks }) :=
  rfl

/-- What is no concern of the cache goes here as it is seen to go. -/
theorem shows_apart {x : StoreM α} {o : Except Error α} {disk : Disk TableId} {locks : LockTable}
    (whole : m.Whole own) (still : x m.seen = (o, seen { m with disk, locks })) :
    Shows own (fun a b m' => o = .ok a ∧ a = b ∧ m' = { m with disk, locks }) (apart x m)
      (x m.seen) := by
  rw [apart_apply, still]
  cases o with
  | ok a => exact .ok (whole.elsewhere disk locks) ⟨rfl, rfl, rfl⟩
  | error e => exact .error (whole.elsewhere disk locks)

/-- To ask changes nothing. -/
theorem shows_asked {x : StoreM α} {o : Except Error α} (whole : m.Whole own)
    (still : x m.seen = (o, m.seen)) :
    Shows own (fun a b m' => o = .ok a ∧ a = b ∧ m' = m) (apart x m) (x m.seen) :=
  shows_apart whole still

theorem shows_ensure (whole : m.Whole own) (c : Prop) [Decidable c] (e : Error) :
    Shows own (fun _ _ m' => c ∧ m' = m) (apart (Store.ensure c e) m)
      (Store.ensure c e m.seen) := by
  unfold Store.ensure
  split
  next holds => exact (shows_asked whole rfl).mono fun _ _ _ asked => ⟨holds, asked.2.2⟩
  next => exact .error whole

theorem shows_passing {x : StoreM α} (whole : m.Whole own)
    (still : ∃ o disk locks, x m.seen = (o, seen { m with disk, locks })) :
    Shows own (fun _ _ _ => True) (apart x m) (x m.seen) := by
  obtain ⟨o, disk, locks, still⟩ := still
  exact (shows_apart whole still).mono fun _ _ _ _ => trivial

theorem shows_acquire (whole : m.Whole own) (tx : TxId) (q : PageId) (mode : LockMode) :
    Shows own (fun _ _ _ => True) (apart (Store.acquire tx q mode) m)
      (Store.acquire tx q mode m.seen) := by
  apply shows_passing whole
  rw [Store.acquire_apply]
  cases m.seen.pool.locks.acquire? tx q mode with
  | none => exact ⟨_, m.disk, m.locks, rfl⟩
  | some locks => exact ⟨_, m.disk, locks, rfl⟩

theorem shows_letGo (whole : m.Whole own) (held : Bool) (tx : TxId) (q : PageId) :
    Shows own (fun _ _ _ => True) (apart (Store.letGo held tx q) m)
      (Store.letGo held tx q m.seen) := by
  apply shows_passing whole
  rw [Store.letGo_apply]
  cases held with
  | true => exact ⟨_, m.disk, m.locks, rfl⟩
  | false => exact ⟨_, m.disk, m.locks.release tx q, rfl⟩

theorem shows_append (whole : m.Whole own) (f : HeapFile) :
    Shows own (fun _ _ _ => True) (apart (Store.append f) m) (Store.append f m.seen) := by
  apply shows_passing whole
  rw [Store.append_apply]
  cases f.appendPage m.seen.disk with
  | error e => exact ⟨_, m.disk, m.locks, rfl⟩
  | ok disk => exact ⟨_, disk, m.locks, rfl⟩

/-- What has been made last is nowhere referred to yet. -/
theorem make_apply (h : m.Whole own) (p : HeapPage) :
    ∃ m', make p m = (.ok ⟨m.made⟩, m') ∧ m'.Whole own ∧ m'.seen = m.seen ∧
      m'.frames ⟨m.made⟩ = { page := p } ∧ m.made < m'.made := by
  let m' : Shared := (make p m).2
  have other {q : PageId} {r : PageRef} (hr : m.table[q]? = some r) :
      m'.frames r = m.frames r := by
    refine if_neg ?_
    rintro rfl
    exact Nat.lt_irrefl _ (h.fit q _ hr).made
  refine ⟨m', rfl, ⟨h.plain, h.nodup, fun q r hr => ?_⟩, ?_, if_pos rfl, Nat.lt_succ_self _⟩
  · exact (h.fit q r hr).elsewhere (other hr) (Nat.le_succ _)
  · refine seen_eq (s := m.seen) (c := m.seen.pool.cache) rfl rfl rfl fun q => ?_
    rw [seen_table]
    show m.table[q]?.map m.frames = m.table[q]?.map m'.frames
    exact Option.map_congr fun r hr => (other hr).symm

/-- What is written to a page is seen where it is cached, and nowhere else. -/
theorem shows_write {p' : HeapPage} (whole : m.Whole own) (had : Had q r p m) (id : p'.id = q) :
    Shows own (fun _ _ m' => Had q r p' m') (write r p' m) (Store.put p' m.seen) := by
  let m' : Shared := (write r p' m).2
  have here : m'.frames r = { page := p' } :=
    (if_pos rfl).trans (congrArg (fun f : Frame => { f with page := p' }) had.frame)
  have other {q' : PageId} {r' : PageRef} (hr : m.table[q']? = some r') (ne : q' ≠ q) :
      m'.frames r' = m.frames r' := by
    refine if_neg ?_
    rintro rfl
    exact ne ((whole.fit q' r' hr).id.symm.trans (whole.fit q r' had.here).id)
  have whole' : m'.Whole own := by
    refine ⟨whole.plain, whole.nodup, fun q' r' hr => ?_⟩
    by_cases same : q' = q
    · subst same
      cases had.here.symm.trans hr
      exact ⟨(whole.fit q' r hr).made, (congrArg (·.page.id) here).trans id,
        fun _ => congrArg Frame.latched here⟩
    · exact (whole.fit q' r' hr).elsewhere (other hr same) (Nat.le_refl _)
  have seen' : m'.seen = (Store.put p' m.seen).2 := by
    rw [Store.put_apply]
    refine seen_eq rfl rfl rfl fun q' => ?_
    simp only [Cache.update, ExtTreeMap.getElem?_modify, Std.compare_eq_iff_eq, id, seen_table]
    show _ = m.table[q']?.map m'.frames
    by_cases same : q = q'
    · subst same
      rw [if_pos rfl, had.here, Option.map_some, Option.map_some, Option.map_some, here, had.frame]
    · rw [if_neg same]
      exact Option.map_congr fun r' hr => (other hr (Ne.symm same)).symm
  have written : Store.put p' m.seen = (.ok (), m'.seen) := by rw [seen']; rfl
  rw [written]
  exact .ok whole' ⟨had.here, here, had.last⟩

/-- What is cached is seen to be. -/
theorem shows_insert (whole : m.Whole own) (fit : m.Fit own q r)
    (frame : m.frames r = { page := p }) :
    Shows own (fun _ _ m' => Had q r p m') (insert q r m) (Store.keep q p m.seen) := by
  have contains : m.seen.pool.cache.contains q ↔ q ∈ m.table :=
    Cache.contains_iff.trans ExtTreeMap.mem_map
  have size : m.seen.pool.cache.size = m.table.size := ExtTreeMap.size_map
  have alike : (m.seen.pool.cache.contains q ∨
      m.seen.pool.cache.size < m.seen.pool.cache.capacity) ↔
      (q ∈ m.table ∨ m.table.size < m.capacity) := by
    rw [contains, size]
    rfl
  rw [Store.keep_apply, Cache.insert, Cache.evict, insert, seen_victim?]
  by_cases room : q ∈ m.table ∨ m.table.size < m.capacity
  · rw [if_pos room, if_pos (alike.mpr room), ← seen_place frame]
    exact .ok (whole.place fit) (.place frame q)
  · rw [if_neg room, if_neg (mt alike.mp room)]
    cases m.victim? with
    | none => exact .error whole
    | some victim =>
        have dropped := seen_drop m victim
        have placed := seen_place (m := m.drop victim) frame q
        rw [dropped] at placed
        have fit : (m.drop victim).Fit own q r := fit.elsewhere rfl (Nat.le_refl _)
        exact placed ▸ .ok ((whole.drop victim).place fit) (.place (m := m.drop victim) frame q)

theorem shows_cached? (whole : m.Whole own) (at_home : q.table = own) :
    Shows own (fun o o' m' => o = none ∧ o' = none ∧ m' = m ∨
        ∃ r p, o = some r ∧ o' = some p ∧ Had q r p m')
      (cached? q m) (Store.cached? q m.seen) := by
  have found := m.seen_cached q
  rw [Store.cached] at found
  rw [Store.cached?_apply, Cache.use, Cache.contains_eq, found, cached?]
  cases here : m.table[q]? with
  | none => exact .ok whole (.inl ⟨rfl, rfl, rfl⟩)
  | some r =>
      have frame : m.frames r = { page := m.page r } :=
        congrArg (Frame.mk (m.page r)) ((whole.fit q r here).free at_home)
      exact .ok (whole.touch q) (.inr ⟨r, m.page r, rfl, rfl, .touch here frame⟩)

/-- The page that is had is the one that is cached, if it has been so before or not. -/
theorem shows_fetch (whole : m.Whole own) (at_home : q.table = own) (tx : TxId) (a : Access) :
    Shows own (Had q) (fetch tx q a m) (Store.fetch tx q a m.seen) := by
  have uninterrupted : Store.fetch tx q a m.seen =
      Store.fetchWith (fun _ => pure ()) tx q a m.seen := by
    rw [Store.fetch_eq_obtain (whole.plain.unhooked q.table),
      Store.fetchWith_eq_obtain (whole.plain.unhooked q.table)]
  rw [uninterrupted]
  unfold fetch Store.fetchWith
  refine Shows.bind (shows_acquire whole tx q a.mode) fun _ _ m whole _ => ?_
  refine Shows.bind (shows_cached? whole at_home) fun _ _ m whole found => ?_
  rcases found with ⟨rfl, rfl, -⟩ | ⟨r, p, rfl, rfl, had⟩
  case inr => exact .ok whole had
  refine Shows.bind (shows_asked whole rfl) ?_
  rintro e _ m whole ⟨listed, rfl, rfl⟩
  have read : Store.read (fun _ => pure ()) e q = Store.readDirect e.file q :=
    funext fun s => Store.read_of_plain _ (whole.plain.unhooked q.table e listed) q s
  rw [read]
  refine Shows.bind (shows_asked whole rfl) ?_
  rintro p _ m whole ⟨read, rfl, rfl⟩
  obtain ⟨m', made, whole', seen, frame, number⟩ := make_apply whole p
  rw [bind_apply, made, ← seen]
  refine Shows.bind (shows_cached? whole' at_home) fun _ _ m'' whole'' found => ?_
  rcases found with ⟨rfl, rfl, rfl⟩ | ⟨r, p, rfl, rfl, had⟩
  case inr => exact .ok whole'' had
  have fit : m''.Fit own q ⟨m.made⟩ := by
    refine ⟨number, ?_, fun _ => congrArg Frame.latched frame⟩
    exact (congrArg (·.page.id) frame).trans (Store.asRead_of_readPage read).1.id
  exact Shows.bind (shows_insert whole'' fit frame) fun _ _ _ whole had => .ok whole had

/-- The page that `tx` has changed is the one that is cached under `q`, and the most recently
used. -/
structure Changed (tx : TxId) (q : PageId) (r : PageRef) (m : Shared) : Prop where
  here : m.table[q]? = some r
  id : (m.page r).id = q
  owner : (m.page r).dirtiedBy = some tx
  free : (m.frames r).latched = false
  last : ∃ ids, m.ids = ids ++ [q]

theorem Had.changed (h : Had q r p m) (id : p.id = q) (owner : p.dirtiedBy = some tx) :
    Changed tx q r m where
  here := h.here
  id := h.page ▸ id
  owner := h.page ▸ owner
  free := congrArg Frame.latched h.frame
  last := h.last

theorem Changed.had (h : Changed tx q r m) : Had q r (m.page r) m :=
  ⟨h.here, congrArg (Frame.mk (m.page r)) h.free, h.last⟩

/-- Where a row has been put. -/
def Placed (tx : TxId) (a : PageRef × RecordId) (b : HeapPage × RecordId) (m : Shared) : Prop :=
  a.2 = b.2 ∧ m.page a.1 = b.1 ∧ Changed tx b.2.page a.1 m

section Rows
variable {f : HeapFile}

theorem shows_tryPages (whole : m.Whole f.table) (tx : TxId) (t : Tuple) (numbers : List Nat) :
    Shows f.table (fun o o' m' => Option.Rel (Placed tx · · m') o o') (tryPages f tx t numbers m)
      (Store.tryPages f tx t numbers m.seen) := by
  induction numbers generalizing m with
  | nil => exact .ok whole .none
  | cons n numbers ih =>
      rw [tryPages, Store.tryPages, bind_apply, get_apply, Store.bind_apply, Store.get_apply]
      have fetched := shows_fetch (q := ⟨f.table, n⟩) whole rfl tx .readWrite
      refine Shows.bind fetched fun r p m₁ whole had => ?_
      rw [bind_apply, get_apply]
      simp only [had.page]
      split
      next full => exact Shows.bind (shows_letGo whole _ tx _) fun _ _ _ whole _ => ih whole
      next room =>
        refine Shows.bind (shows_asked whole rfl) ?_
        rintro ⟨p', rid⟩ _ m₁ whole ⟨fit, rfl, rfl⟩
        obtain ⟨same, page⟩ := HeapPage.id_of_insert fit
        have id := had.id whole
        refine Shows.bind (shows_write whole had (same.trans id)) fun _ _ m₂ whole had => ?_
        refine .ok whole (.some ⟨rfl, had.page, ?_⟩)
        exact page.trans id ▸ had.changed (same.trans id) rfl

theorem shows_search (whole : m.Whole f.table) (tx : TxId) (t : Tuple) (passes first : Nat) :
    Shows f.table (Placed tx) (search f tx t passes first m)
      (Store.search f tx t passes first m.seen) := by
  induction passes generalizing first m with
  | zero => exact .error whole
  | succ passes ih =>
      rw [search, Store.search, bind_apply, get_apply, Store.bind_apply, Store.get_apply]
      refine Shows.bind (shows_tryPages whole tx t _) fun _ _ m₁ whole tried => ?_
      cases tried with
      | some placed => exact .ok whole placed
      | none => exact Shows.bind (shows_append whole f) fun _ _ _ whole _ => ih whole _

theorem shows_putRow (whole : m.Whole f.table) (tx : TxId) (t : Tuple) :
    Shows f.table (Placed tx) (putRow f tx t m) (Store.insertInto f tx t m.seen) :=
  Shows.bind (shows_ensure whole _ _) fun _ _ _ whole _ => shows_search whole tx t _ 0

theorem shows_deleteFrom (whole : m.Whole f.table) (tx : TxId) (rid : Option RecordId) :
    Shows f.table
      (fun r p m' => m'.page r = p ∧ ∃ loc, rid = some loc ∧ Changed tx loc.page r m')
      (deleteFrom f tx rid m) (Store.deleteFrom f tx rid m.seen) := by
  cases rid with
  | none => exact .error whole
  | some loc =>
      refine Shows.bind (shows_ensure whole _ _) fun _ _ _ whole here => ?_
      refine Shows.bind (shows_fetch whole here.1 tx .readWrite) fun r p m₁ whole had => ?_
      rw [bind_apply, get_apply]
      simp only [had.page]
      refine Shows.bind (shows_asked whole rfl) ?_
      rintro p' _ m₁ whole ⟨erased, rfl, rfl⟩
      have id : p'.id = loc.page := (HeapPage.id_of_erase erased).trans (had.id whole)
      refine Shows.bind (shows_write whole had id) fun _ _ m₂ whole had => ?_
      exact .ok whole ⟨had.page, loc, rfl, had.changed id rfl⟩

end Rows

theorem write_eq_self (r : PageRef) (m : Shared) : write r (m.page r) m = (.ok (), m) := by
  have same : (fun r' => if r' = r then { m.frames r with page := m.page r } else m.frames r') =
      m.frames := by
    funext r'
    split
    next eq => rw [eq]; rfl
    next => rfl
  exact congrArg (fun frames => ((.ok (), { m with frames }) : Except Error Unit × Shared)) same

/-- To cache the changed page once more does nothing, for it is the very page that is cached. -/
theorem Changed.cacheDirty_eq (h : Changed tx q r m) (whole : m.Whole own) :
    cacheDirty tx r m = (.ok (), m) := by
  have marked : (m.page r).mark (some tx) = m.page r := HeapPage.mark_eq_self h.owner
  simp only [cacheDirty, bind_apply, get_apply, marked, write_eq_self, h.id, h.here, if_true,
    cached?, h.had.touch_eq whole, pure_apply]

/-- Where pages are not shared it is a copy that is cached, and that is the same to be seen. -/
theorem Changed.readmit_eq (h : Changed tx q r m) (whole : m.Whole own) (table : TableId) :
    (do Store.afterMutate table; Store.readmit tx (m.page r) : StoreM Unit) m.seen =
      (.ok (), m.seen) := by
  have marked : (m.page r).mark (some tx) = m.page r := HeapPage.mark_eq_self h.owner
  have contains : m.seen.pool.cache.contains q := by
    rw [Cache.contains_eq, show m.seen.pool.cache.find? q = _ from m.seen_cached q, h.here]
    rfl
  have placed := seen_place h.had.frame q
  rw [h.had.place_eq whole] at placed
  rw [Store.bind_apply, Store.afterMutate_of_plain whole.plain]
  simp only [marked, Store.readmit, h.id, Store.keep_apply,
    Cache.insert_of_contains contains, ← placed]
  rfl

/-- What it comes to that a table is to store a row: just what it comes to that its file is to. -/
structure StoresAsFile (f : HeapFile) (tx : TxId) (t : Tuple) (m : Shared)
    (o : Except Error (PageRef × RecordId)) (t' : Tuple) (m' : Shared) : Prop where
  file : insertInto f tx t m = ((o.map Prod.fst, t'), m')
  table : insertRow tx f.table t m = ((o.map fun _ => (), t'), m')
  fileSeen : Store.insertInto f tx t m.seen = (o.map fun a => (m'.page a.1, a.2), m'.seen)
  tableSeen : Store.insert tx f.table t m.seen = ((o.map fun _ => (), t'), m'.seen)
  failed : ∀ e, o = .error e → t' = t
  changed : ∀ r loc, o = .ok (r, loc) → t' = t.located (some loc) ∧ Changed tx loc.page r m' ∧
    cacheDirty tx r m' = (.ok (), m')

/-- What it comes to that a row is to be deleted, wherever it is: just what it comes to that its
file is to delete it. -/
structure DeletesAsFile (f : HeapFile) (tx : TxId) (rid : Option RecordId) (m : Shared)
    (o : Except Error PageRef) (m' : Shared) : Prop where
  file : deleteFrom f tx rid m = (o, m')
  table : deleteRow tx rid m = (o.map fun _ => (), m')
  fileSeen : Store.deleteFrom f tx rid m.seen = (o.map m'.page, m'.seen)
  tableSeen : Store.delete tx rid m.seen = (o.map fun _ => (), m'.seen)
  changed : ∀ r, o = .ok r → ∃ loc, rid = some loc ∧ Changed tx loc.page r m' ∧
    cacheDirty tx r m' = (.ok (), m')

theorem insertInto_apply (f : HeapFile) (tx : TxId) (t : Tuple) (m : Shared) :
    insertInto f tx t m = match putRow f tx t m with
      | (.error e, m') => ((.error e, t), m')
      | (.ok (r, rid), m') => ((.ok r, t.located (some rid)), m') := by
  rw [insertInto, bind_run, ExceptT.run]
  rcases putRow f tx t m with ⟨_ | ⟨r, rid⟩, m'⟩
  · rfl
  · rfl

theorem insertRow_apply {e : Entry} (listed : m.catalog.find e.file.table = .ok e) (tx : TxId)
    (t : Tuple) :
    insertRow tx e.file.table t m = match insertInto e.file tx t m with
      | ((.error e, t'), m') => ((.error e, t'), m')
      | ((.ok r, t'), m') => (((cacheDirty tx r m').1, t'), (cacheDirty tx r m').2) := by
  have found : apart (Store.lookup e.file.table) m = (.ok e, m) := congrArg (·, m) listed
  rw [insertRow, bind_run, ExceptT.run, found]
  simp only [bind_run]
  rcases insertInto e.file tx t m with ⟨⟨_ | r, t'⟩, m'⟩
  · rfl
  · rfl

theorem deleteRow_apply {e : Entry} {loc : RecordId}
    (listed : m.catalog.find loc.page.table = .ok e) (tx : TxId) :
    deleteRow tx (some loc) m = (deleteFrom e.file tx (some loc) >>= cacheDirty tx) m := by
  have found : apart (Store.lookup loc.page.table) m = (.ok e, m) := congrArg (·, m) listed
  rw [deleteRow, bind_apply, found]

theorem storesAsFile {e : Entry} (whole : m.Whole e.file.table)
    (listed : m.catalog.find e.file.table = .ok e) (tx : TxId) (t : Tuple) :
    ∃ o t' m', StoresAsFile e.file tx t m o t' m' := by
  have shows := shows_putRow whole tx t
  have file := insertInto_apply e.file tx t m
  have table := insertRow_apply listed tx t
  have tableSeen := Store.insert_apply tx e.file.table t m.seen
  rw [Store.bind_apply, Store.lookup_apply, show m.seen.catalog.find e.file.table = _ from listed]
    at tableSeen
  simp only at tableSeen
  rw [file] at table
  generalize putRow e.file tx t m = here, fileSeen : Store.insertInto e.file tx t m.seen =
    there at shows file tableSeen table
  cases shows with
  | @error err m' whole =>
      exact ⟨.error err, t, m', file, table, fileSeen, tableSeen, fun _ _ => rfl, nofun⟩
  | @ok a b m' whole placed =>
      obtain ⟨r, rid⟩ := a
      obtain ⟨p, _⟩ := b
      obtain ⟨rfl, rfl, changed⟩ := placed
      have still := changed.cacheDirty_eq whole
      simp only [still] at table
      simp only [changed.readmit_eq whole] at tableSeen
      refine ⟨.ok (r, rid), _, m', file, table, fileSeen, tableSeen, nofun, fun r' loc h => ?_⟩
      cases h
      exact ⟨rfl, changed, still⟩

theorem deletesAsFile {e : Entry} (whole : m.Whole e.file.table)
    (listed : m.catalog.find e.file.table = .ok e) (tx : TxId) {rid : Option RecordId}
    (here : ∀ loc, rid = some loc → loc.page.table = e.file.table) :
    ∃ o m', DeletesAsFile e.file tx rid m o m' := by
  have shows := shows_deleteFrom whole tx rid
  cases rid with
  | none => exact ⟨.error .noRecordId, m, rfl, rfl, rfl, rfl, nofun⟩
  | some loc =>
      have listed : m.catalog.find loc.page.table = .ok e := here loc rfl ▸ listed
      have table := deleteRow_apply listed tx
      have tableSeen := Store.delete_apply (s := m.seen) listed tx
      rw [bind_apply] at table
      rw [Store.bind_apply] at tableSeen
      generalize file : deleteFrom e.file tx (some loc) m = here,
        fileSeen : Store.deleteFrom e.file tx (some loc) m.seen = there
        at shows table tableSeen
      cases shows with
      | @error err m' whole => exact ⟨.error err, m', file, table, fileSeen, tableSeen, nofun⟩
      | @ok r p m' whole related =>
          obtain ⟨rfl, _, h, changed⟩ := related
          cases h
          have still := changed.cacheDirty_eq whole
          simp only [still] at table
          simp only [changed.readmit_eq whole] at tableSeen
          refine ⟨.ok r, m', file, table, fileSeen, tableSeen, fun r' h => ?_⟩
          cases h
          exact ⟨loc, rfl, changed, still⟩

/-- Each cached page is in memory once, numbered by its place in the queue. -/
def unshared (s : Store) : Shared where
  disk := s.disk
  catalog := s.catalog
  config := s.pool.config
  locks := s.pool.locks
  parked := s.parked
  frames r := (s.pool.cache.ids[r.number]?.bind fun q => s.pool.cache.table[q]?).getD
    { page := .empty Store.samplePage Store.sampleEntry.file.schema }
  made := s.pool.cache.ids.length
  capacity := s.pool.cache.capacity
  capacity_pos := s.pool.cache.capacity_pos
  table := s.pool.cache.table.map fun q _ => ⟨s.pool.cache.ids.idxOf q⟩
  ids := s.pool.cache.ids

variable {s : Store} {f : Frame}

theorem frames_unshared (ordered : s.pool.cache.Ordered) (here : s.pool.cache.table[q]? = some f) :
    s.pool.cache.ids.idxOf q < (unshared s).made ∧
      (unshared s).frames ⟨s.pool.cache.ids.idxOf q⟩ = f := by
  have listed : q ∈ s.pool.cache.ids :=
    (ordered.listed q).mpr (Cache.contains_of_frame here)
  refine ⟨List.idxOf_lt_length_iff.mpr listed, ?_⟩
  simp only [unshared, List.getElem?_idxOf listed, Option.bind_some, here, Option.getD_some]

theorem whole_unshared (ordered : s.pool.cache.Ordered) (plain : s.catalog.Plain)
    (free : ∀ (q : PageId) (f : Frame), s.pool.cache.table[q]? = some f → q.table = own →
      f.latched = false) : (unshared s).Whole own where
  plain := plain
  nodup := ordered.nodup
  fit q r h := by
    rw [unshared, ExtTreeMap.getElem?_map, Option.map_eq_some_iff] at h
    obtain ⟨f, here, rfl⟩ := h
    obtain ⟨made, frame⟩ := frames_unshared ordered here
    refine ⟨made, (congrArg (·.page.id) frame).trans ?_, fun at_home => ?_⟩
    · exact ordered.keyed q f.page (Cache.find?_of_frame here)
    · exact (congrArg Frame.latched frame).trans (free q f here at_home)

theorem seen_unshared (ordered : s.pool.cache.Ordered) : (unshared s).seen = s := by
  refine seen_eq (s := s) (c := s.pool.cache) rfl rfl rfl fun q => ?_
  show _ = (s.pool.cache.table.map _)[q]?.map (unshared s).frames
  rw [ExtTreeMap.getElem?_map, Option.map_map]
  cases here : s.pool.cache.table[q]? with
  | none => rfl
  | some f => exact congrArg some (frames_unshared ordered here).2.symm

/-- Whatever the pages in memory are that a store is made of: if nobody else is writing to a page of
a table, the table stores a row and deletes one just as its file does, for the changed page is the
one that is cached, and the most recently used, already. -/
theorem changed_page_is_cached_already (arises : Store.Arises s) (plain : s.catalog.Plain)
    {e : Entry} (listed : s.catalog.find e.file.table = .ok e)
    (free : ∀ (q : PageId) (f : Frame), s.pool.cache.table[q]? = some f → q.table = e.file.table →
      f.latched = false) (tx : TxId) :
    (∃ m : Shared, m.Whole e.file.table ∧ m.seen = s) ∧
      ∀ m : Shared, m.Whole e.file.table → m.seen = s →
        (∀ t, ∃ o t' m', StoresAsFile e.file tx t m o t' m') ∧
        ∀ rid : Option RecordId, (∀ loc, rid = some loc → loc.page.table = e.file.table) →
          ∃ o m', DeletesAsFile e.file tx rid m o m' := by
  have ordered := arises.coherent.cache
  refine ⟨⟨unshared s, whole_unshared ordered plain free, seen_unshared ordered⟩, ?_⟩
  rintro m whole rfl
  exact ⟨storesAsFile whole listed tx, fun rid here => deletesAsFile whole listed tx here⟩

open Store in
/-- There is no room for another page, but the changed page needs none. -/
theorem crowded_changed_page_is_cached_already :
    ∃ m : Shared, m.seen = crowded ∧
      (∃ r t' m', insertInto sampleEntry.file ⟨1⟩ (sampleRow "b") m = ((.ok r, t'), m') ∧
        insertRow ⟨1⟩ (.file 0) (sampleRow "b") m = ((.ok (), t'), m') ∧
        cacheDirty ⟨1⟩ r m' = (.ok (), m')) ∧
      ∃ r m', deleteFrom sampleEntry.file ⟨1⟩ (some ⟨samplePage, 0⟩) m = (.ok r, m') ∧
        deleteRow ⟨1⟩ (some ⟨samplePage, 0⟩) m = (.ok (), m') ∧
        cacheDirty ⟨1⟩ r m' = (.ok (), m') := by
  have listed : crowded.catalog.find sampleEntry.file.table = .ok sampleEntry := by
    decide +kernel
  obtain ⟨⟨m, whole, seen⟩, alike⟩ := changed_page_is_cached_already arises_crowded
    (Catalog.plain_default.add rfl) listed (fun _ _ here _ => (frame_crowded here).1) ⟨1⟩
  obtain ⟨stores, deletes⟩ := alike m whole seen
  obtain ⟨o, t', m₁, stored⟩ := stores (sampleRow "b")
  obtain ⟨o', m₂, deleted⟩ := deletes (some ⟨samplePage, 0⟩) (by rintro _ ⟨⟩; rfl)
  have fits : (Store.insertInto sampleEntry.file ⟨1⟩ (sampleRow "b") crowded).1.isOk := by
    decide +kernel
  have there : (Store.deleteFrom sampleEntry.file ⟨1⟩ (some ⟨samplePage, 0⟩) crowded).1.isOk := by
    decide +kernel
  rw [← seen, stored.fileSeen] at fits
  rw [← seen, deleted.fileSeen] at there
  refine ⟨m, seen, ?_, ?_⟩
  · cases o with
    | error e => cases fits
    | ok placed => exact ⟨_, t', m₁, stored.file, stored.table, (stored.changed _ _ rfl).2.2⟩
  · cases o' with
    | error e => cases there
    | ok r =>
        obtain ⟨_, _, _, still⟩ := deleted.changed r rfl
        exact ⟨r, m₂, deleted.file, deleted.table, still⟩

end Shared
end HeapStore
