import HeapStore.Proofs.Lock.Grants
import HeapStore.Proofs.Store.Arising
import HeapStore.Proofs.Store.Hindered

/-!
What writing pages leaves alone, in the cache and byte by byte in the files. Whatever is written and
whatever is put in place is a page of a given set, so every page outside of it is as it was, also
when a write is refused half way. The end of a transaction keeps to the pages that it has locked.
-/

namespace HeapStore
open Std Bytes

namespace Disk
variable {W W' : PageId → Prop} {d d' d₁ : Disk TableId}

/-- Nothing is different but for pages of `W` that have been written: every other block of a file is
as it was, and a file is longer only as far as such a page reaches. -/
structure Patched (W : PageId → Prop) (d d' : Disk TableId) : Prop where
  frame : d' = { d with contents := d'.contents }
  block : ∀ (file : FileId TableId) (n : Nat), ¬ W ⟨file.name, n⟩ →
    block (d'.content file) pageSize n = block (d.content file) pageSize n
  length : ∀ file : FileId TableId, d'.length file = d.length file ∨
    ∃ n, W ⟨file.name, n⟩ ∧ d.length file < (n + 1) * pageSize ∧
      d'.length file = (n + 1) * pageSize

theorem Patched.refl (W : PageId → Prop) (d : Disk TableId) : d.Patched W d :=
  ⟨rfl, fun _ _ _ => rfl, fun _ => .inl rfl⟩

theorem Patched.mono (h : d.Patched W d') (hW : ∀ q, W q → W' q) : d.Patched W' d' where
  frame := h.frame
  block file n hn := h.block file n (mt (hW _) hn)
  length file := (h.length file).imp_right fun ⟨n, hn, longer⟩ => ⟨n, hW _ hn, longer⟩

theorem Patched.trans (h : d.Patched W d₁) (h' : d₁.Patched W d') : d.Patched W d' where
  frame := by rw [h'.frame, h.frame]
  block file n hn := (h'.block file n hn).trans (h.block file n hn)
  length file := by
    rcases h'.length file with same | ⟨n, hn, longer, ends⟩
    · rw [same]
      exact h.length file
    · rcases h.length file with same | ⟨m, _, longer', ends'⟩
      · rw [same] at longer
        exact .inr ⟨n, hn, longer, ends⟩
      · exact .inr ⟨n, hn, by omega, ends⟩

theorem Patched.faults (h : d.Patched W d') : d'.faults = d.faults := by
  rw [h.frame]

end Disk

namespace HeapFile
variable {f : HeapFile} {d d' : Disk TableId} {W : PageId → Prop} {n : Nat}

theorem patched_of_write {data : List UInt8} (hl : data.length = pageSize)
    (h : d.write f.id (n * pageSize) data = .ok d') : d.Patched (· = ⟨f.table, n⟩) d' := by
  have hne : data ≠ [] := by
    rintro rfl
    exact absurd hl (by decide)
  have written := Disk.written_of_write hne h
  refine ⟨written.frame, fun file m hm => ?_, fun file => ?_⟩
  · rw [written.content]
    split
    next same =>
      subst same
      apply block_writeAt_of_ne hl
      rintro rfl
      exact hm rfl
    next => rfl
  · rw [Disk.length, written.content]
    split
    next same =>
      subst same
      rw [length_writeAt hne, hl, ← Nat.succ_mul, Disk.length]
      rcases Nat.lt_or_ge (d.content f.id).length ((n + 1) * pageSize) with short | long
      · exact .inr ⟨n, rfl, short, Nat.max_eq_right (Nat.le_of_lt short)⟩
      · exact .inl (Nat.max_eq_left long)
    next => exact .inl rfl

theorem blockAt_of_patched (h : d.Patched W d') (f : HeapFile) (hn : ¬ W ⟨f.table, n⟩) :
    f.blockAt d' n = f.blockAt d n :=
  h.block f.id n hn

end HeapFile

/-- Who lets go of all locks has none. -/
theorem LockTable.lockless_releaseAll {t : LockTable} (ht : t.Consistent) (tx : TxId) :
    (t.releaseAll tx).pagesOf tx = [] ∧ ∀ q, (t.releaseAll tx).mode? tx q = none := by
  have lockless (q : PageId) : (t.releaseAll tx).mode? tx q = none := by
    rw [mode?_releaseAll ht, if_pos rfl]
  refine ⟨List.eq_nil_iff_forall_not_mem.mpr fun q listed => ?_, lockless⟩
  have holds := (ht.releaseAll tx).listed.mp listed
  rw [lockless q] at holds
  cases holds

namespace Store
variable {α β : Type} {S S' W W' : PageId → Prop} {s s' s₁ : Store} {tx : TxId} {q : PageId}
  {p p' : HeapPage} {ending : Ending}

/-- The file of the table of `q` has these bytes in the place of `q`. -/
def OnDisk (s : Store) (q : PageId) (bytes : List UInt8) : Prop :=
  ∃ e, s.catalog.find q.table = .ok e ∧ q.number < e.file.numPages s.disk ∧
    e.file.blockAt s.disk q.number = bytes

theorem patched_of_writing {disk : Disk TableId} (keyed : s.catalog.Keyed)
    (h : s.writing p = .ok disk) :
    s.disk.Patched (· = p.id) disk ∧ OnDisk { s with disk } p.id p.image := by
  obtain ⟨e, found, written⟩ := writing_ok h
  obtain ⟨_, wrote⟩ := HeapFile.writePage_ok written
  have patched := HeapFile.patched_of_write p.length_image (HeapFile.write_of_writePage written)
  rw [keyed _ _ (Catalog.find_ok found)] at patched
  refine ⟨patched, e, found, ?_, ?_⟩
  · rw [wrote.numPages]
    exact Nat.lt_of_lt_of_le (Nat.lt_succ_self _) (Nat.le_max_right ..)
  · rw [wrote.blockAt, if_pos rfl]

/-- Nothing is different but for pages of `S` in the cache and pages of `W` in the files. -/
structure Touches (S W : PageId → Prop) (s s' : Store) : Prop where
  frame : s' = { s with disk := s'.disk, pool.cache := s'.pool.cache }
  unmoved : s.pool.cache.Unmoved s'.pool.cache
  cached : ∀ q, ¬ S q → s'.cached q = s.cached q
  disk : s.disk.Patched W s'.disk

theorem Touches.refl (S W : PageId → Prop) (s : Store) : Touches S W s s :=
  ⟨rfl, ⟨rfl, fun _ => rfl⟩, fun _ _ => rfl, .refl W s.disk⟩

theorem Touches.trans (h : Touches S W s s₁) (h' : Touches S W s₁ s') : Touches S W s s' where
  frame := by rw [h'.frame, h.frame]
  unmoved := ⟨h'.unmoved.ids.trans h.unmoved.ids,
    fun id => (h'.unmoved.latched id).trans (h.unmoved.latched id)⟩
  cached q hq := (h'.cached q hq).trans (h.cached q hq)
  disk := h.disk.trans h'.disk

theorem Touches.mono (h : Touches S W s s') (hS : ∀ q, S q → S' q) (hW : ∀ q, W q → W' q) :
    Touches S' W' s s' :=
  ⟨h.frame, h.unmoved, fun q hq => h.cached q (mt (hS q) hq), h.disk.mono hW⟩

theorem Touches.catalog (h : Touches S W s s') : s'.catalog = s.catalog := by
  rw [h.frame]

theorem Touches.locks (h : Touches S W s s') : s'.pool.locks = s.pool.locks := by
  rw [h.frame]

/-- No page comes or goes. -/
theorem Touches.isSome_cached (h : Touches S W s s') (q : PageId) :
    (s'.cached q).isSome = (s.cached q).isSome := by
  have latched := congrArg Option.isSome (h.unmoved.latched q)
  simpa only [Option.isSome_map, Store.cached, Cache.find?] using latched

theorem touches_put (p : HeapPage) (s : Store) :
    Touches (· = p.id) (fun _ => False) s (put p s).2 where
  frame := rfl
  unmoved := s.pool.cache.unmoved_update p
  cached q hq := by
    show (s.pool.cache.update p).find? q = _
    rw [Cache.find?_update, if_neg hq]
    rfl
  disk := .refl _ s.disk

theorem touches_of_disk {disk : Disk TableId} (h : s.disk.Patched W disk) :
    Touches (fun _ => False) W s { s with disk } :=
  ⟨rfl, ⟨rfl, fun _ => rfl⟩, fun _ _ => rfl, h⟩

/-- Where tables go by their ids and the cache is in order, it is so afterwards, and nothing but
pages of `S` is touched. -/
def Confines (S : PageId → Prop) (s s' : Store) : Prop :=
  s.catalog.Keyed → s.pool.cache.Ordered → s'.pool.cache.Ordered ∧ Touches S S s s'

theorem confining (S : PageId → Prop) : Onward (Confines S) where
  refl s _ ordered := ⟨ordered, .refl S S s⟩
  trans h h' keyed ordered := by
    obtain ⟨ordered₁, touches⟩ := h keyed ordered
    obtain ⟨ordered₂, touches'⟩ := h' (touches.catalog ▸ keyed) ordered₁
    exact ⟨ordered₂, touches.trans touches'⟩

theorem Onward.forM_of_mem {R : Store → Store → Prop} (hR : Onward R) {f : α → StoreM Unit}
    {as : List α} (h : ∀ a ∈ as, Keeping R (f a)) : Keeping R (as.forM f) := by
  induction as with
  | nil => exact hR.pure ()
  | cons a as ih =>
      exact hR.bind (h a (List.mem_cons_self ..)) fun _ =>
        ih fun a' ha' => h a' (List.mem_cons_of_mem a ha')

namespace Confines

theorem put (h : S p.id) : Keeping (Confines S) (Store.put p) := by
  intro s _ ordered
  refine ⟨ordered.update p, (touches_put p s).mono ?_ nofun⟩
  rintro _ rfl
  exact h

theorem written {disk : Disk TableId} (h : S p.id) (wrote : s.writing p = .ok disk) :
    Confines S s { s with disk } := by
  intro keyed ordered
  refine ⟨ordered, (touches_of_disk (patched_of_writing keyed wrote).1).mono nofun ?_⟩
  rintro _ rfl
  exact h

theorem withCached {visit : HeapPage → StoreM Unit} (h : S q)
    (hv : ∀ p, S p.id → Keeping (Confines S) (visit p)) :
    Keeping (Confines S) (Store.withCached q visit) := by
  intro s keyed ordered
  rw [withCached_apply]
  cases hp : s.cached q with
  | none => exact ⟨ordered, .refl S S s⟩
  | some p =>
      have id : p.id = q := ordered.keyed q p hp
      exact hv p (id ▸ h) s keyed ordered

theorem commitPage (tx : TxId) (h : S p.id) : Keeping (Confines S) (Store.commitPage tx p) := by
  intro s
  have ends := commitsPage tx p s
  generalize Store.commitPage tx p s = outcome at ends ⊢
  obtain ⟨r, s'⟩ := outcome
  cases ends with
  | refused _ _ => exact (confining S).refl _
  | own _ wrote =>
      exact (confining S).trans (written h wrote) (put (p := (p.mark none).snapshot) h _)
  | clean _ => exact put (p := p.snapshot) h _
  | foreign _ _ => exact put h _

theorem rollbackPage (tx : TxId) (h : S p.id) :
    Keeping (Confines S) (Store.rollbackPage tx p) := by
  have back {p' : HeapPage} (restored : p.restore = .ok p') : S p'.id :=
    (restore_ok restored).1 ▸ h
  intro s
  have ends := rollsBackPage tx p s
  generalize Store.rollbackPage tx p s = outcome at ends ⊢
  obtain ⟨r, s'⟩ := outcome
  cases ends with
  | unrestored _ _ | same _ _ | foreign _ _ => exact (confining S).refl _
  | own _ restored | refused _ _ restored _ => exact put (back restored) _
  | flushed _ _ restored wrote =>
      exact (confining S).trans (written (back restored) wrote) (put (back restored) _)

end Confines

theorem rollback_apply (tx : TxId) (s : Store) :
    rollback tx s =
      (Ending.abort.pages tx s).forM (fun q => withCached q (rollbackPage tx)) s := by
  rw [Ending.pages, ← forM_if]
  rfl

/-- Before its locks go, the end of a transaction has touched no pages but those in its reach. -/
theorem complete_touches (hs : s.Coherent) (tx : TxId) (ending : Ending) :
    ∃ s₁, Touches (fun q => ending.Reaches (s.mode? tx q)) (fun q => ending.Reaches (s.mode? tx q))
        s s₁ ∧
      (complete tx ending s).2 = { s₁ with pool.locks := s.pool.locks.releaseAll tx } := by
  have ended {x : StoreM Unit} {visit : HeapPage → StoreM Unit} {pages : List PageId}
      (hx : x s = pages.forM (fun q => withCached q visit) s)
      (reached : ∀ q ∈ pages, ending.Reaches (s.mode? tx q))
      (hv : ∀ (S : PageId → Prop) (p : HeapPage), S p.id → Keeping (Confines S) (visit p)) :
      Touches (fun q => ending.Reaches (s.mode? tx q)) (fun q => ending.Reaches (s.mode? tx q))
        s (x s).2 := by
    rw [hx]
    exact ((confining _).forM_of_mem (fun q hq => .withCached (reached q hq) (hv _)) s hs.catalog
      hs.cache).2
  cases ending with
  | commit =>
      have touches := ended (x := commit tx) rfl
        (fun q hq => (Ending.mem_pages hs.locks).mp hq) fun S p => Confines.commitPage tx
      exact ⟨(commit tx s).2, touches, by rw [← touches.locks]; rfl⟩
  | abort =>
      have touches := ended (x := rollback tx) (rollback_apply tx s)
        (fun q hq => (Ending.mem_pages hs.locks).mp hq) fun S p => Confines.rollbackPage tx
      exact ⟨(rollback tx s).2, touches, by rw [← touches.locks]; rfl⟩

/-- The end of a transaction leaves alone what is not its own: it has no locks afterwards, and every
lock of another, the queue, and every page out of its reach are as they were. -/
structure KeepsToOwn (tx : TxId) (ending : Ending) (s s' : Store) : Prop where
  lockless : s'.pool.locks.pagesOf tx = [] ∧ ∀ q, s'.mode? tx q = none
  locks : ∀ g : Grant, g.tx ≠ tx → (g ∈ s'.pool.locks.granted ↔ g ∈ s.pool.locks.granted)
  ids : s'.pool.cache.ids = s.pool.cache.ids
  members : ∀ q, (s'.cached q).isSome = (s.cached q).isSome
  cached : ∀ q, ¬ ending.Reaches (s.mode? tx q) → s'.cached q = s.cached q
  files : s.disk.Patched (fun q => ending.Reaches (s.mode? tx q)) s'.disk

/-- Whatever comes of it, the end of a transaction keeps to the pages that the transaction has
locked, and an abort to those that it has locked to write. -/
theorem end_keeps_to_own (arises : Arises s) (tx : TxId) (ending : Ending) :
    KeepsToOwn tx ending s (complete tx ending s).2 := by
  have hs := arises.coherent
  obtain ⟨s₁, touches, ended⟩ := complete_touches hs tx ending
  rw [ended]
  constructor
  case lockless => exact LockTable.lockless_releaseAll hs.locks tx
  case locks =>
    intro g other
    rw [LockTable.granted_releaseAll hs.locks]
    exact and_iff_left other
  case ids => exact touches.unmoved.ids
  case members => exact touches.isSome_cached
  case cached => exact touches.cached
  case files => exact touches.disk

/-- A row has been stored in each of two tables, in the second one by `tx`. -/
def twoRows (tx : TxId) : Store :=
  ((Act.call (.insert tx otherEntry.file.table (sampleRow "b"))).perform
    { oneRow 2 Nat.two_pos with catalog := bothTables, disk := {}, parked := [] }).2

theorem plain_bothTables : bothTables.Plain :=
  (Catalog.plain_default.add rfl).add rfl

theorem arises_twoRows (tx : TxId) : Arises (twoRows tx) :=
  .acted ((arises_oneRow Nat.two_pos (by decide)).elsewhere plain_bothTables.keyed {} []) _

/-- The row of the one is stored for good, and that of the other is as it was. -/
theorem commit_keeps_to_own :
    let s := twoRows ⟨2⟩
    let s' := (complete ⟨1⟩ .commit s).2
    (s.cached otherPage).map (·.dirtiedBy) = some (some ⟨2⟩) ∧
      s'.cached otherPage = s.cached otherPage ∧ s'.mode? ⟨1⟩ samplePage = none ∧
      ⟨⟨2⟩, otherPage, .exclusive⟩ ∈ s'.pool.locks.granted := by
  intro s s'
  obtain ⟨dirty, unlocked, exclusive⟩ :
      (s.cached otherPage).map (·.dirtiedBy) = some (some ⟨2⟩) ∧ s.mode? ⟨1⟩ otherPage = none ∧
      (s.pool.locks.on otherPage).exclusive = some ⟨2⟩ := by
    decide +kernel
  have arises : Arises s := arises_twoRows ⟨2⟩
  have ended : KeepsToOwn ⟨1⟩ .commit s s' := end_keeps_to_own arises ⟨1⟩ .commit
  have unreached : ¬ Ending.commit.Reaches (s.mode? ⟨1⟩ otherPage) := by
    rw [unlocked]
    exact Bool.false_ne_true
  have locked := (ended.locks ⟨⟨2⟩, otherPage, .exclusive⟩ (by decide)).mpr
    (LockTable.exclusive_mem_granted.mpr exclusive)
  exact ⟨dirty, ended.cached otherPage unreached, ended.lockless.2 samplePage, locked⟩

end Store
end HeapStore
