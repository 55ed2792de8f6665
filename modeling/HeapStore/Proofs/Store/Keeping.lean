import HeapStore.Act
import HeapStore.Proofs.Store.Visits

/-!
What calls keep wherever they start, hooks and all. To get a page takes locks, wears hooks off, and
does to the cache what may be done to a cache; a relation that is kept by each of these is kept by
whatever is put together from them, so by requests for pages, by deletions and by scans. If it does
not mind what becomes of the files, it is kept by whatever writes pages.
-/

namespace HeapStore.Store
variable {α β : Type} {R : Store → Store → Prop} {s s' s₁ : Store} {tx : TxId} {q : PageId}

/-- How a store is related to what it was, from step to step. -/
structure Onward (R : Store → Store → Prop) : Prop where
  refl : ∀ s, R s s
  trans : ∀ {s s₁ s₂}, R s s₁ → R s₁ s₂ → R s s₂

/-- The same if locks may be granted, the catalog is of no concern, and pages may be used, changed
in place, cached under their ids and dropped. -/
structure Careful (R : Store → Store → Prop) : Prop extends Onward R where
  catalog : ∀ s catalog, R s { s with catalog }
  granted : ∀ {s : Store} {tx q m locks}, s.pool.locks.acquire? tx q m = some locks →
    R s { s with pool.locks := locks }
  used : ∀ s q, R s { s with pool.cache := s.pool.cache.use q }
  changed : ∀ s p, R s { s with pool.cache := s.pool.cache.update p }
  kept : ∀ s {q} {p : HeapPage}, p.id = q →
    R s { s with pool.cache := (s.pool.cache.insert q p).2 }
  dropped : ∀ s q, R s { s with pool.cache := s.pool.cache.remove q }

/-- The same if the cache is of no concern. -/
structure Lenient (R : Store → Store → Prop) : Prop extends Careful R where
  cache : ∀ s cache, R s { s with pool.cache := cache }
  used s _ := cache s _
  changed s _ := cache s _
  kept s _ _ _ := cache s _
  dropped s _ := cache s _

/-- The same if pages may be changed in place, and written to files. -/
structure Rewriting (R : Store → Store → Prop) : Prop extends Onward R where
  changed : ∀ s p, R s { s with pool.cache := s.pool.cache.update p }
  wrote : ∀ {s : Store} {file offset data disk}, s.disk.write file offset data = .ok disk →
    R s { s with disk }

/-- The same if the files are of no concern. -/
structure Writing (R : Store → Store → Prop) : Prop extends Rewriting R where
  disk : ∀ s disk, R s { s with disk }
  wrote _ := disk _ _

/-- However a call ends, the store is related to what it was. -/
def Keeping (R : Store → Store → Prop) (x : Store → α × Store) : Prop :=
  ∀ s, R s (x s).2

namespace Onward

theorem same (hR : Onward R) {x : Store → α × Store} (h : ∀ s, (x s).2 = s) : Keeping R x := by
  intro s
  rw [h]
  exact hR.refl s

/-- What comes second may rely on what comes first having gone well. -/
theorem bind_of (hR : Onward R) {x : StoreM α} {f : α → StoreM β} (hx : Keeping R x)
    (hf : ∀ {s a s₁}, x s = (.ok a, s₁) → R s₁ (f a s₁).2) : Keeping R (x >>= f) := by
  intro s
  have first := hx s
  rw [bind_apply]
  cases h : x s with
  | mk r s₁ =>
      rw [h] at first
      cases r with
      | error e => exact first
      | ok a => exact hR.trans first (hf h)

theorem bind (hR : Onward R) {x : StoreM α} {f : α → StoreM β} (hx : Keeping R x)
    (hf : ∀ a, Keeping R (f a)) : Keeping R (x >>= f) :=
  hR.bind_of hx fun _ => hf _ _

theorem pure (hR : Onward R) (a : α) : Keeping R (Pure.pure a : StoreM α) :=
  hR.same fun _ => rfl

theorem ofExcept (hR : Onward R) (r : Except Error α) : Keeping R (Store.ofExcept r) :=
  hR.same fun _ => rfl

theorem get (hR : Onward R) : Keeping R (MonadState.get : StoreM Store) :=
  hR.same fun _ => rfl

theorem lookup (hR : Onward R) (table : TableId) : Keeping R (Store.lookup table) :=
  hR.same fun _ => rfl

theorem ensure (hR : Onward R) (c : Prop) [Decidable c] (e : Error) :
    Keeping R (Store.ensure c e) := by
  unfold Store.ensure
  split
  · exact hR.pure ()
  · exact hR.same fun _ => rfl

theorem forM (hR : Onward R) {f : α → StoreM Unit} (h : ∀ a, Keeping R (f a)) (as : List α) :
    Keeping R (as.forM f) := by
  induction as with
  | nil => exact hR.pure ()
  | cons a as ih => exact hR.bind (h a) fun _ => ih

section Scans
variable {sc : Scan}

theorem load (hR : Onward R) (fetch : ∀ q, Keeping R (Store.fetch sc.tx q .readOnly)) (n : Nat) :
    Keeping R (sc.load Store.fetch n) :=
  hR.bind (fetch _) fun _ => hR.pure _

theorem start (hR : Onward R) (fetch : ∀ q, Keeping R (Store.fetch sc.tx q .readOnly)) :
    Keeping R (sc.start Store.fetch) := by
  intro s
  have hget : (MonadState.get : StateM Store Store) s = (s, s) := rfl
  have first : Keeping R (if sc.file.numPages s.disk = 0 then Pure.pure [] else
      sc.load Store.fetch 0 : StoreM (List Tuple)) := by
    split
    · exact hR.pure []
    · exact hR.load fetch 0
  have first := first s
  simp only [Scan.start, bind_run, hget, ExceptT.run]
  generalize (if sc.file.numPages s.disk = 0 then Pure.pure [] else sc.load Store.fetch 0 :
    StoreM (List Tuple)) s = outcome at first ⊢
  obtain ⟨_ | rows, s₁⟩ := outcome
  · exact first
  · exact first

theorem advance (hR : Onward R) (fetch : ∀ q, Keeping R (Store.fetch sc.tx q .readOnly))
    (numbers : List Nat) (c : Cursor) : Keeping R (sc.advance Store.fetch numbers c) := by
  induction numbers generalizing c with
  | nil => exact hR.same fun _ => rfl
  | cons n numbers ih =>
      intro s
      have loaded := hR.load fetch n s
      unfold Scan.advance
      split
      · simp only [bind_run, ExceptT.run]
        generalize sc.load Store.fetch n s = outcome at loaded ⊢
        obtain ⟨_ | rows, s₁⟩ := outcome
        · exact loaded
        · exact hR.trans loaded (ih _ s₁)
      · exact hR.refl s

theorem hasNext (hR : Onward R) (fetch : ∀ q, Keeping R (Store.fetch sc.tx q .readOnly)) :
    Keeping R (sc.hasNext Store.fetch) := by
  unfold Scan.hasNext
  split
  · exact hR.same fun _ => rfl
  next c _ => exact fun s => hR.advance fetch (sc.pagesAfter c.page s) c s

theorem next (hR : Onward R) (fetch : ∀ q, Keeping R (Store.fetch sc.tx q .readOnly)) :
    Keeping R (sc.next Store.fetch) := by
  intro s
  have first := hR.hasNext fetch s
  simp only [Scan.next, bind_run]
  generalize sc.hasNext Store.fetch s = outcome at first ⊢
  obtain ⟨⟨_ | b, sc'⟩, s₁⟩ := outcome
  · exact first
  · cases b <;> exact first

/-- A scan does no more than to get pages. -/
theorem request (hR : Onward R) (fetch : ∀ q, Keeping R (Store.fetch sc.tx q .readOnly))
    (request : Scan.Request) :
    Keeping R (request.perform sc) := by
  intro s
  cases request with
  | start => exact hR.start fetch s
  | rewind =>
      have closed : ∀ q, Keeping R (Store.fetch sc.close.tx q .readOnly) := fetch
      exact hR.start closed s
  | hasNext => exact hR.hasNext fetch s
  | next => exact hR.next fetch s

end Scans

end Onward

/-- A page that has been read is the one that was asked for. -/
theorem id_of_read {interrupt : List Action → StoreM Unit} {e : Entry} {p : HeapPage}
    (h : read interrupt e q s = (.ok p, s')) : p.id = q := by
  have direct {s s' : Store} (h : readDirect e.file q s = (.ok p, s')) : p.id = q :=
    (asRead_of_readPage (congrArg Prod.fst h)).1.id
  unfold read at h
  cases hook : e.hook with
  | none =>
      rw [hook] at h
      exact direct h
  | some hook' =>
      simp only [hook, bind_eq_ok] at h
      obtain ⟨_, _, _, _, _, _, _, _, got, _, _, _, last⟩ := h
      cases last
      exact direct got

namespace Careful

theorem onCatalog (hR : Careful R) (f : Catalog → Catalog) : Keeping R (Store.onCatalog f) :=
  fun s => hR.catalog s _

theorem acquire (hR : Careful R) (tx : TxId) (q : PageId) (m : LockMode) :
    Keeping R (Store.acquire tx q m) := by
  intro s
  rw [acquire_apply]
  cases ha : s.pool.locks.acquire? tx q m with
  | none => exact hR.refl s
  | some locks => exact hR.granted ha

theorem cached? (hR : Careful R) (q : PageId) : Keeping R (Store.cached? q) :=
  fun s => hR.used s q

theorem put (hR : Careful R) (p : HeapPage) : Keeping R (Store.put p) :=
  fun s => hR.changed s p

theorem keep (hR : Careful R) {p : HeapPage} (hp : p.id = q) : Keeping R (Store.keep q p) :=
  fun s => hR.kept s hp

theorem read (hR : Careful R) {interrupt : List Action → StoreM Unit}
    (h : ∀ actions, Keeping R (interrupt actions)) (e : Entry) (q : PageId) :
    Keeping R (Store.read interrupt e q) := by
  have direct : Keeping R (readDirect e.file q) := hR.bind hR.get fun s => hR.ofExcept _
  unfold Store.read
  split
  · exact direct
  · refine hR.bind (hR.onCatalog _) fun _ => hR.bind (hR.ensure _ _) fun _ => ?_
    exact hR.bind direct fun p => hR.bind (h _) fun _ => hR.pure p

theorem fetchWith (hR : Careful R) {interrupt : List Action → StoreM Unit}
    (h : ∀ actions, Keeping R (interrupt actions)) (tx : TxId) (q : PageId) (a : Access) :
    Keeping R (Store.fetchWith interrupt tx q a) := by
  unfold Store.fetchWith
  refine hR.bind (hR.acquire tx q a.mode) fun _ => hR.bind (hR.cached? q) fun p? => ?_
  split
  next p => exact hR.pure p
  next =>
    refine hR.bind (hR.lookup q.table) fun e => hR.bind_of (hR.read h e q) fun {_ p s} got => ?_
    apply hR.bind (hR.cached? q)
    intro p?
    split
    next p => exact hR.pure p
    next => exact hR.bind (hR.keep (id_of_read got)) fun _ => hR.pure p

theorem runActions (hR : Careful R) {fetch : TxId → PageId → Access → StoreM HeapPage}
    (h : ∀ tx q a, Keeping R (fetch tx q a)) (actions : List Action) :
    Keeping R (Store.runActions fetch actions) := by
  apply hR.forM
  intro action
  cases action with
  | discard q => exact fun s => hR.dropped s q
  | fetch tx q a => exact hR.bind (h tx q a) fun _ => hR.pure ()
  | dirty tx q => exact hR.bind (h tx q .readWrite) fun p => hR.put _

/-- However deep the actions go that a request sets off. -/
theorem fetchNested (hR : Careful R) (depth : Nat) (tx : TxId) (q : PageId) (a : Access) :
    Keeping R (Store.fetchNested depth tx q a) := by
  induction depth generalizing tx q a with
  | zero => exact hR.fetchWith (fun _ => hR.pure ()) tx q a
  | succ depth ih => exact hR.fetchWith (hR.runActions ih) tx q a

theorem fetch (hR : Careful R) (tx : TxId) (q : PageId) (a : Access) :
    Keeping R (Store.fetch tx q a) :=
  hR.bind hR.get fun _ => hR.fetchNested _ tx q a

theorem of_fetch (hR : Careful R) {a : Access} {r : Except Error HeapPage}
    (h : Store.fetch tx q a s = (r, s')) : R s s' := by
  have fetched := hR.fetch tx q a s
  rwa [h] at fetched

theorem deleteFrom (hR : Careful R) (f : HeapFile) (tx : TxId) (rid : Option RecordId) :
    Keeping R (Store.deleteFrom f tx rid) := by
  intro s
  cases rid with
  | none => exact hR.refl s
  | some loc =>
      have erases := erases f tx loc s
      generalize Store.deleteFrom f tx (some loc) s = outcome at erases ⊢
      obtain ⟨r, s'⟩ := outcome
      cases erases with
      | elsewhere _ => exact hR.refl _
      | unfetched _ had | vacant _ had _ => exact hR.of_fetch had
      | erased _ got _ => exact hR.trans (hR.of_fetch got) (hR.put _ _)

theorem afterMutate (hR : Careful R) (table : TableId) : Keeping R (Store.afterMutate table) := by
  refine hR.bind hR.get fun s => ?_
  split
  · exact hR.pure ()
  · exact hR.bind (hR.onCatalog _) fun _ => hR.runActions hR.fetch _

theorem delete (hR : Careful R) (tx : TxId) (rid : Option RecordId) :
    Keeping R (Store.delete tx rid) := by
  unfold Store.delete
  split
  · exact hR.same fun _ => rfl
  · refine hR.bind (hR.lookup _) fun e => hR.bind (hR.deleteFrom e.file tx _) fun p => ?_
    exact hR.bind (hR.afterMutate _) fun _ => hR.keep rfl

end Careful

namespace Rewriting

theorem append (hR : Rewriting R) (f : HeapFile) : Keeping R (Store.append f) := by
  intro s
  rw [append_apply]
  cases appended : f.appendPage s.disk with
  | error e => exact hR.refl s
  | ok disk => exact hR.wrote (HeapFile.write_of_appendPage appended)

theorem written (hR : Rewriting R) {p : HeapPage} {disk : Disk TableId}
    (h : s.writing p = .ok disk) : R s { s with disk } := by
  obtain ⟨_, _, wrote⟩ := writing_ok h
  exact hR.wrote (HeapFile.write_of_writePage wrote)

theorem put (hR : Rewriting R) (p : HeapPage) : Keeping R (Store.put p) :=
  fun s => hR.changed s p

theorem withCached (hR : Rewriting R) {visit : HeapPage → StoreM Unit}
    (h : ∀ p, Keeping R (visit p)) (q : PageId) : Keeping R (Store.withCached q visit) := by
  refine hR.bind hR.get fun s => ?_
  split
  · exact h _
  · exact hR.pure ()

theorem writeBack (hR : Rewriting R) (p : HeapPage) : Keeping R (Store.writeBack p) := by
  intro s
  have ends := writesBack p s
  generalize Store.writeBack p s = outcome at ends ⊢
  obtain ⟨r, s'⟩ := outcome
  cases ends with
  | spared _ | refused _ _ => exact hR.refl _
  | written _ wrote => exact hR.trans (hR.written wrote) (hR.put _ _)

theorem commitPage (hR : Rewriting R) (tx : TxId) (p : HeapPage) :
    Keeping R (Store.commitPage tx p) := by
  intro s
  have ends := commitsPage tx p s
  generalize Store.commitPage tx p s = outcome at ends ⊢
  obtain ⟨r, s'⟩ := outcome
  cases ends with
  | refused _ _ => exact hR.refl _
  | own _ wrote => exact hR.trans (hR.written wrote) (hR.put _ _)
  | clean _ | foreign _ _ => exact hR.put _ _

theorem rollbackPage (hR : Rewriting R) (tx : TxId) (p : HeapPage) :
    Keeping R (Store.rollbackPage tx p) := by
  intro s
  have ends := rollsBackPage tx p s
  generalize Store.rollbackPage tx p s = outcome at ends ⊢
  obtain ⟨r, s'⟩ := outcome
  cases ends with
  | unrestored _ _ | same _ _ | foreign _ _ => exact hR.refl _
  | own _ _ | refused _ _ _ _ => exact hR.put _ _
  | flushed _ _ _ wrote => exact hR.trans (hR.written wrote) (hR.put _ _)

theorem flushPage (hR : Rewriting R) (q : PageId) : Keeping R (Store.flushPage q) :=
  hR.withCached hR.writeBack q

theorem flushAll (hR : Rewriting R) : Keeping R Store.flushAll :=
  hR.bind hR.get fun _ => hR.forM hR.flushPage _

theorem flushTx (hR : Rewriting R) (tx : TxId) : Keeping R (Store.flushTx tx) := by
  refine hR.bind hR.get fun s => hR.forM (hR.withCached fun p => ?_) _
  split
  · exact hR.writeBack p
  · exact hR.pure ()

theorem commit (hR : Rewriting R) (tx : TxId) : Keeping R (Store.commit tx) :=
  hR.bind hR.get fun _ => hR.forM (hR.withCached (hR.commitPage tx)) _

theorem rollback (hR : Rewriting R) (tx : TxId) : Keeping R (Store.rollback tx) := by
  refine hR.bind hR.get fun s => hR.forM (fun q => ?_) _
  split
  · exact hR.withCached (hR.rollbackPage tx) q
  · exact hR.pure ()

end Rewriting
end HeapStore.Store
