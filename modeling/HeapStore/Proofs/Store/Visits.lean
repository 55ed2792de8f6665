import HeapStore.Proofs.Store.Basic

/-!
Visits to one page, which is flushed, committed, given up, or loses a row: the ways in which each of
them ends, whatever the store is like. All that is said of visits is read off these.
-/

namespace HeapStore.Store
variable {s s' : Store} {disk : Disk TableId} {tx : TxId} {q : PageId} {p p' : HeapPage} {e : Error}

theorem isDirty_eq_false : p.isDirty = false ↔ p.dirtiedBy = none := by
  simp [HeapPage.isDirty]

theorem isDirty_of_owner (h : p.dirtiedBy = some tx) : p.isDirty := by
  rw [HeapPage.isDirty, h]
  rfl

theorem withCached_apply (q : PageId) (visit : HeapPage → StoreM Unit) (s : Store) :
    withCached q visit s = match s.cached q with
      | some p => visit p s
      | none => (.ok (), s) := by
  simp only [withCached, bind_apply, get_apply, cached]
  cases s.pool.cache.find? q <;> rfl

/-- The files once the file of its table has taken a page, or why it does not. -/
def writing (s : Store) (p : HeapPage) : Except Error (Disk TableId) := do
  let e ← s.catalog.find p.id.table
  if e.refusesWrites then .error (.io .refused)
  else return (← e.file.writePage s.disk p).2

theorem write_apply (p : HeapPage) (s : Store) :
    (do write (← lookup p.id.table) p : StoreM HeapPage) s = match s.writing p with
      | .ok disk => (.ok (p.mark none), { s with disk })
      | .error e => (.error e, s) := by
  rw [bind_apply, lookup_apply, writing]
  cases s.catalog.find p.id.table with
  | error e => rfl
  | ok e =>
      simp only [write, ensure]
      cases refuses : e.refusesWrites with
      | true =>
          simp only [bind, Except.bind, refuses]
          rfl
      | false =>
          rw [if_pos rfl, pure_bind, writeDirect_apply]
          cases wrote : e.file.writePage s.disk p with
          | error err => simp [bind, Except.bind, refuses, wrote]
          | ok written =>
              obtain ⟨r, disk⟩ := written
              obtain ⟨rfl, _⟩ := HeapFile.writePage_ok wrote
              simp [bind, Except.bind, pure, Except.pure, refuses, wrote]

theorem writing_ok (h : s.writing p = .ok disk) : ∃ e, s.catalog.find p.id.table = .ok e ∧
    e.file.writePage s.disk p = .ok (p.mark none, disk) := by
  obtain ⟨e, found, h⟩ := bind_ok_iff.mp h
  split at h
  · cases h
  · obtain ⟨⟨r, disk'⟩, wrote, h⟩ := bind_ok_iff.mp h
    cases h
    obtain ⟨rfl, _⟩ := HeapFile.writePage_ok wrote
    exact ⟨e, found, wrote⟩

/-- Why a page cannot be written: its table is missing, or the medium does not take it. -/
inductive Refusal (s : Store) (q : PageId) : Error → Prop
  | missing {e : Error} (h : s.catalog.find q.table = .error e) : Refusal s q e
  | medium {e : Error} (h : HeapFile.Refuses s.disk q) (why : HeapFile.Unwritten q e) :
      Refusal s q e

/-- The page cannot be written. -/
def Refuses (s : Store) (q : PageId) : Prop :=
  ∃ e, Refusal s q e

theorem Refusal.congr {e : Error} (hc : s'.catalog = s.catalog)
    (hf : s'.disk.faults = s.disk.faults) : Refusal s' q e ↔ Refusal s q e := by
  have imp {t t' : Store} (hc : t'.catalog = t.catalog) (hf : t'.disk.faults = t.disk.faults)
      (h : Refusal t' q e) : Refusal t q e := by
    cases h with
    | missing h => exact .missing (hc ▸ h)
    | medium h why => exact .medium (by rwa [HeapFile.Refuses, ← hf]) why
  exact ⟨imp hc hf, imp hc.symm hf.symm⟩

theorem refuses_congr (hc : s'.catalog = s.catalog) (hf : s'.disk.faults = s.disk.faults) :
    s'.Refuses q ↔ s.Refuses q :=
  exists_congr fun _ => Refusal.congr hc hf

/-- The medium alone can refuse an addressable page of a registered table. -/
theorem Refusal.of_medium (h : Refusal s q e) (registered : ∃ e, s.catalog.find q.table = .ok e)
    (addressable : q.Addressable) : ∃ cause, e = .io cause := by
  cases h with
  | medium _ why =>
      cases why with
      | medium cause => exact ⟨cause, rfl⟩
      | overflow far => exact absurd addressable far
  | missing h =>
      obtain ⟨entry, found⟩ := registered
      cases h.symm.trans found

theorem refusal_of_writing (plain : s.catalog.Plain) (h : s.writing p = .error e) :
    Refusal s p.id e := by
  rw [writing] at h
  cases found : s.catalog.find p.id.table with
  | error err =>
      rw [found] at h
      cases h
      exact .missing found
  | ok entry =>
      obtain ⟨table, hook⟩ := plain _ _ (Catalog.find_ok found)
      simp only [found, bind, Except.bind, Entry.refusesWrites, hook, Option.any_none,
        Bool.false_eq_true, if_false] at h
      cases hw : entry.file.writePage s.disk p with
      | ok written =>
          rw [hw] at h
          cases h
      | error err =>
          rw [hw] at h
          cases h
          exact .medium ((HeapFile.writePage_eq_error table.symm).mp ⟨_, hw⟩)
            (HeapFile.writePage_error hw)

theorem free_of_writing (plain : s.catalog.Plain) (h : s.writing p = .ok disk) :
    ¬ s.Refuses p.id := by
  obtain ⟨entry, found, wrote⟩ := writing_ok h
  have table := (plain _ _ (Catalog.find_ok found)).1
  rintro ⟨e, missing | ⟨refuses, _⟩⟩
  · cases found.symm.trans missing
  · obtain ⟨_, failed⟩ := (HeapFile.writePage_eq_error table.symm).mpr refuses
    cases wrote.symm.trans failed

/-- The ways in which a visit ends that is to flush a page. -/
inductive WritesBack (p : HeapPage) (s : Store) : Except Error Unit → Store → Prop
  | spared (clean : p.dirtiedBy = none) : WritesBack p s (.ok ()) s
  | refused {e : Error} (dirty : p.isDirty) (failed : s.writing p = .error e) :
      WritesBack p s (.error e) s
  | written {disk : Disk TableId} (dirty : p.isDirty) (wrote : s.writing p = .ok disk) :
      WritesBack p s (.ok ()) (put (p.mark none) { s with disk }).2

theorem writesBack (p : HeapPage) (s : Store) :
    WritesBack p s (writeBack p s).1 (writeBack p s).2 := by
  unfold writeBack
  by_cases dirty : p.isDirty
  · rw [if_pos dirty, ← bind_assoc, bind_apply, write_apply]
    cases wrote : s.writing p with
    | error e => exact .refused dirty wrote
    | ok disk => exact .written dirty wrote
  · rw [if_neg dirty]
    exact .spared (isDirty_eq_false.mp (Bool.not_eq_true _ ▸ dirty))

/-- The ways in which the visit of a commit to a page ends. -/
inductive CommitsPage (tx : TxId) (p : HeapPage) (s : Store) : Except Error Unit → Store → Prop
  | refused {e : Error} (own : p.dirtiedBy = some tx) (failed : s.writing p = .error e) :
      CommitsPage tx p s (.error e) s
  | own {disk : Disk TableId} (own : p.dirtiedBy = some tx) (wrote : s.writing p = .ok disk) :
      CommitsPage tx p s (.ok ()) (put (p.mark none).snapshot { s with disk }).2
  | clean (clean : p.dirtiedBy = none) : CommitsPage tx p s (.ok ()) (put p.snapshot s).2
  | foreign {u : TxId} (owner : p.dirtiedBy = some u) (other : u ≠ tx) :
      CommitsPage tx p s (.ok ()) (put p s).2

theorem commitsPage (tx : TxId) (p : HeapPage) (s : Store) :
    CommitsPage tx p s (commitPage tx p s).1 (commitPage tx p s).2 := by
  unfold commitPage writeOwn
  rw [bind_apply]
  by_cases own : p.dirtiedBy = some tx
  · rw [if_pos own, write_apply]
    cases wrote : s.writing p with
    | error e => exact .refused own wrote
    | ok disk => exact .own own wrote
  · rw [if_neg own, pure_apply]
    cases owner : p.dirtiedBy with
    | none =>
        simp only [isDirty_eq_false.mpr owner]
        exact .clean owner
    | some u =>
        simp only [isDirty_of_owner owner, if_true]
        exact .foreign owner fun same => own (same ▸ owner)

/-- The ways in which the visit of an abort to a page ends. A page that is to be written again has
gone back before, and stays so if it cannot be written. -/
inductive RollsBackPage (tx : TxId) (p : HeapPage) (s : Store) : Except Error Unit → Store → Prop
  | unrestored {e : Error}
      (due : p.dirtiedBy = some tx ∨ p.dirtiedBy = none ∧ p.image ≠ p.beforeImage)
      (failed : p.restore = .error e) : RollsBackPage tx p s (.error e) s
  | own {p' : HeapPage} (own : p.dirtiedBy = some tx) (restored : p.restore = .ok p') :
      RollsBackPage tx p s (.ok ()) (put p' s).2
  | refused {p' : HeapPage} {e : Error} (clean : p.dirtiedBy = none)
      (changed : p.image ≠ p.beforeImage) (restored : p.restore = .ok p')
      (failed : s.writing p' = .error e) : RollsBackPage tx p s (.error e) (put p' s).2
  | flushed {p' : HeapPage} {disk : Disk TableId} (clean : p.dirtiedBy = none)
      (changed : p.image ≠ p.beforeImage) (restored : p.restore = .ok p')
      (wrote : s.writing p' = .ok disk) :
      RollsBackPage tx p s (.ok ()) (put p' { s with disk }).2
  | same (clean : p.dirtiedBy = none) (same : p.image = p.beforeImage) :
      RollsBackPage tx p s (.ok ()) s
  | foreign {u : TxId} (owner : p.dirtiedBy = some u) (other : u ≠ tx) :
      RollsBackPage tx p s (.ok ()) s

theorem restore_ok (h : p.restore = .ok p') : p'.id = p.id ∧ p'.dirtiedBy = none := by
  obtain ⟨_, _, h⟩ := bind_ok_iff.mp h
  cases h
  exact ⟨rfl, rfl⟩

/-- A restored page is put in place twice, before it is written and after. -/
theorem rewrite_apply (clean : p.dirtiedBy = none) (s : Store) :
    (do put p; put (← write (← lookup p.id.table) p) : StoreM Unit) s = match s.writing p with
      | .ok disk => (.ok (), (put p { s with disk }).2)
      | .error e => (.error e, (put p s).2) := by
  have elsewhere : writing { s with pool.cache := s.pool.cache.update p } p = s.writing p := rfl
  rw [bind_apply, put_apply]
  simp only [← bind_assoc]
  rw [bind_apply, write_apply, elsewhere]
  cases s.writing p with
  | error e => rfl
  | ok disk => simp only [put_apply, HeapPage.mark_eq_self clean, Cache.update_update]

theorem rollsBackPage (tx : TxId) (p : HeapPage) (s : Store) :
    RollsBackPage tx p s (rollbackPage tx p s).1 (rollbackPage tx p s).2 := by
  unfold rollbackPage
  by_cases own : p.dirtiedBy = some tx
  · rw [if_pos own, bind_apply, ofExcept_apply]
    cases restored : p.restore with
    | error e => exact .unrestored (.inl own) restored
    | ok p' => exact .own own restored
  · rw [if_neg own]
    cases owner : p.dirtiedBy with
    | some u =>
        rw [if_neg (by simp [isDirty_of_owner owner])]
        exact .foreign owner fun same => own (same ▸ owner)
    | none =>
        have notDirty : p.isDirty = false := isDirty_eq_false.mpr owner
        by_cases same : p.image = p.beforeImage
        · rw [if_neg (by simp [same])]
          exact .same owner same
        · rw [if_pos (by simp [notDirty, same]), bind_apply, ofExcept_apply]
          cases restored : p.restore with
          | error e => exact .unrestored (.inr ⟨owner, same⟩) restored
          | ok p' =>
              simp only
              rw [rewrite_apply (restore_ok restored).2]
              cases wrote : s.writing p' with
              | error e => exact .refused owner same restored wrote
              | ok disk => exact .flushed owner same restored wrote

/-- The ways in which it ends to delete a row of a file. -/
inductive Erases (f : HeapFile) (tx : TxId) (rid : RecordId) (s : Store) :
    Except Error HeapPage → Store → Prop
  | elsewhere (foreign : rid.page.table ≠ f.table) :
      Erases f tx rid s (.error (.tupleNotFound rid)) s
  | unfetched {e : Error} {s' : Store} (here : rid.page.table = f.table)
      (failed : fetch tx rid.page .readWrite s = (.error e, s')) : Erases f tx rid s (.error e) s'
  | vacant {p : HeapPage} {e : Error} {s' : Store} (here : rid.page.table = f.table)
      (got : fetch tx rid.page .readWrite s = (.ok p, s'))
      (failed : p.erase (some rid) = .error e) : Erases f tx rid s (.error e) s'
  | erased {p p' : HeapPage} {s₁ : Store} (here : rid.page.table = f.table)
      (got : fetch tx rid.page .readWrite s = (.ok p, s₁))
      (done : p.erase (some rid) = .ok p') :
      Erases f tx rid s (.ok (p'.mark (some tx))) (put (p'.mark (some tx)) s₁).2

theorem erases (f : HeapFile) (tx : TxId) (rid : RecordId) (s : Store) :
    Erases f tx rid s (deleteFrom f tx (some rid) s).1 (deleteFrom f tx (some rid) s).2 := by
  simp only [deleteFrom, ensure]
  by_cases here : rid.page.table = f.table
  · rw [if_pos here, pure_bind, bind_apply]
    rcases got : fetch tx rid.page .readWrite s with ⟨e | p, s₁⟩
    · exact .unfetched here got
    · simp only [bind_apply, ofExcept_apply]
      rcases done : p.erase (some rid) with e | p'
      · exact .vacant here got done
      · exact .erased here got done
  · rw [if_neg here]
    exact .elsewhere here

end HeapStore.Store
