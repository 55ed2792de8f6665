import HeapStore.Proofs.Page.Slots
import HeapStore.Proofs.Store.Getting
import HeapStore.Proofs.Store.Placement

/-!
Deleting a row. Its page is asked for to write to it, and if there is a row in the slot then it is
free afterwards, and nothing else on the page is different. Otherwise no page is. Of the other pages
a clean one may have to leave the cache, and so what pages hold is the same exactly if such a page
was in its file as it was cached.
-/

namespace HeapStore

/-- A row is found if its page is the one at hand and its slot is used. -/
theorem HeapPage.erase_of_page {p : HeapPage} {rid : RecordId} (page : rid.page = p.id) :
    p.erase (some rid) = if p.isUsed rid.slot
      then .ok { p with slots := p.slots.set rid.slot none }
      else .error (.tupleNotFound rid) := by
  simp only [erase, page, true_and]

theorem Grants.Allows.add {G : Set Grant} {tx : TxId} {q : PageId} {m : LockMode}
    (h : Allows G tx q m) : Allows (Grants.add G tx q m) tx q m := by
  have absent {u : TxId} (other : u ≠ tx) {m' : LockMode} (free : ⟨u, q, m'⟩ ∉ G) :
      (⟨u, q, m'⟩ : Grant) ∉ Grants.add G tx q m := by
    rintro (held | ⟨same, _⟩)
    · exact free held
    · exact other (congrArg Grant.tx same)
  intro u other
  obtain ⟨unwritten, unread⟩ := h u other
  exact ⟨absent other unwritten, fun writes => absent other (unread writes)⟩

namespace Store
variable {s s' s₁ : Store} {tx : TxId} {q : PageId} {p : HeapPage} {rid : RecordId}
  {rid? : Option RecordId} {e : Entry} {err : Error}

/-- The page with the slot free. -/
def vacated (p : HeapPage) (tx : TxId) (slot : Nat) : HeapPage :=
  { p with slots := p.slots.set slot none, dirtiedBy := some tx }

/-- The ways in which a call that is to delete a row ends. -/
inductive Deletes (tx : TxId) (s : Store) : Option RecordId → Except Error Unit → Store → Prop
  | unlocated : Deletes tx s none (.error .noRecordId) s
  | unknown {rid : RecordId} {err : Error} (missing : s.catalog.find rid.page.table = .error err) :
      Deletes tx s (some rid) (.error err) s
  | unfetched {rid : RecordId} {e : Entry} {err : Error} {s' : Store}
      (entry : s.catalog.find rid.page.table = .ok e)
      (got : fetch tx rid.page .readWrite s = (.error err, s')) :
      Deletes tx s (some rid) (.error err) s'
  | unused {rid : RecordId} {e : Entry} {p : HeapPage} {s' : Store}
      (entry : s.catalog.find rid.page.table = .ok e)
      (got : fetch tx rid.page .readWrite s = (.ok p, s')) (free : p.isUsed rid.slot = false) :
      Deletes tx s (some rid) (.error (.tupleNotFound rid)) s'
  | freed {rid : RecordId} {e : Entry} {p : HeapPage} {s₁ s' : Store}
      (entry : s.catalog.find rid.page.table = .ok e)
      (got : fetch tx rid.page .readWrite s = (.ok p, s₁)) (used : p.isUsed rid.slot = true)
      (overlays : Overlays rid.page (vacated p tx rid.slot) s₁ s') :
      Deletes tx s (some rid) (.ok ()) s'

theorem id_of_fetch {a : Access} (plain : s.catalog.Plain) (ordered : s.pool.cache.Ordered)
    (got : fetch tx q a s = (.ok p, s₁)) : p.id = q :=
  ((arranging.of_fetch got).2 ordered).keyed q p (replied_of_eq plain got).here

theorem deletes (plain : s.catalog.Plain) (ordered : s.pool.cache.Ordered) (tx : TxId)
    (rid? : Option RecordId) :
    Deletes tx s rid? (delete tx rid? s).1 (delete tx rid? s).2 := by
  cases rid? with
  | none => exact .unlocated
  | some rid =>
      rw [delete, bind_apply, lookup_apply]
      cases entry : s.catalog.find rid.page.table with
      | error err => exact .unknown entry
      | ok e =>
          have table : rid.page.table = e.file.table := (plain _ e (Catalog.find_ok entry)).1.symm
          have erases := erases e.file tx rid s
          simp only [bind_apply]
          generalize deleteFrom e.file tx (some rid) s = outcome at erases ⊢
          obtain ⟨r, s'⟩ := outcome
          cases erases with
          | elsewhere foreign => exact absurd table foreign
          | unfetched _ had => exact .unfetched entry had
          | vacant _ got failed =>
              rw [HeapPage.erase_of_page (id_of_fetch plain ordered got).symm] at failed
              split at failed
              next => cases failed
              next free =>
                cases failed
                exact .unused entry got (Bool.eq_false_iff.mpr free)
          | @erased p p' s₁ _ got done =>
              have vacant : (vacated p tx rid.slot).id = rid.page :=
                id_of_fetch (p := p) plain ordered got
              rw [HeapPage.erase_of_page (id_of_fetch plain ordered got).symm] at done
              split at done
              next used =>
                cases done
                have replied := replied_of_eq plain got
                have overlaid := overlays_put replied.here vacant
                have plain₁ : s₁.catalog.Plain := replied.frame.1 ▸ plain
                obtain ⟨s₂, again, overlays⟩ := overlaid.readmit plain₁ vacant rfl rid.page.table
                rw [bind_apply] at again
                simp only [put_apply, vacated, HeapPage.mark] at again ⊢
                rw [again]
                exact .freed entry got used overlays
              next => cases done

/-- A clean page leaves the cache. -/
def Leaves (q : PageId) (s s' : Store) : Prop :=
  s'.cached q = none ∧ ∃ p, s.cached q = some p ∧ p.dirtiedBy = none

/-- A page comes into the cache as its file has it. -/
def Comes (q : PageId) (s s' : Store) : Prop :=
  s.cached q = none ∧ ∃ p, s'.cached q = some p ∧ s.onFile q = .ok p

theorem Replied.cached {a : Access} {r : Except Error HeapPage} (h : Replied tx q a s r s')
    (q' : PageId) : s'.cached q' = s.cached q' ∨ Leaves q' s s' ∨ q' = q ∧ Comes q' s s' := by
  cases h with
  | refused _ => exact .inl rfl
  | failed _ _ _ same => exact .inl (same q')
  | hit _ _ same => exact .inl (same q')
  | @read p _ _ absent read here others =>
      by_cases hq : q' = q
      · subst hq
        exact .inr (.inr ⟨rfl, absent, p, here, read⟩)
      · exact (others q' hq).imp_right .inl

/-- A page holds what it held, unless it has left the cache and its file has something else. -/
theorem Spares.slots_iff {file : FileId TableId} {rs : List PageRequest} (h : Spares file rs s s')
    (same : s'.onFile q = s.onFile q) :
    s'.slots q = s.slots q ↔ ∀ p, s.cached q = some p → (∃ r ∈ rs, r.after.cached q = none) →
      (s.onFile q).map HeapPage.slots = .ok p.slots := by
  rcases h.cached q with ⟨stayed, all⟩ | ⟨left, came⟩
  · have unchanged : s'.slots q = s.slots q := by simp only [Store.slots, stayed, same]
    refine iff_of_true unchanged ?_
    rintro p here ⟨r, asked, gone⟩
    rw [all r asked, here] at gone
    cases gone
  · have now : s'.slots q = (s.onFile q).map HeapPage.slots := by
      cases there : s'.cached q with
      | none => rw [slots_of_absent there, same]
      | some p =>
          rw [slots_of_cached there, ← same, came p there]
          rfl
    rw [now]
    cases here : s.cached q with
    | none =>
        refine iff_of_true (slots_of_absent here).symm ?_
        rintro _ ⟨⟩
    | some p =>
        obtain ⟨_, r, asked, _, gone⟩ := left p here
        rw [slots_of_cached here]
        constructor
        · rintro traced _ ⟨⟩ _
          exact traced
        · exact fun traced => traced p rfl ⟨r, asked, gone⟩

theorem delete_requests (plain : s.catalog.Plain) (entry : s.catalog.find rid.page.table = .ok e) :
    (Act.call (.delete tx (some rid))).requests s = [⟨tx, rid.page, .readWrite, s⟩] := by
  have table : rid.page.table = e.file.table := (plain _ e (Catalog.find_ok entry)).1.symm
  simp only [Act.requests, entry, deleteRequests, if_pos table]

/-- No page is asked for in a table that there is not. -/
theorem delete_requests_nowhere {err : Error}
    (missing : s.catalog.find rid.page.table = .error err) :
    (Act.call (.delete tx (some rid))).requests s = [] := by
  simp only [Act.requests, missing]

/-- The slot of a row has been made free, and who did so may write to the page and has made it
dirty. All else that is cached is as it was, but for what is clean and has left the cache. -/
structure Frees (tx : TxId) (rid : RecordId) (p : HeapPage) (s s' : Store) : Prop where
  had : (fetch tx rid.page .readWrite s).1 = .ok p
  before : s.slots rid.page = .ok p.slots
  here : s'.cached rid.page = some (vacated p tx rid.slot)
  image : p.schema.Resets rid.slot false (Bytes.zeros p.schema.width) p.image
    (vacated p tx rid.slot).image
  others : ∀ q, q ≠ rid.page → s'.cached q = s.cached q ∨ Leaves q s s'
  catalog : s'.catalog = s.catalog
  disk : s'.disk = s.disk
  locked : s'.mode? tx rid.page = some .exclusive
  granted : s'.pool.locks.granted = Grants.add s.pool.locks.granted tx rid.page .exclusive
  contents : (∀ q, q ≠ rid.page → s'.slots q = s.slots q) ↔
    LeavesTraces ((Act.call (.delete tx (some rid))).requests s) s
  again : (delete tx (some rid) s').1 = .error (.tupleNotFound rid)

/-- No page is different, whether it is cached or in a file. The page of the row may have come into
the cache and be locked, and a clean one may have left. -/
structure LeavesAlone (tx : TxId) (rid? : Option RecordId) (s s' : Store) : Prop where
  cached : ∀ q, s'.cached q = s.cached q ∨ Leaves q s s' ∨
    some q = rid?.map RecordId.page ∧ Comes q s s'
  catalog : s'.catalog = s.catalog
  disk : s'.disk = s.disk
  granted : s'.pool.locks.granted = s.pool.locks.granted ∨ ∃ rid ∈ rid?,
    s'.pool.locks.granted = Grants.add s.pool.locks.granted tx rid.page .exclusive
  contents : (∀ q, s'.slots q = s.slots q) ↔
    LeavesTraces ((Act.call (.delete tx rid?)).requests s) s

theorem LeavesAlone.refl (none : (Act.call (.delete tx rid?)).requests s = []) :
    LeavesAlone tx rid? s s where
  cached _ := .inl rfl
  catalog := rfl
  disk := rfl
  granted := .inl rfl
  contents := by
    rw [none]
    refine ⟨fun _ _ _ _ left => ?_, fun _ _ => rfl⟩
    obtain ⟨_, asked, _⟩ := left
    cases asked

theorem leavesAlone_of_fetch {r : Except Error HeapPage} (plain : s.catalog.Plain)
    (entry : s.catalog.find rid.page.table = .ok e)
    (got : fetch tx rid.page .readWrite s = (r, s')) : LeavesAlone tx (some rid) s s' := by
  have replied := replied_of_eq plain got
  obtain ⟨catalog, disk⟩ := replied.frame
  constructor
  case cached =>
    intro q
    exact (replied.cached q).imp_right (.imp_right fun ⟨here, came⟩ => ⟨here ▸ rfl, came⟩)
  case catalog => exact catalog
  case disk => exact disk
  case granted =>
    rcases replied.acquired with rfl | acquired
    · exact .inl rfl
    · exact .inr ⟨rid, rfl, LockTable.granted_acquire? acquired⟩
  case contents =>
    rw [delete_requests plain entry]
    have spares := spares_of_fetch plain e.file.id got
    have same (q : PageId) : s'.onFile q = s.onFile q := by simp only [onFile, catalog, disk]
    exact forall_congr' fun q => spares.slots_iff (same q)

theorem unused_of_vacated (p : HeapPage) (tx : TxId) {i : Nat} (h : i < p.slots.length) :
    (vacated p tx i).isUsed i = false := by
  have get : (vacated p tx i).get? i = none := (HeapPage.get?_set none h i).trans (if_pos rfl)
  rw [HeapPage.isUsed, get]
  rfl

/-- A row that is not there is not found by who may write to its page, if the page is cached. -/
theorem delete_of_unused (plain : s.catalog.Plain) (ordered : s.pool.cache.Ordered)
    (entry : s.catalog.find rid.page.table = .ok e) (here : s.cached rid.page = some p)
    (unused : p.isUsed rid.slot = false)
    (allowed : (s.pool.locks.acquire? tx rid.page Access.readWrite.mode).isSome) :
    (delete tx (some rid) s).1 = .error (.tupleNotFound rid) := by
  have deletes := deletes plain ordered tx (some rid)
  generalize delete tx (some rid) s = outcome at deletes ⊢
  obtain ⟨r, s'⟩ := outcome
  cases deletes with
  | unknown missing => cases entry.symm.trans missing
  | unfetched _ got =>
      cases replied_of_eq plain got with
      | refused refused =>
          rw [refused] at allowed
          cases allowed
      | failed _ absent _ _ => cases here.symm.trans absent
  | unused => rfl
  | freed _ got used =>
      rcases (replied_of_eq plain got).source with found | ⟨absent, _⟩
      · cases here.symm.trans found
        cases unused.symm.trans used
      · cases here.symm.trans absent

/-- What the other pages hold is the same exactly if nothing that has left the cache is missed. -/
theorem leavesTraces_of_overlays {p' : HeapPage} (plain : s.catalog.Plain)
    (entry : s.catalog.find rid.page.table = .ok e)
    (got : fetch tx rid.page .readWrite s = (.ok p, s₁)) (overlays : Overlays rid.page p' s₁ s') :
    (∀ q, q ≠ rid.page → s'.slots q = s.slots q) ↔
      LeavesTraces ((Act.call (.delete tx (some rid))).requests s) s := by
  have replied := replied_of_eq plain got
  have spares := spares_of_fetch plain e.file.id got
  have same (q : PageId) : s₁.onFile q = s.onFile q := by
    simp only [onFile, replied.frame.1, replied.frame.2]
  have moved {q : PageId} (other : q ≠ rid.page) : s'.slots q = s₁.slots q :=
    (overlays.slots q).trans (if_neg other)
  rw [delete_requests plain entry]
  constructor
  · intro unchanged q p₀ cached left
    by_cases target : q = rid.page
    · subst target
      obtain ⟨r, asked, gone⟩ := left
      rw [List.mem_singleton.mp asked, PageRequest.after, got, replied.here] at gone
      cases gone
    · exact (spares.slots_iff (same q)).mp ((moved target).symm.trans (unchanged q target))
        p₀ cached left
  · intro traces q other
    exact (moved other).trans ((spares.slots_iff (same q)).mpr (traces q))

theorem frees_of_overlays (arises : Arises s) (plain : s.catalog.Plain)
    (entry : s.catalog.find rid.page.table = .ok e)
    (got : fetch tx rid.page .readWrite s = (.ok p, s₁)) (used : p.isUsed rid.slot = true)
    (overlays : Overlays rid.page (vacated p tx rid.slot) s₁ s')
    (ended : (delete tx (some rid) s).2 = s') : Frees tx rid p s s' := by
  have coherent : s'.Coherent := ended ▸ (Delivers.delete tx (some rid) s arises.coherent).1
  have replied := replied_of_eq plain got
  have acquired := replied.acquired_of_ok
  obtain ⟨catalog₁, disk₁⟩ := replied.frame
  have lt := HeapPage.lt_length_of_isUsed used
  have here : s'.cached rid.page = some (vacated p tx rid.slot) :=
    (overlays.cached rid.page).trans (if_pos rfl)
  have catalog : s'.catalog = s.catalog := overlays.catalog.trans catalog₁
  constructor
  case had => rw [got]
  case before => exact replied.slots
  case here => exact here
  case image =>
    have made := (Delivers.fetch tx rid.page .readWrite s arises.coherent).2 p (by rw [got])
    have free : HeapPage.Sound { p with slots := p.slots.set rid.slot none } :=
      made.sound.set fun _ none => nomatch none
    exact made.sound.resets free lt
  case others =>
    intro q other
    have same : s'.cached q = s₁.cached q := (overlays.cached q).trans (if_neg other)
    rcases replied.cached q with stayed | ⟨gone, left⟩ | ⟨came, _⟩
    · exact .inl (same.trans stayed)
    · exact .inr ⟨same.trans gone, left⟩
    · exact absurd came other
  case catalog => exact catalog
  case disk => exact overlays.disk.trans disk₁
  case locked => rw [overlays.mode?, replied.mode?_of_ok, if_pos ⟨rfl, rfl⟩]
  case granted =>
    rw [overlays.locks]
    exact LockTable.granted_acquire? acquired
  case contents => exact leavesTraces_of_overlays plain entry got overlays
  case again =>
    refine delete_of_unused (catalog ▸ plain) coherent.cache (catalog ▸ entry) here
      (unused_of_vacated p tx lt) ?_
    have first := LockTable.isSome_acquire?.mp (Option.isSome_of_mem acquired)
    rw [LockTable.isSome_acquire?, overlays.locks, LockTable.granted_acquire? acquired]
    exact first.add

/-- A call that is to delete a row ends in one of the ways that are told. It ends well exactly if
there is a row at the record id, in a page of a table that there is and that can be had to be
written to; then its slot is free, and nothing else on the page is different. If it ends badly no
page is. -/
theorem delete_frees_one_slot (arises : Arises s) (plain : s.catalog.Plain) (tx : TxId)
    (rid? : Option RecordId) :
    Deletes tx s rid? (delete tx rid? s).1 (delete tx rid? s).2 ∧
    ((delete tx rid? s).1 = .ok () ↔ ∃ rid e p, rid? = some rid ∧
      s.catalog.find rid.page.table = .ok e ∧ (fetch tx rid.page .readWrite s).1 = .ok p ∧
      rid.slot < p.slots.length ∧ p.isUsed rid.slot = true) ∧
    ((delete tx rid? s).1 = .ok () → ∃ rid p, rid? = some rid ∧
      Frees tx rid p s (delete tx rid? s).2) ∧
    ∀ err, (delete tx rid? s).1 = .error err → LeavesAlone tx rid? s (delete tx rid? s).2 := by
  have ways := deletes plain arises.coherent.cache tx rid?
  refine ⟨ways, ?_⟩
  generalize ended : delete tx rid? s = outcome at ways ⊢
  obtain ⟨r, s'⟩ := outcome
  cases ways with
  | unlocated => exact ⟨⟨nofun, nofun⟩, nofun, fun _ _ => .refl rfl⟩
  | unknown missing =>
      refine ⟨⟨nofun, ?_⟩, nofun, fun _ _ => .refl (delete_requests_nowhere missing)⟩
      rintro ⟨rid, e, _, ⟨⟩, entry, _⟩
      rw [missing] at entry
      cases entry
  | unfetched entry got =>
      refine ⟨⟨nofun, ?_⟩, nofun, fun _ _ => leavesAlone_of_fetch plain entry got⟩
      rintro ⟨rid, _, _, ⟨⟩, _, had, _⟩
      rw [got] at had
      cases had
  | unused entry got free =>
      refine ⟨⟨nofun, ?_⟩, nofun, fun _ _ => leavesAlone_of_fetch plain entry got⟩
      rintro ⟨rid, _, _, ⟨⟩, _, had, _, used⟩
      rw [got] at had
      cases had
      rw [free] at used
      cases used
  | @freed rid e p _ _ entry got used overlays =>
      have lt := HeapPage.lt_length_of_isUsed used
      refine ⟨iff_of_true rfl ⟨rid, e, p, rfl, entry, by rw [got], lt, used⟩, fun _ => ?_, nofun⟩
      exact ⟨rid, p, rfl, frees_of_overlays arises plain entry got used overlays (by rw [ended])⟩

theorem Arises.run (h : Arises s) (calls : List Call) : Arises (run calls s).2 := by
  induction calls generalizing s with
  | nil => exact h
  | cons c calls ih => exact ih (h.acted (.call c))

theorem stored_row_deleted_once :
    let s := (run [sampleInsert] (sample [] 1 Nat.one_pos)).2
    let s' := (delete ⟨1⟩ (some ⟨samplePage, 0⟩) s).2
    (∃ p, Frees ⟨1⟩ ⟨samplePage, 0⟩ p s s') ∧
      (delete ⟨1⟩ (some ⟨samplePage, 0⟩) s').1 = .error (.tupleNotFound ⟨samplePage, 0⟩) := by
  intro s s'
  have arises : Arises s := (arises_sample Nat.one_pos (by decide)).run _
  have reachable : Reachable sampleHome s := (reachable_sample Nat.one_pos (by decide)).run _
  have deleted : (delete ⟨1⟩ (some ⟨samplePage, 0⟩) s).1 = .ok () := by
    decide +kernel
  obtain ⟨_, _, freed, _⟩ :=
    delete_frees_one_slot arises reachable.seated.housed.plain ⟨1⟩ (some ⟨samplePage, 0⟩)
  obtain ⟨_, p, ⟨⟩, frees⟩ := freed deleted
  exact ⟨⟨p, frees⟩, frees.again⟩

/-- Two tables, the one without a page, and the other with a page that has a row. -/
def emptyTableAndRow : Store :=
  { sample [] 1 Nat.one_pos with
    catalog := bothTables
    disk := (sample [] 1 Nat.one_pos).disk.replace otherEntry.file.id (Bytes.resize [1] pageSize) }

/-- When the row is deleted, a page of the other table leaves the cache to which a change has been
flushed and then given up after another change. So it holds another row than before. -/
theorem deletion_uncovers_flushed_change :
    let s := (run resumedCalls emptyTableAndRow).2
    Arises s ∧ s.catalog.Plain ∧
      let outcome := delete ⟨2⟩ (some ⟨otherPage, 0⟩) s
      outcome.1 = .ok () ∧ samplePage ≠ otherPage ∧
        outcome.2.slots samplePage ≠ s.slots samplePage := by
  intro s
  have housed : bothTables.Housed sampleHome :=
    ((Catalog.housed_default _).add rfl rfl).add rfl rfl
  have opened : Opened (sampleConfig 1) (sample [] 1 Nat.one_pos) :=
    opened_sample Nat.one_pos (by decide)
  have arises : Arises emptyTableAndRow := .opened opened.pool housed.plain.keyed
  have start : Reachable sampleHome emptyTableAndRow := .opened opened.pool housed
  have reachable : Reachable sampleHome s := start.run resumedCalls
  exact ⟨arises.run resumedCalls, reachable.seated.housed.plain, by decide +kernel⟩

end Store
end HeapStore
