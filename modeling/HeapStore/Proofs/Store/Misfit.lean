import HeapStore.Proofs.Store.Reachable

/-!
Rows that do not fit. One that has other types than the table is turned away at once, and nothing
has happened. One that lacks entries is turned away by the page that has room for it, when all the
pages before it have been asked for and the file has grown if none had room: the locks, the cache and
the file tell of the attempt.
-/

namespace HeapStore
open Store

/-- The acts that are to store a row in a file. -/
inductive Act.Stores (s : Store) : HeapFile → TxId → Tuple → Act → Prop
  | insert {tx : TxId} {table : TableId} {t : Tuple} {e : Entry}
      (entry : s.catalog.find table = .ok e) : Stores s e.file tx t (.call (.insert tx table t))
  | insertInto {f : HeapFile} {tx : TxId} {t : Tuple} : Stores s f tx t (.insertInto f tx t)

namespace Store
variable {home : TableId → Nat} {s s' s₁ : Store} {f : HeapFile} {tx : TxId} {t : Tuple} {a : Act}
  {n m : Nat} {q : PageId} {p : HeapPage} {rs : List PageRequest} {cause : Mismatch}
  {access : Access} {r : Except Error HeapPage}

/-- Files know nothing of rows that do not fit. -/
theorem onFile_ne_mismatch : s.onFile q ≠ .error (.schemaMismatch cause) := by
  intro h
  cases unread_of_onFile h

theorem Replied.ne_mismatch (h : Replied tx q access s r s') :
    r ≠ .error (.schemaMismatch cause) := by
  rintro rfl
  cases h with
  | failed _ _ why _ =>
      rcases why with unread | crowded
      · exact onFile_ne_mismatch unread
      · cases crowded

/-- A page that is had as it is cached is all that is touched. -/
theorem Replied.cached_eq (h : Replied tx q access s r s') (here : (s.cached q).isSome)
    (q' : PageId) :
    s'.cached q' = s.cached q' := by
  have impossible {α : Prop} (absent : s.cached q = none) : α := by
    rw [absent] at here
    cases here
  cases h with
  | refused _ => rfl
  | failed _ absent _ _ => exact impossible absent
  | hit _ _ same => exact same q'
  | read _ absent _ _ _ => exact impossible absent

theorem cached_letGo (held : Bool) (tx : TxId) (q : PageId) (s : Store) (q' : PageId) :
    (letGo held tx q s).2.cached q' = s.cached q' := by
  rw [letGo_apply]
  split <;> rfl

/-- If all pages on the way are cached, none comes or goes. -/
theorem Climbs.cached_eq (plain : s.catalog.Plain) (h : Climbs f tx n s rs m s')
    (here : ∀ k, n ≤ k → k < m → (s.cached ⟨f.table, k⟩).isSome) (q : PageId) :
    s'.cached q = s.cached q := by
  induction h with
  | here _ _ => rfl
  | @full n m s s₁ s' _ _ inside got full rest ih =>
      have replied := replied_of_eq plain got
      have below := rest.le
      have same (q : PageId) : (letGo (s.pool.locks.holds tx ⟨f.table, n⟩) tx ⟨f.table, n⟩
          s₁).2.cached q = s.cached q := by
        rw [cached_letGo]
        exact replied.cached_eq (here n (Nat.le_refl _) (by omega)) q
      have plain' := (spares_passed plain f.id got).catalog ▸ plain
      rw [ih plain' fun k above under => ?_, same]
      rw [same]
      exact here k (by omega) under
  | @grown n m s s₁ s' _ outside grows rest ih =>
      have same : s₁ = { s with disk := s₁.disk } := (append_ok grows).1
      have catalog : s₁.catalog = s.catalog := by rw [same]
      have cached (q : PageId) : s₁.cached q = s.cached q := by
        rw [same]
        rfl
      rw [ih (catalog ▸ plain) fun k above under => ?_, cached]
      rw [cached]
      exact here k above under

/-- What has happened when page `m` has room and turns a row away: the lock on it is taken and it is
cached, the locks on the pages before it are the stronger ones, and the file goes as far as to it. -/
structure Rejected (f : HeapFile) (tx : TxId) (t : Tuple) (m : Nat) (cause : Mismatch)
    (s s' : Store) : Prop where
  page : ∃ p, s'.cached ⟨f.table, m⟩ = some p ∧ p.emptySlots ≠ 0 ∧
    p.insert t = .error (.schemaMismatch cause)
  spares : Spares f.id (insertRequests f tx t s) s s'
  cached : (∀ n ≤ m, (s.cached ⟨f.table, n⟩).isSome) → ∀ q, s'.cached q = s.cached q
  locks : ∀ u q, s'.mode? u q =
    if u = tx ∧ q.table = f.table ∧
      (q.number = m ∨ q.number < m ∧ (s.mode? tx q).isSome) then some .exclusive
    else s.mode? u q
  file : m < f.numPages s.disk ∧ s'.disk = s.disk ∨
    f.numPages s.disk ≤ m ∧ f.numPages s'.disk = m + 1

/-- Nothing but a page can find that a row does not fit. -/
theorem Seeks.rejected (plain : s.catalog.Plain)
    (h : Seeks f tx t 0 s (insertRequests f tx t s) (.error (.schemaMismatch cause)) s') :
    ∃ m, Rejected f tx t m cause s s' := by
  have spares := h.spares plain
  generalize requests : insertRequests f tx t s = all at h
  cases h with
  | unfetched climbs inside failed =>
      exact absurd rfl (climbs.replied plain failed).ne_mismatch
  | ungrown climbs failed =>
      obtain ⟨_, _, io⟩ := append_error failed
      cases io
  | @unfit m s₀ _ rs p _ climbs inside got room unfit =>
      have replied := climbs.replied plain got
      refine ⟨m, ⟨p, replied.here, room, unfit⟩, spares, fun here q => ?_, fun u q => ?_, ?_⟩
      · have way := climbs.cached_eq plain fun k _ below => here k (Nat.le_of_lt below)
        rw [replied.cached_eq (by rw [way]; exact here m (Nat.le_refl _)), way]
      · rw [replied.mode?_of_ok, climbs.escalated plain]
        by_cases last : q = ⟨f.table, m⟩
        · subst last
          simp
        · have number : q.table = f.table → q.number ≠ m := by
            rintro table rfl
            exact last (by rw [← table])
          rw [if_neg fun h => last h.2]
          refine if_congr (and_congr_right fun _ => and_congr_right fun table => ?_) rfl rfl
          simp [number table]
      · rw [replied.frame.2]
        rcases (climbs.numPages (Nat.zero_le _)).2 with same | ⟨longer, few⟩
        · rw [same] at inside ⊢
          exact .inl ⟨inside, rfl⟩
        · exact .inr (by omega)

theorem Files.rejected (plain : s.catalog.Plain) (types : t.schema.types = f.schema.types)
    (h : Files f tx t s (.error (.schemaMismatch cause)) s') : ∃ m, Rejected f tx t m cause s s' := by
  cases h with
  | misfit other => exact absurd types other
  | failed _ seeks => exact seeks.rejected plain

/-- A row of other types is turned away, and that is all, whatever the state. If the types are right
and the row is turned away all the same, then by the page that it was to be stored on. -/
theorem misfit_rejected (stores : Act.Stores s f tx t a) :
    (t.schema.types ≠ f.schema.types →
      a.perform s = (.error (.schemaMismatch (.tableSchema t.schema f.schema)), s)) ∧
    (t.schema.types = f.schema.types → Reachable home s →
      (a.perform s).1 = .error (.schemaMismatch cause) →
        ∃ m, Rejected f tx t m cause s (a.perform s).2) := by
  constructor
  case left =>
    intro types
    cases stores with
    | insertInto =>
        rw [Act.perform, insertInto_foreign types]
        rfl
    | insert entry =>
        simp only [Act.perform, Call.perform, insert_apply, bind_apply, lookup_apply, entry,
          insertInto_foreign types]
        rfl
  case right =>
    intro types reachable rejected
    have seated := reachable.seated
    have plain := seated.housed.plain
    cases stores with
    | insertInto =>
        simp only [Act.perform] at rejected ⊢
        have files := files_of_insertInto plain seated.ordered f tx t
        generalize insertInto f tx t s = outcome at files rejected ⊢
        obtain ⟨err | placed, s'⟩ := outcome
        · cases rejected
          exact files.rejected plain types
        · cases rejected
    | @insert _ table _ e entry =>
        simp only [Act.perform, Call.perform] at rejected ⊢
        have inserts := inserts plain seated.ordered tx table t
        generalize insert tx table t s = outcome at inserts rejected ⊢
        obtain ⟨⟨r, t'⟩, s'⟩ := outcome
        cases inserts with
        | unknown missing =>
            rw [entry] at missing
            cases missing
        | stored => cases rejected
        | failed entry' files =>
            cases rejected
            obtain rfl := Except.ok.inj (entry.symm.trans entry')
            exact files.rejected plain types

/-- A row for the sample table that lacks its only entry. -/
def unsetRow : Tuple :=
  .blank sampleEntry.file.schema

theorem unset_row_rejected :
    let s := sample (Bytes.zeros 1) 1 (by decide)
    let a := Act.call (.insert ⟨1⟩ (.file 0) unsetRow)
    (a.perform s).1 = .error (.schemaMismatch .unsetFields) ∧
      ∃ m, Rejected sampleEntry.file ⟨1⟩ unsetRow m .unsetFields s (a.perform s).2 := by
  intro s a
  have rejected : (a.perform s).1 = .error (.schemaMismatch .unsetFields) := by decide +kernel
  have entry : s.catalog.find (.file 0) = .ok sampleEntry := find_sample (by decide)
  have reachable : Reachable sampleHome s := reachable_sample (by decide) (by decide)
  clear_value s
  exact ⟨rejected, (misfit_rejected (.insert entry)).2 rfl reachable rejected⟩

/-- A row that lacks an entry makes the file grow, is given a lock, and takes its page into the
cache. -/
theorem unset_row_leaves_traces :
    let s := sample [] 1 (by decide)
    Reachable sampleHome s ∧
    let outcome := insert ⟨1⟩ (.file 0) unsetRow s
    outcome.1.1 = .error (.schemaMismatch .unsetFields) ∧
      s.disk.length sampleEntry.file.id = 0 ∧
      outcome.2.disk.length sampleEntry.file.id = pageSize ∧
      s.cached samplePage = none ∧ (outcome.2.cached samplePage).isSome ∧
      s.mode? ⟨1⟩ samplePage = none ∧ outcome.2.mode? ⟨1⟩ samplePage = some .exclusive :=
  ⟨reachable_sample (by decide) (by decide), by decide +kernel⟩

end Store
end HeapStore
