import HeapStore.Proofs.Store.Basic

/-!
What it takes to look at a page. The answer is the cached page, or else the page of the file, and
the page is cached afterwards; what may be lost on the way is one clean page. The same holds of a
search: it locks pages, lets go of full ones and makes the file grow, and nothing that is cached or
on file is any different.
-/

namespace HeapStore.Store
open Std
variable {T : Tables} {s s' s₁ s₂ : Store} {tx u : TxId} {q : PageId} {a : Access} {m : LockMode}
  {p : HeapPage}

/-- The lock is granted and nothing else is touched but the cache. -/
structure Granted (tx : TxId) (q : PageId) (m : LockMode) (s s' : Store) : Prop where
  locks : s.pool.locks.acquire? tx q m = some s'.pool.locks
  catalog : s'.catalog = s.catalog
  disk : s'.disk = s.disk
  cache : s'.pool.cache.Consistent

/-- The ways in which a request for a page ends. -/
inductive Fetched (tx : TxId) (q : PageId) (a : Access) (s : Store) :
    Except Error HeapPage → Store → Prop
  | refused (h : s.pool.locks.acquire? tx q a.mode = none) :
      Fetched tx q a s (.error (.lockTimeout tx q)) s
  | hit {p : HeapPage} {s' : Store} (granted : Granted tx q a.mode s s')
      (here : s.cached q = some p) (same : ∀ q', s'.cached q' = s.cached q') :
      Fetched tx q a s (.ok p) s'
  | unread {e : Error} {s' : Store} (granted : Granted tx q a.mode s s')
      (absent : s.cached q = none) (unreadable : s.onFile q = .error e)
      (same : ∀ q', s'.cached q' = s.cached q') : Fetched tx q a s (.error e) s'
  | crowded {s' : Store} (granted : Granted tx q a.mode s s') (absent : s.cached q = none)
      (dirty : ∃ q' p, s.cached q' = some p ∧ p.isDirty)
      (same : ∀ q', s'.cached q' = s.cached q') : Fetched tx q a s (.error .evictionImpossible) s'
  | miss {p : HeapPage} {s' : Store} (granted : Granted tx q a.mode s s')
      (absent : s.cached q = none) (read : s.onFile q = .ok p) (here : s'.cached q = some p)
      (others : ∀ q', q' ≠ q → s'.cached q' = s.cached q' ∨
        s'.cached q' = none ∧ ∃ p, s.cached q' = some p ∧ p.isDirty = false) :
      Fetched tx q a s (.ok p) s'

/-- A table without a hook is read at once, whatever is pending elsewhere. -/
theorem read_of_plain (interrupt : List Action → StoreM Unit) {e : Entry} (he : e.hook = none)
    (q : PageId) (s : Store) : read interrupt e q s = (e.file.readPage s.disk q, s) := by
  simp only [read, he]
  rfl

/-- Without a hook the file has the page, or says why there is none. -/
theorem lookup_read {q : PageId} (hs : s.catalog.Unhooked q.table)
    (interrupt : List Action → StoreM Unit) :
    (do read interrupt (← lookup q.table) q : StoreM HeapPage) s = (s.onFile q, s) := by
  rw [bind_apply, lookup_apply, onFile]
  cases he : s.catalog.find q.table with
  | error e => rfl
  | ok e => exact read_of_plain interrupt (hs e he) q s

/-- A request as it goes where no table has a hook. -/
def obtain (tx : TxId) (q : PageId) (a : Access) (s : Store) : Except Error HeapPage × Store :=
  match s.pool.locks.acquire? tx q a.mode with
  | none => (.error (.lockTimeout tx q), s)
  | some locks =>
    match s.cached q, s.onFile q with
    | some p, _ => (.ok p, { s with pool.locks := locks, pool.cache := s.pool.cache.touch q })
    | none, .error e => (.error e, { s with pool.locks := locks })
    | none, .ok p =>
      let (evicted, cache) := s.pool.cache.insert q p
      (evicted.map fun _ => p, { s with pool.locks := locks, pool.cache := cache })

theorem fetchWith_eq_obtain (unhooked : s.catalog.Unhooked q.table)
    (interrupt : List Action → StoreM Unit) (tx : TxId) (a : Access) :
    fetchWith interrupt tx q a s = obtain tx q a s := by
  unfold fetchWith obtain
  rw [bind_apply, acquire_apply]
  cases s.pool.locks.acquire? tx q a.mode with
  | none => rfl
  | some locks =>
      simp only [bind_apply, cached?_apply]
      cases here : s.cached q with
      | some p =>
          have found : s.pool.cache.find? q = some p := here
          simp only [found, Cache.use_of_some found]
          rfl
      | none =>
          have found : s.pool.cache.find? q = none := here
          have unused := Cache.use_of_none found
          have hread := lookup_read (s := { s with pool.locks := locks }) unhooked interrupt
          simp only [found, unused, ← bind_assoc]
          rw [bind_apply, hread, show onFile { s with pool.locks := locks } q = s.onFile q from rfl]
          cases s.onFile q with
          | error e => rfl
          | ok p =>
              simp only [bind_apply, cached?_apply, found, unused, keep_apply]
              cases (s.pool.cache.insert q p).1 <;> rfl

/-- Pending actions make no difference to a request for a page of a table that has no hook. -/
theorem fetch_eq_obtain (unhooked : s.catalog.Unhooked q.table) (tx : TxId) (a : Access) :
    fetch tx q a s = obtain tx q a s := by
  have nested : fetch tx q a s = fetchNested s.pendingReads tx q a s := by
    rw [fetch, bind_apply, get_apply]
  rw [nested]
  cases s.pendingReads with
  | zero => exact fetchWith_eq_obtain unhooked _ tx a
  | succ depth => exact fetchWith_eq_obtain unhooked _ tx a

/-- The ways in which a request ends where no table has a hook, with all that is different then. -/
inductive Obtained (tx : TxId) (q : PageId) (a : Access) (s : Store) :
    Except Error HeapPage → Store → Prop
  | refused (locks : s.pool.locks.acquire? tx q a.mode = none) :
      Obtained tx q a s (.error (.lockTimeout tx q)) s
  | hit {locks : LockTable} {p : HeapPage}
      (granted : s.pool.locks.acquire? tx q a.mode = some locks)
      (here : s.cached q = some p) : Obtained tx q a s (.ok p)
        { s with pool.locks := locks, pool.cache := s.pool.cache.touch q }
  | unread {locks : LockTable} {e : Error}
      (granted : s.pool.locks.acquire? tx q a.mode = some locks)
      (absent : s.cached q = none) (file : s.onFile q = .error e) :
      Obtained tx q a s (.error e) { s with pool.locks := locks }
  | read {locks : LockTable} {p : HeapPage} {evicted : Except Error (Option PageId)} {cache : Cache}
      (granted : s.pool.locks.acquire? tx q a.mode = some locks) (absent : s.cached q = none)
      (file : s.onFile q = .ok p) (inserted : s.pool.cache.insert q p = (evicted, cache)) :
      Obtained tx q a s (evicted.map fun _ => p)
        { s with pool.locks := locks, pool.cache := cache }

theorem obtained (unhooked : s.catalog.Unhooked q.table) (tx : TxId) (a : Access) :
    Obtained tx q a s (fetch tx q a s).1 (fetch tx q a s).2 := by
  rw [fetch_eq_obtain unhooked]
  cases locks : s.pool.locks.acquire? tx q a.mode with
  | none =>
      simp only [obtain, locks]
      exact .refused locks
  | some locks' =>
      cases here : s.cached q with
      | some p =>
          simp only [obtain, locks, here]
          exact .hit locks here
      | none =>
          cases file : s.onFile q with
          | error e =>
              simp only [obtain, locks, here, file]
              exact .unread locks here file
          | ok p =>
              simp only [obtain, locks, here, file]
              exact .read locks here file rfl

theorem fetched_of_plain (plain : s.catalog.Plain) (cache : s.pool.cache.Consistent) (tx : TxId)
    (q : PageId) (a : Access) :
    Fetched tx q a s (fetch tx q a s).1 (fetch tx q a s).2 := by
  have obtained := obtained (plain.unhooked q.table) tx a
  generalize (fetch tx q a s).1 = r, (fetch tx q a s).2 = s' at obtained ⊢
  cases obtained with
  | refused locks => exact .refused locks
  | hit granted here =>
      have touched : (s.pool.cache.touch q).Consistent := Cache.use_of_some here ▸ cache.use q
      exact .hit ⟨granted, rfl, rfl, touched⟩ here fun q' => Cache.find?_touch _ q q'
  | unread granted absent file => exact .unread ⟨granted, rfl, rfl, cache⟩ absent file fun _ => rfl
  | @read locks p evicted cache' granted absent file ended =>
      have id : p.id = q := (asRead_of_onFile file).id
      cases evicted with
      | error e =>
          have inserted := s.pool.cache.inserted q p
          rw [ended] at inserted
          cases inserted with
          | refused _ full stuck =>
              exact .crowded ⟨granted, rfl, rfl, cache⟩ absent
                (Cache.dirty_of_stuck cache full stuck) fun _ => rfl
      | ok evicted =>
          have admitted := Cache.admitted_of_insert cache id ended
          exact .miss ⟨granted, rfl, rfl, admitted.consistent⟩ absent file (id ▸ admitted.here)
            fun q' other => admitted.others q' (id ▸ other)

theorem fetched (hs : s.Intact T) (tx : TxId) (q : PageId) (a : Access) :
    Fetched tx q a s (fetch tx q a s).1 (fetch tx q a s).2 :=
  fetched_of_plain hs.tables.plain hs.cache tx q a

theorem Granted.mode? (g : Granted tx q m s s') (u : TxId) (q' : PageId) :
    s'.mode? u q' =
      if u = tx ∧ q' = q then
        if m = .exclusive then some .exclusive else some ((s.mode? tx q).getD .shared)
      else s.mode? u q' :=
  LockTable.mode?_acquire? g.locks u q'

/-- Looking around: files may have grown by empty pages, clean pages may have left the cache or come
into it as the files have them, and `tx` may hold more locks. -/
structure Calm (tx : TxId) (s s' : Store) : Prop where
  catalog : s'.catalog = s.catalog
  faults : s'.disk.faults = s.disk.faults
  locks : s'.pool.locks.Consistent
  cache : s'.pool.cache.Consistent
  files : ∀ (f : HeapFile) q, f.readPage s'.disk q = f.readPage s.disk q ∨
    f.readPage s.disk q = .error (.pageOutOfRange q) ∧
      f.readPage s'.disk q = .ok (.empty q f.schema)
  cached : ∀ q, s'.cached q = s.cached q ∨
    (∀ p, s.cached q = some p → p.dirtiedBy = none) ∧
      ∀ p, s'.cached q = some p → s'.onFile q = .ok p
  exclusive : ∀ u q, s.mode? u q = some .exclusive → s'.mode? u q = some .exclusive
  others : ∀ u, u ≠ tx → ∀ q, s'.mode? u q = s.mode? u q

theorem Calm.refl (hs : s.Intact T) (tx : TxId) : Calm tx s s where
  catalog := rfl
  faults := rfl
  locks := hs.locks
  cache := hs.cache
  files _ _ := .inl rfl
  cached _ := .inl rfl
  exclusive _ _ h := h
  others _ _ _ := rfl

theorem Calm.readable (h : Calm tx s s') (hd : s.disk.Readable) : s'.disk.Readable := by
  rw [Disk.Readable, h.faults]
  exact hd

theorem Calm.reliable (h : Calm tx s s') (hd : s.disk.Reliable) : s'.disk.Reliable :=
  ⟨by rw [h.faults]; exact hd.read, by rw [h.faults]; exact hd.write⟩

theorem Calm.page (h : Calm tx s s') (T : Tables) (q : PageId) :
    T.page s' q = T.page s q ∨
      T.page s q = .error (.pageOutOfRange q) ∧
        T.page s' q = .ok (.empty q (T.file q.table).schema) :=
  h.files (T.file q.table) q

theorem Calm.page_ok (h : Calm tx s s') (hp : T.page s q = .ok p) : T.page s' q = .ok p := by
  rcases h.page T q with same | ⟨out, _⟩
  · rw [same, hp]
  · rw [hp] at out
    cases out

theorem Calm.file (h : Calm tx s s') (q : PageId) :
    s'.onFile q = s.onFile q ∨
      s.onFile q = .error (.pageOutOfRange q) ∧ ∃ schema, s'.onFile q = .ok (.empty q schema) := by
  simp only [onFile, h.catalog]
  cases s.catalog.find q.table with
  | error e => exact .inl rfl
  | ok e =>
      rcases h.files e.file q with same | ⟨out, grown⟩
      · exact .inl same
      · exact .inr ⟨out, _, grown⟩

theorem Calm.onFile_ok (h : Calm tx s s') (hp : s.onFile q = .ok p) : s'.onFile q = .ok p := by
  rcases h.file q with same | ⟨out, _⟩
  · rw [same, hp]
  · rw [hp] at out
    cases out

/-- A page that is cached afterwards was cached before, or is as the file has it. -/
theorem Calm.stayed_or_read (hs : s.Sound) (h : Calm tx s s') (hp : s'.cached q = some p) :
    s.cached q = some p ∧ s'.onFile q = s.onFile q ∨
      s'.onFile q = .ok p ∧ ∀ p₀, s.cached q = some p₀ → p₀.dirtiedBy = none := by
  rcases h.cached q with same | ⟨clean, read⟩
  · left
    rw [same] at hp
    obtain ⟨f, hf, _⟩ := (hs.pages q p hp).file
    exact ⟨hp, by rw [h.onFile_ok hf, hf]⟩
  · exact .inr ⟨read p hp, clean⟩

theorem Calm.dirty_stays (h : Calm tx s s') (hp : s.cached q = some p) (hd : p.dirtiedBy = some u) :
    s'.cached q = some p := by
  rcases h.cached q with same | ⟨clean, _⟩
  · rw [same, hp]
  · rw [clean p hp] at hd
    cases hd

theorem Calm.tables (h : Calm tx s s') (ht : T.Hold s.catalog) : T.Hold s'.catalog := by
  rw [h.catalog]
  exact ht

theorem Calm.intact (hs : s.Intact T) (h : Calm tx s s') : s'.Intact T where
  tables := h.tables hs.tables
  readable := h.readable hs.readable
  locks := h.locks
  cache := h.cache
  pages q p hp := by
    rcases h.cached q with same | ⟨_, read⟩
    · rw [same] at hp
      have old := hs.pages q p hp
      obtain ⟨f, hf⟩ := old.file
      exact ⟨old.sound, old.schema, ⟨f, h.page_ok hf⟩, old.reverts⟩
    · exact kept_of_page (page_of_onFile (h.tables hs.tables) (read p hp))

theorem Calm.owned (h : Calm tx s s') (ho : s.Owned) : s'.Owned := by
  intro q p u hp hu
  rcases h.cached q with same | ⟨_, read⟩
  · exact h.exclusive u q (ho q p u (same ▸ hp) hu)
  · rw [(asRead_of_onFile (read p hp)).clean] at hu
    cases hu

theorem Calm.sound (hs : s.Sound) (h : Calm tx s s') : s'.Sound := by
  apply (h.intact hs.intact).sound (h.reliable hs.reliable) _ (h.owned hs.owned)
  intro q p hp
  rw [h.catalog]
  rcases h.cached q with same | ⟨_, read⟩
  · exact hs.registered (same ▸ hp)
  · obtain ⟨e, he⟩ := find_of_onFile (read p hp)
    exact ⟨e, by rw [← h.catalog, he]⟩

theorem Calm.trans (h₁ : Calm tx s s₁) (h₂ : Calm tx s₁ s₂) : Calm tx s s₂ where
  catalog := h₂.catalog.trans h₁.catalog
  faults := h₂.faults.trans h₁.faults
  locks := h₂.locks
  cache := h₂.cache
  files f q := by
    rcases h₁.files f q with same | ⟨out, grown⟩
    · rw [← same]
      exact h₂.files f q
    · right
      refine ⟨out, ?_⟩
      rcases h₂.files f q with same | ⟨out', _⟩
      · rw [same, grown]
      · rw [grown] at out'
        cases out'
  cached q := by
    rcases h₁.cached q with same | ⟨clean, read⟩
    · rw [← same]
      exact h₂.cached q
    · refine .inr ⟨clean, fun p hp => ?_⟩
      rcases h₂.cached q with stayed | ⟨_, now⟩
      · exact h₂.onFile_ok (read p (stayed ▸ hp))
      · exact now p hp
  exclusive u q h := h₂.exclusive u q (h₁.exclusive u q h)
  others u hu q := (h₂.others u hu q).trans (h₁.others u hu q)

theorem Granted.onFile (g : Granted tx q m s s') (q' : PageId) :
    s'.onFile q' = s.onFile q' := by
  simp only [Store.onFile, g.catalog, g.disk]

theorem Granted.calm (hs : s.Intact T) (g : Granted tx q m s s')
    (cached : ∀ q, s'.cached q = s.cached q ∨
      (∀ p, s.cached q = some p → p.dirtiedBy = none) ∧
        ∀ p, s'.cached q = some p → s.onFile q = .ok p) : Calm tx s s' where
  catalog := g.catalog
  faults := by rw [g.disk]
  locks := hs.locks.acquire? g.locks
  cache := g.cache
  files f q := .inl (by rw [g.disk])
  cached q := by
    rw [g.onFile]
    exact cached q
  exclusive u q h := by
    rw [g.mode?]
    split
    next here =>
      obtain ⟨rfl, rfl⟩ := here
      simp [h]
    next => exact h
  others u hu q := by
    rw [g.mode?, if_neg (fun here => hu here.1)]

theorem Fetched.calm {r : Except Error HeapPage} (hs : s.Intact T) (h : Fetched tx q a s r s') :
    Calm tx s s' := by
  cases h with
  | refused _ => exact .refl hs tx
  | hit granted _ same => exact granted.calm hs fun q' => .inl (same q')
  | unread granted _ _ same => exact granted.calm hs fun q' => .inl (same q')
  | crowded granted _ _ same => exact granted.calm hs fun q' => .inl (same q')
  | miss granted absent read here others =>
      apply granted.calm hs
      intro q'
      by_cases hq : q' = q
      · subst hq
        refine .inr ⟨?_, ?_⟩
        · intro p₀ h₀
          rw [absent] at h₀
          cases h₀
        · intro p₁ h₁
          rw [here] at h₁
          cases h₁
          exact read
      · rcases others q' hq with same | ⟨gone, p₀, h₀, clean⟩
        · exact .inl same
        · refine .inr ⟨?_, ?_⟩
          · intro p₁ h₁
            rw [h₀] at h₁
            cases h₁
            simpa [HeapPage.isDirty] using clean
          · intro p₁ h₁
            rw [gone] at h₁
            cases h₁

/-- A request writes nothing. -/
theorem Fetched.frame {r : Except Error HeapPage} (h : Fetched tx q a s r s') :
    s'.catalog = s.catalog ∧ s'.disk = s.disk := by
  cases h with
  | refused _ => exact ⟨rfl, rfl⟩
  | hit granted _ _ => exact ⟨granted.catalog, granted.disk⟩
  | unread granted _ _ _ => exact ⟨granted.catalog, granted.disk⟩
  | crowded granted _ _ _ => exact ⟨granted.catalog, granted.disk⟩
  | miss granted _ _ _ _ => exact ⟨granted.catalog, granted.disk⟩

theorem Fetched.onFile {r : Except Error HeapPage} (h : Fetched tx q a s r s') (q' : PageId) :
    s'.onFile q' = s.onFile q' := by
  simp only [Store.onFile, h.frame.1, h.frame.2]

/-- A page that is handed out is cached, and locked as it was asked for. -/
structure Serves (tx : TxId) (q : PageId) (a : Access) (s : Store) (p : HeapPage) (s' : Store) :
    Prop where
  calm : Calm tx s s'
  here : s'.cached q = some p
  locked : a = .readWrite → s'.mode? tx q = some .exclusive

/-- A page that is handed out is cached. -/
theorem Fetched.here (h : Fetched tx q a s (.ok p) s') : s'.cached q = some p := by
  cases h with
  | hit _ here same => exact (same q).trans here
  | miss _ _ _ here _ => exact here

/-- The lock that was asked for has been granted, or nothing has happened. -/
theorem Fetched.granted_or_same {r : Except Error HeapPage} (h : Fetched tx q a s r s') :
    (∃ e, r = .error e) ∧ s' = s ∨ Granted tx q a.mode s s' := by
  cases h with
  | refused _ => exact .inl ⟨⟨_, rfl⟩, rfl⟩
  | hit granted _ _ => exact .inr granted
  | unread granted _ _ _ => exact .inr granted
  | crowded granted _ _ _ => exact .inr granted
  | miss granted _ _ _ _ => exact .inr granted

theorem Fetched.locked (h : Fetched tx q .readWrite s (.ok p) s') :
    s'.mode? tx q = some .exclusive := by
  rcases h.granted_or_same with ⟨⟨_, failed⟩, _⟩ | granted
  · cases failed
  · rw [granted.mode?, if_pos ⟨rfl, rfl⟩]
    rfl

theorem Fetched.serves (hs : s.Intact T) (h : Fetched tx q a s (.ok p) s') :
    Serves tx q a s p s' := by
  refine ⟨h.calm hs, h.here, ?_⟩
  rintro rfl
  exact h.locked

/-- A page that is cached after a request was so before, or is as its file has it. -/
theorem Fetched.cached_or_read {r : Except Error HeapPage} {q' : PageId}
    (h : Fetched tx q a s r s') (hp : s'.cached q' = some p) :
    s.cached q' = some p ∨ s.onFile q' = .ok p := by
  cases h with
  | refused _ => exact .inl hp
  | hit _ _ same => exact .inl (same q' ▸ hp)
  | unread _ _ _ same => exact .inl (same q' ▸ hp)
  | crowded _ _ _ same => exact .inl (same q' ▸ hp)
  | miss _ _ read here others =>
      by_cases hq : q' = q
      · subst hq
        rw [here] at hp
        cases hp
        exact .inr read
      · rcases others q' hq with same | ⟨gone, _⟩
        · exact .inl (same ▸ hp)
        · rw [gone] at hp
          cases hp

/-- A page that is cached before and after a request was not read again in between. -/
theorem Fetched.kept {r : Except Error HeapPage} (h : Fetched tx q a s r s') {q' : PageId}
    (hp : s.cached q' = some p) (hc : (s'.cached q').isSome) : s'.cached q' = some p := by
  cases h with
  | refused _ => exact hp
  | hit _ _ same => rw [same, hp]
  | unread _ _ _ same => rw [same, hp]
  | crowded _ _ _ same => rw [same, hp]
  | miss _ absent _ _ others =>
      have hq : q' ≠ q := by
        rintro rfl
        rw [hp] at absent
        cases absent
      rcases others q' hq with same | ⟨gone, _⟩
      · rw [same, hp]
      · rw [gone] at hc
        cases hc

theorem letGo_apply (held : Bool) (tx : TxId) (q : PageId) (s : Store) :
    letGo held tx q s =
      (.ok (), if held then s else { s with pool.locks := s.pool.locks.release tx q }) := by
  cases held <;> rfl

/-- To let go of a page that was not held before leaves things as calm as they were. -/
theorem Calm.letGo (h : Calm tx s s') (q : PageId) :
    Calm tx s (letGo (s.pool.locks.holds tx q) tx q s').2 := by
  rw [letGo_apply]
  cases hh : s.pool.locks.holds tx q with
  | true => exact h
  | false =>
      have free : s.mode? tx q = none := by
        simpa [LockTable.holds, mode?] using hh
      refine { h with locks := h.locks.release tx q, exclusive := ?_, others := ?_ }
      · intro u q' hx
        have keep := h.exclusive u q' hx
        show (s'.pool.locks.release tx q).mode? u q' = _
        rw [LockTable.mode?_release, if_neg]
        · exact keep
        · rintro ⟨rfl, rfl⟩
          rw [free] at hx
          cases hx
      · intro u hu q'
        show (s'.pool.locks.release tx q).mode? u q' = _
        rw [LockTable.mode?_release, if_neg (fun here => hu here.1)]
        exact h.others u hu q'

theorem calm_of_append {f : HeapFile} {disk : Disk TableId} (hs : s.Intact T) (tx : TxId)
    (appended : f.appendPage s.disk = .ok disk) : Calm tx s { s with disk } := by
  have read := HeapFile.readPage_appended hs.readable appended
  have files (g : HeapFile) (q : PageId) : g.readPage disk q = g.readPage s.disk q ∨
      g.readPage s.disk q = .error (.pageOutOfRange q) ∧
        g.readPage disk q = .ok (.empty q g.schema) := by
    by_cases new : g.id = f.id ∧ q = ⟨f.table, f.numPages s.disk⟩
    · obtain ⟨same, rfl⟩ := new
      refine .inr ⟨?_, by rw [read, if_pos ⟨same, rfl⟩]⟩
      rw [HeapFile.readPage_of_outside (by simp [HeapFile.numPages_congr same]),
        PageId.missing_of_addressable (HeapFile.addressable_numPages ..)]
    · exact .inl (by rw [read, if_neg new])
  exact { Calm.refl hs tx with
    faults := (HeapFile.appendPage_ok appended).faults, files, cached := fun _ => .inl rfl }

theorem onFile_of_append {t : TableId} {e : Entry} {disk : Disk TableId} (hs : s.Intact T)
    (he : s.catalog.find t = .ok e) (appended : e.file.appendPage s.disk = .ok disk)
    (q : PageId) : ({ s with disk } : Store).onFile q =
      if q = ⟨t, e.file.numPages s.disk⟩ then .ok (.empty q e.file.schema) else s.onFile q := by
  have table : e.file.table = t := (hs.tables.plain _ _ (Catalog.find_ok he)).1
  simp only [onFile]
  cases hq : s.catalog.find q.table with
  | error err =>
      rw [if_neg]
      · rfl
      · rintro rfl
        simp [he] at hq
  | ok g =>
      show g.file.readPage disk q = _
      rw [HeapFile.readPage_appended hs.readable appended, table]
      by_cases new : q = ⟨t, e.file.numPages s.disk⟩
      · obtain rfl : e = g := by simpa [new, he] using hq
        rw [if_pos ⟨rfl, new⟩, if_pos new]
      · rw [if_neg (fun here => new here.2), if_neg new]
        rfl

/-- A file that grows has one more page, which is empty. -/
theorem append_cases (hs : s.Intact T) {t : TableId} {e : Entry} (he : s.catalog.find t = .ok e)
    (tx : TxId) :
    (∃ cause, append e.file s = (.error (.io cause), s)) ∨
      ∃ s', append e.file s = (.ok (), s') ∧ Calm tx s s' ∧ s'.pool = s.pool ∧
        ∀ q, s'.onFile q =
          if q = ⟨t, e.file.numPages s.disk⟩ then .ok (.empty q e.file.schema) else s.onFile q := by
  rw [append_apply]
  cases appended : e.file.appendPage s.disk with
  | error err =>
      obtain ⟨cause, rfl⟩ := HeapFile.appendPage_error appended
      exact .inl ⟨cause, rfl⟩
  | ok disk =>
      exact .inr ⟨_, rfl, calm_of_append hs tx appended, rfl, onFile_of_append hs he appended⟩

end HeapStore.Store
