import HeapStore.Proofs.Store.Arising
import HeapStore.Proofs.Store.Pages
import HeapStore.Proofs.Store.Passage
import HeapStore.Proofs.Store.TwoPhase

/-!
A request for a page where no table has a hook: the lock, the cache and the file are come to one
after the other, and it may end at each of them. What the answer is, and what is different
afterwards, is told for every way in which it ends.
-/

namespace HeapStore

/-- What a lock that is granted changes: its own entry, which is no weaker than before. -/
structure LockTable.Secured (tx : TxId) (q : PageId) (m : LockMode) (t t' : LockTable) : Prop where
  has : t'.Has tx q m
  kept : ∀ m', t.Has tx q m' → t'.Has tx q m'
  others : ∀ g : Grant, g.tx ≠ tx ∨ g.page ≠ q → (g ∈ t'.granted ↔ g ∈ t.granted)

theorem LockTable.secured_of_acquire? {t t' : LockTable} {tx : TxId} {q : PageId} {m : LockMode}
    (h : t.acquire? tx q m = some t') : t.Secured tx q m t' where
  has := has_of_acquire? h
  kept _ has := has.acquire? h
  others g other := by
    rw [granted_acquire? h, Grants.add, Set.mem_union, or_iff_left]
    rintro ⟨rfl, _⟩
    exact other.elim (fun h => h rfl) fun h => h rfl

namespace Cache
variable {c c' : Cache} {q v : PageId} {p : HeapPage} {r : Except Error HeapPage}

/-- What a page that has been had changes in the cache: it is there, and the last in the queue, and
of the others at most one is gone, which was clean. -/
structure Served (q : PageId) (p : HeapPage) (c c' : Cache) : Prop where
  here : c'.find? q = some p
  last : ∃ ids, c'.ids = ids ++ [q]
  others : ∃ left : Option PageId, (∀ v ∈ left, ∃ r, c.find? v = some r ∧ r.isDirty = false) ∧
    ∀ id, id ≠ q → c'.find? id = if left = some id then none else c.find? id

theorem find?_of_victim? (h : c.victim? = some v) :
    ∃ r, c.find? v = some r ∧ r.isDirty = false := by
  obtain ⟨f, hf, free⟩ := frame_of_victim? h
  exact ⟨f.page, find?_of_frame hf, (evictable_iff.mp free).2⟩

theorem Gets.served (h : c.Gets q (.ok p) c') : c.Served q p c' where
  here := h.last.1
  last := h.last.2
  others := by
    cases h with
    | hit => exact ⟨none, nofun, fun id _ => (if_neg nofun).symm⟩
    | read =>
        refine ⟨none, nofun, fun id other => ?_⟩
        rw [find?_place, if_neg other, if_neg nofun]
    | @evicting _ v _ _ victim =>
        refine ⟨some v, fun v' hv' => ?_, fun id other => ?_⟩
        · cases hv'
          exact find?_of_victim? victim
        · rw [find?_place, if_neg other, find?_drop]
          simp only [Option.some.injEq, eq_comm]

theorem Gets.unchanged {e : Error} (h : c.Gets q (.error e) c') : c' = c := by
  cases h
  rfl

/-- No page can be made to leave exactly if all are dirty, as long as nobody is writing to one. -/
theorem victim?_eq_none_iff (hc : c.Consistent) :
    c.victim? = none ↔ ∀ id r, c.find? id = some r → r.isDirty := by
  rw [victim?_eq_none]
  constructor
  · intro stuck id r hr
    obtain ⟨f, hf, rfl⟩ := Option.map_eq_some_iff.mp hr
    have evictable := stuck id (hc.mem_ids_of_find? hr) f hf
    simpa [Frame.evictable, hc.unlatched id f hf] using evictable
  · intro dirty id _ f hf
    simp [Frame.evictable, dirty id f.page (find?_of_frame hf)]

/-- There is no room for a page exactly if as many as may be are cached, and all are dirty. -/
theorem insert_eq_error_iff (hc : c.Consistent) (missing : c.contains q = false) (p : HeapPage) :
    (c.insert q p).1 = .error .evictionImpossible ↔
      c.size = c.capacity ∧ ∀ id r, c.find? id = some r → r.isDirty := by
  rw [← victim?_eq_none_iff hc]
  have bounded := hc.bounded
  have inserted := c.inserted q p
  generalize c.insert q p = outcome at inserted ⊢
  obtain ⟨evicted, c'⟩ := outcome
  cases inserted with
  | placed room =>
      have free : c.size < c.capacity := room.resolve_left (by simp [missing])
      exact ⟨nofun, fun full => absurd full.1 (Nat.ne_of_lt free)⟩
  | evicting _ _ oldest =>
      refine ⟨nofun, fun stuck => ?_⟩
      rw [oldest] at stuck
      cases stuck.2
  | refused _ full stuck => exact ⟨fun _ => ⟨Nat.le_antisymm bounded full, stuck⟩, fun _ => rfl⟩

end Cache

namespace Store
variable {s : Store} {tx : TxId} {q : PageId} {a : Access}

theorem frame_of_cached {p : HeapPage} (h : s.cached q = some p) :
    ∃ f, s.pool.cache.table[q]? = some f ∧ f.page = p :=
  Option.map_eq_some_iff.mp h

/-- What a request comes to that no other transaction is in the way of: the lock, whatever is
answered, then the answer, and then what is different in the cache. -/
structure Got (tx : TxId) (q : PageId) (a : Access) (s : Store) (r : Except Error HeapPage)
    (s' : Store) : Prop where
  lock : s.pool.locks.Secured tx q a.mode s'.pool.locks
  hit : ∀ p, s.cached q = some p → r = .ok p
  unread : ∀ e, s.cached q = none → s.onFile q = .error e → r = .error e ∧ Unread q e
  crowded : ∀ p, s.cached q = none → s.onFile q = .ok p →
    (r = .error .evictionImpossible ↔ s.pool.cache.size = s.pool.cache.capacity ∧
      ∀ q' p', s.cached q' = some p' → p'.isDirty)
  read : ∀ p, s.cached q = none → s.onFile q = .ok p → r ≠ .error .evictionImpossible →
    r = .ok p ∧ p.isDirty = false
  failed : ∀ e, r = .error e → s'.pool.cache = s.pool.cache
  served : ∀ p, r = .ok p → s.pool.cache.Served q p s'.pool.cache
  frame : s' = { s with pool.locks := s'.pool.locks, pool.cache := s'.pool.cache }

/-- What becomes of the cache follows from the answer, so what remains is which answer it is. -/
theorem got_of_gets {locks : LockTable} {r : Except Error HeapPage} {s' : Store}
    (cache : s.pool.cache.Consistent) (ha : s.pool.locks.acquire? tx q a.mode = some locks)
    (gets : s.pool.cache.Gets q r s'.pool.cache)
    (frame : s' = { s with pool.locks := locks, pool.cache := s'.pool.cache })
    (hit : ∀ p, s.cached q = some p → r = .ok p)
    (unread : ∀ e, s.cached q = none → s.onFile q = .error e → r = .error e)
    (read : ∀ p, s.cached q = none → s.onFile q = .ok p →
      r = (s.pool.cache.insert q p).1.map fun _ => p) : Got tx q a s r s' := by
  have missing (absent : s.cached q = none) : s.pool.cache.contains q = false := by
    rw [Cache.contains_eq, show s.pool.cache.find? q = none from absent]
    rfl
  constructor
  case lock => exact frame ▸ LockTable.secured_of_acquire? ha
  case hit => exact hit
  case unread => exact fun e absent fails => ⟨unread e absent fails, unread_of_onFile fails⟩
  case crowded =>
    intro p absent found
    rw [read p absent found]
    refine Iff.trans ?_ (Cache.insert_eq_error_iff cache (missing absent) p)
    cases (s.pool.cache.insert q p).1 <;> simp [Except.map]
  case read =>
    intro p absent found room
    have answer := read p absent found
    have inserted := s.pool.cache.inserted q p
    generalize s.pool.cache.insert q p = outcome at answer inserted
    obtain ⟨evicted, _⟩ := outcome
    refine ⟨?_, isDirty_eq_false.mpr (asRead_of_onFile found).clean⟩
    cases inserted with
    | placed => exact answer
    | evicting => exact answer
    | refused => exact absurd answer room
  case failed =>
    rintro e rfl
    exact gets.unchanged
  case served =>
    rintro p rfl
    exact gets.served
  case frame =>
    have locks_eq : s'.pool.locks = locks := by rw [frame]
    rw [locks_eq]
    exact frame

theorem got_of_acquire? {locks : LockTable} (plain : s.catalog.Plain)
    (cache : s.pool.cache.Consistent) (ha : s.pool.locks.acquire? tx q a.mode = some locks) :
    Got tx q a s (fetch tx q a s).1 (fetch tx q a s).2 := by
  have gets := (gets_of_plain plain tx q a).1
  rw [fetch_eq_obtain (plain.unhooked q.table)] at gets ⊢
  simp only [obtain, ha] at gets ⊢
  cases here : s.cached q with
  | some p =>
      simp only [here] at gets ⊢
      exact got_of_gets cache ha gets rfl (by simp [here]) (by simp [here]) (by simp [here])
  | none =>
      cases found : s.onFile q with
      | error e =>
          simp only [here, found] at gets ⊢
          exact got_of_gets cache ha gets rfl (by simp [here]) (by simp [found]) (by simp [found])
      | ok p =>
          simp only [here, found] at gets ⊢
          exact got_of_gets cache ha gets rfl (by simp [here]) (by simp [found]) (by simp [found])

/-- A request either finds another transaction in the way, and then nothing at all is different, or
it comes to what is to be had. -/
theorem get_is_exact (arises : Arises s) (plain : s.catalog.Plain)
    (unlatched : ∀ (id : PageId) (f : Frame), s.pool.cache.table[id]? = some f → f.latched = false)
    (tx : TxId) (q : PageId) (a : Access) :
    (¬ Grants.Allows s.pool.locks.granted tx q a.mode →
      fetch tx q a s = (.error (.lockTimeout tx q), s)) ∧
    (Grants.Allows s.pool.locks.granted tx q a.mode →
      Got tx q a s (fetch tx q a s).1 (fetch tx q a s).2) := by
  rw [← LockTable.isSome_acquire?]
  cases ha : s.pool.locks.acquire? tx q a.mode with
  | none =>
      refine ⟨fun _ => ?_, fun granted => absurd granted Bool.false_ne_true⟩
      rw [fetch_eq_obtain (plain.unhooked q.table), obtain, ha]
  | some locks =>
      have cache : s.pool.cache.Consistent := ⟨arises.coherent.cache, unlatched⟩
      exact ⟨fun refused => absurd rfl refused, fun _ => got_of_acquire? plain cache ha⟩

/-- A row has been stored, there is no room for another page than its own, and there is another page
in the file. -/
def crowded : Store :=
  { oneRow 1 Nat.one_pos with
    catalog := Catalog.add {} sampleEntry
    disk := emptyPages
    parked := [] }

theorem arises_crowded : Arises crowded :=
  (arises_oneRow Nat.one_pos (by decide)).elsewhere (Catalog.keyed_default.add sampleEntry)
    emptyPages []

theorem frame_crowded {id : PageId} {f : Frame}
    (hf : crowded.pool.cache.table[id]? = some f) : f.latched = false ∧ f.page.isDirty := by
  have all : (crowded.pool.cache.table.toList.all fun x =>
      !x.2.latched && x.2.page.isDirty) = true := by
    decide +kernel
  have listed := Std.ExtTreeMap.mem_toList_iff_getElem?_eq_some.mpr hf
  simpa using List.all_eq_true.mp all ⟨id, f⟩ listed

/-- The row is in the way of who reads its page, and of who needs room for the other page. -/
theorem crowded_get_is_exact :
    let second : PageId := ⟨.file 0, 1⟩
    fetch ⟨2⟩ samplePage .readOnly crowded = (.error (.lockTimeout ⟨2⟩ samplePage), crowded) ∧
      (fetch ⟨2⟩ second .readOnly crowded).1 = .error .evictionImpossible ∧
      (fetch ⟨2⟩ second .readOnly crowded).2.pool.cache = crowded.pool.cache ∧
      (fetch ⟨2⟩ second .readOnly crowded).2.pool.locks.Has ⟨2⟩ second .shared := by
  intro second
  have plain : crowded.catalog.Plain := Catalog.plain_default.add rfl
  have unlatched (id : PageId) (f : Frame) (hf : crowded.pool.cache.table[id]? = some f) :
      f.latched = false := (frame_crowded hf).1
  have dirty (q : PageId) (p : HeapPage) (hp : crowded.cached q = some p) : p.isDirty := by
    obtain ⟨f, hf, rfl⟩ := frame_of_cached hp
    exact (frame_crowded hf).2
  obtain ⟨inTheWay, free, absent, full, file⟩ :
      ¬ (crowded.pool.locks.acquire? ⟨2⟩ samplePage .shared).isSome = true ∧
      (crowded.pool.locks.acquire? ⟨2⟩ second .shared).isSome = true ∧
      crowded.cached second = none ∧ crowded.pool.cache.size = crowded.pool.cache.capacity ∧
      (crowded.onFile second).isOk = true := by
    decide +kernel
  rw [LockTable.isSome_acquire?] at inTheWay free
  obtain ⟨p, readable⟩ := exists_of_isOk file
  have refused := (get_is_exact arises_crowded plain unlatched ⟨2⟩ samplePage .readOnly).1 inTheWay
  have got := (get_is_exact arises_crowded plain unlatched ⟨2⟩ second .readOnly).2 free
  have noRoom := (got.crowded p absent readable).mpr ⟨full, dirty⟩
  exact ⟨refused, noRoom, got.failed _ noRoom, got.lock.has⟩

end Store
end HeapStore
