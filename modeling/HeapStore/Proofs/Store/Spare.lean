import HeapStore.Proofs.Growth
import HeapStore.Proofs.Recency
import HeapStore.Proofs.Store.Fetch
import HeapStore.Store.Request

/-!
What requests for pages spare, whoever is writing to which page in the meantime. A page that is
cached stays as it is, unless it is clean and leaves the cache; a page that comes into the cache is
as its file has it; and the files do no more than grow.
-/

namespace HeapStore.Store
open Std
variable {s s' s₁ : Store} {tx u : TxId} {q q' : PageId} {a : Access} {p : HeapPage}
  {r : Except Error HeapPage} {rs rs' : List PageRequest} {file : FileId TableId}

/-- A lock is granted, and nothing else is touched but the cache. -/
structure Locks (tx : TxId) (q : PageId) (m : LockMode) (s s' : Store) : Prop where
  locks : s.pool.locks.acquire? tx q m = some s'.pool.locks
  catalog : s'.catalog = s.catalog
  disk : s'.disk = s.disk

/-- The ways in which a request for a page ends, also while somebody is writing to pages. -/
inductive Replied (tx : TxId) (q : PageId) (a : Access) (s : Store) :
    Except Error HeapPage → Store → Prop
  | refused (h : s.pool.locks.acquire? tx q a.mode = none) :
      Replied tx q a s (.error (.lockTimeout tx q)) s
  | failed {e : Error} {s' : Store} (granted : Locks tx q a.mode s s')
      (absent : s.cached q = none) (why : s.onFile q = .error e ∨ e = .evictionImpossible)
      (same : ∀ q', s'.cached q' = s.cached q') : Replied tx q a s (.error e) s'
  | hit {p : HeapPage} {s' : Store} (granted : Locks tx q a.mode s s')
      (here : s.cached q = some p) (same : ∀ q', s'.cached q' = s.cached q') :
      Replied tx q a s (.ok p) s'
  | read {p : HeapPage} {s' : Store} (granted : Locks tx q a.mode s s')
      (absent : s.cached q = none) (read : s.onFile q = .ok p) (here : s'.cached q = some p)
      (others : ∀ q', q' ≠ q → s'.cached q' = s.cached q' ∨
        s'.cached q' = none ∧ ∃ p, s.cached q' = some p ∧ p.dirtiedBy = none) :
      Replied tx q a s (.ok p) s'

/-- What becomes of the pages in the cache when another comes into it. -/
theorem cached_of_inserted {evicted : Option PageId} {c c' : Cache}
    (h : c.Inserted q p (.ok evicted) c') :
    c'.find? q = some p ∧ ∀ q', q' ≠ q → c'.find? q' = c.find? q' ∨
      c'.find? q' = none ∧ ∃ p, c.find? q' = some p ∧ p.dirtiedBy = none := by
  cases h with
  | placed _ =>
      refine ⟨(c.find?_place q q p).trans (if_pos rfl), fun q' other => .inl ?_⟩
      exact (c.find?_place q q' p).trans (if_neg other)
  | @evicting victim _ _ oldest =>
      have find (q' : PageId) : ((c.drop victim).place q p).find? q' =
          if q' = q then some p else if q' = victim then none else c.find? q' := by
        rw [Cache.find?_place, Cache.find?_drop]
      obtain ⟨frame, here, free⟩ := Cache.frame_of_victim? oldest
      refine ⟨(find q).trans (if_pos rfl), fun q' other => ?_⟩
      rw [find, if_neg other]
      by_cases gone : q' = victim
      · rw [if_pos gone]
        refine .inr ⟨rfl, frame.page, gone ▸ Cache.find?_of_frame here, ?_⟩
        simpa [HeapPage.isDirty] using (Cache.evictable_iff.mp free).2
      · rw [if_neg gone]
        exact .inl rfl

theorem replied_of_unhooked (unhooked : s.catalog.Unhooked q.table) (tx : TxId) (a : Access) :
    Replied tx q a s (fetch tx q a s).1 (fetch tx q a s).2 := by
  have obtained := obtained unhooked tx a
  generalize (fetch tx q a s).1 = r, (fetch tx q a s).2 = s' at obtained ⊢
  cases obtained with
  | refused locks => exact .refused locks
  | hit granted here => exact .hit ⟨granted, rfl, rfl⟩ here fun q' => Cache.find?_touch _ q q'
  | unread granted absent file => exact .failed ⟨granted, rfl, rfl⟩ absent (.inl file) fun _ => rfl
  | @read locks p evicted cache granted absent file ended =>
      have inserted := s.pool.cache.inserted q p
      rw [ended] at inserted
      cases evicted with
      | error e =>
          cases inserted
          exact .failed ⟨granted, rfl, rfl⟩ absent (.inr rfl) fun _ => rfl
      | ok evicted =>
          obtain ⟨here, others⟩ := cached_of_inserted inserted
          exact .read ⟨granted, rfl, rfl⟩ absent file here others

theorem replied_of_plain (plain : s.catalog.Plain) (tx : TxId) (q : PageId) (a : Access) :
    Replied tx q a s (fetch tx q a s).1 (fetch tx q a s).2 :=
  replied_of_unhooked (plain.unhooked q.table) tx a

theorem replied_of_eq {a : Access} {r : Except Error HeapPage} (plain : s.catalog.Plain)
    (h : fetch tx q a s = (r, s')) : Replied tx q a s r s' := by
  have replied := replied_of_plain plain tx q a
  rwa [h] at replied

theorem Replied.frame (h : Replied tx q a s r s') : s'.catalog = s.catalog ∧ s'.disk = s.disk := by
  cases h with
  | refused _ => exact ⟨rfl, rfl⟩
  | failed granted _ _ _ => exact ⟨granted.catalog, granted.disk⟩
  | hit granted _ _ => exact ⟨granted.catalog, granted.disk⟩
  | read granted _ _ _ _ => exact ⟨granted.catalog, granted.disk⟩

theorem Replied.acquired {a : Access} {r : Except Error HeapPage} (h : Replied tx q a s r s') :
    s' = s ∨ s.pool.locks.acquire? tx q a.mode = some s'.pool.locks := by
  cases h with
  | refused _ => exact .inl rfl
  | failed granted _ _ _ => exact .inr granted.locks
  | hit granted _ _ => exact .inr granted.locks
  | read granted _ _ _ _ => exact .inr granted.locks

theorem Replied.acquired_of_ok {a : Access} (h : Replied tx q a s (.ok p) s') :
    s.pool.locks.acquire? tx q a.mode = some s'.pool.locks := by
  cases h with
  | hit granted _ _ => exact granted.locks
  | read granted _ _ _ _ => exact granted.locks

theorem Replied.here (h : Replied tx q a s (.ok p) s') : s'.cached q = some p := by
  cases h with
  | hit _ here same => exact (same q).trans here
  | read _ _ _ here _ => exact here

/-- A page is had as it is cached, or else as its file has it. -/
theorem Replied.source (h : Replied tx q a s (.ok p) s') :
    s.cached q = some p ∨ s.cached q = none ∧ s.onFile q = .ok p := by
  cases h with
  | hit _ here _ => exact .inl here
  | read _ absent read _ _ => exact .inr ⟨absent, read⟩

/-- Whoever asks for a page to write to it has it locked, unless the lock was refused. -/
theorem Replied.mode? (h : Replied tx q .readWrite s r s') :
    s' = s ∧ r = .error (.lockTimeout tx q) ∨
      ∀ u q', s'.mode? u q' = if u = tx ∧ q' = q then some .exclusive else s.mode? u q' := by
  have granted (g : Locks tx q .exclusive s s') (u : TxId) (q' : PageId) :
      s'.mode? u q' = if u = tx ∧ q' = q then some .exclusive else s.mode? u q' :=
    LockTable.mode?_acquire? g.locks u q'
  cases h with
  | refused _ => exact .inl ⟨rfl, rfl⟩
  | failed g _ _ _ => exact .inr (granted g)
  | hit g _ _ => exact .inr (granted g)
  | read g _ _ _ _ => exact .inr (granted g)

theorem Replied.mode?_of_ok (h : Replied tx q .readWrite s (.ok p) s') (u : TxId) (q' : PageId) :
    s'.mode? u q' = if u = tx ∧ q' = q then some .exclusive else s.mode? u q' :=
  h.mode?.resolve_left (fun refused => nomatch refused.2) u q'

/-- In the course of requests, no more has happened to the pages in the cache than that clean ones
have left it and others have come into it as their files have them; and no more to the files than
that `file` has grown. -/
structure Spares (file : FileId TableId) (rs : List PageRequest) (s s' : Store) : Prop where
  catalog : s'.catalog = s.catalog
  disk : s.disk.Grown file s'.disk
  cached : ∀ q, s'.cached q = s.cached q ∧ (∀ r ∈ rs, r.after.cached q = s.cached q) ∨
    (∀ p, s.cached q = some p → p.dirtiedBy = none ∧
      ∃ r ∈ rs, r.before.cached q = some p ∧ r.after.cached q = none) ∧
    ∀ p, s'.cached q = some p → s'.onFile q = .ok p

/-- The page in the place of `q` is in its file still. -/
theorem onFile_grown (catalog : s'.catalog = s.catalog) (h : s.disk.Grown file s'.disk)
    (read : s.onFile q = .ok p) : s'.onFile q = .ok p := by
  obtain ⟨e, he⟩ := find_of_onFile read
  simp only [onFile, catalog, he, bind, Except.bind] at read ⊢
  exact HeapFile.readPage_grown_of_ok h read

theorem Spares.refl (file : FileId TableId) (s : Store) : Spares file [] s s :=
  ⟨rfl, .refl _ _, fun _ => .inl ⟨rfl, nofun⟩⟩

theorem Spares.trans (h : Spares file rs s s₁) (h' : Spares file rs' s₁ s') :
    Spares file (rs ++ rs') s s' where
  catalog := h'.catalog.trans h.catalog
  disk := h.disk.trans h'.disk
  cached q := by
    rcases h.cached q with ⟨same, stayed⟩ | ⟨left, came⟩
    · rcases h'.cached q with ⟨same', stayed'⟩ | ⟨left', came'⟩
      · refine .inl ⟨same'.trans same, fun r hr => ?_⟩
        rcases List.mem_append.mp hr with hr | hr
        · exact stayed r hr
        · exact (stayed' r hr).trans same
      · refine .inr ⟨fun p hp => ?_, came'⟩
        obtain ⟨clean, r, hr, at_r⟩ := left' p (same.trans hp)
        exact ⟨clean, r, List.mem_append_right _ hr, at_r⟩
    · refine .inr ⟨fun p hp => ?_, fun p hp => ?_⟩
      · obtain ⟨clean, r, hr, at_r⟩ := left p hp
        exact ⟨clean, r, List.mem_append_left _ hr, at_r⟩
      · rcases h'.cached q with ⟨same', _⟩ | ⟨_, came'⟩
        · exact onFile_grown h'.catalog h'.disk (came p (same'.symm.trans hp))
        · exact came' p hp

/-- Nothing is said of the locks. -/
theorem Spares.locked (h : Spares file rs s s') (locks : LockTable) :
    Spares file rs s { s' with pool.locks := locks } :=
  { h with }

theorem Replied.spares (file : FileId TableId) (h : Replied tx q a s r s')
    (after : (fetch tx q a s).2 = s') : Spares file [⟨tx, q, a, s⟩] s s' := by
  have left (q' : PageId) : ∀ r ∈ [(⟨tx, q, a, s⟩ : PageRequest)],
      r.after.cached q' = s'.cached q' := by
    intro r hr
    rw [List.mem_singleton.mp hr, PageRequest.after, after]
  have unchanged {q' : PageId} (same : s'.cached q' = s.cached q') :
      s'.cached q' = s.cached q' ∧
        ∀ r ∈ [(⟨tx, q, a, s⟩ : PageRequest)], r.after.cached q' = s.cached q' :=
    ⟨same, fun r hr => (left q' r hr).trans same⟩
  obtain ⟨catalog, disk⟩ := h.frame
  refine ⟨catalog, disk ▸ .refl _ _, fun q' => ?_⟩
  cases h with
  | refused _ => exact .inl (unchanged rfl)
  | failed _ _ _ same => exact .inl (unchanged (same q'))
  | hit _ _ same => exact .inl (unchanged (same q'))
  | read _ absent read here others =>
      by_cases hq : q' = q
      · subst hq
        refine .inr ⟨fun p₀ h₀ => ?_, fun p₁ h₁ => ?_⟩
        · rw [absent] at h₀
          cases h₀
        · rw [here] at h₁
          cases h₁
          simpa only [Store.onFile, catalog, disk] using read
      · rcases others q' hq with same | ⟨gone, p₀, h₀, clean⟩
        · exact .inl (unchanged same)
        · refine .inr ⟨fun p₁ h₁ => ?_, fun p₁ h₁ => ?_⟩
          · obtain rfl : p₀ = p₁ := Option.some.inj (h₀.symm.trans h₁)
            have request := List.mem_singleton_self (⟨tx, q, a, s⟩ : PageRequest)
            exact ⟨clean, _, request, h₁, (left q' _ request).trans gone⟩
          · rw [gone] at h₁
            cases h₁

theorem spares_of_fetch {a : Access} {r : Except Error HeapPage} (plain : s.catalog.Plain)
    (file : FileId TableId) (h : fetch tx q a s = (r, s')) : Spares file [⟨tx, q, a, s⟩] s s' :=
  (replied_of_eq plain h).spares file (congrArg Prod.snd h)

theorem Spares.letGo {file : FileId TableId} (h : Spares file rs s s₁) (held : Bool) (tx : TxId)
    (q : PageId) : Spares file rs s (letGo held tx q s₁).2 := by
  rw [letGo_apply]
  split
  · exact h
  · exact h.locked _

theorem spares_append {f : HeapFile} (grows : append f s = (.ok (), s')) :
    Spares f.id [] s s' := by
  obtain ⟨same, appended⟩ := append_ok grows
  rw [same]
  exact ⟨rfl, HeapFile.grown_of_appendPage appended, fun _ => .inl ⟨rfl, nofun⟩⟩

end HeapStore.Store
