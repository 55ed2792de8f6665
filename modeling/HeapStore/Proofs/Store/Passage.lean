import HeapStore.Proofs.Recency
import HeapStore.Proofs.Store.Queue
import HeapStore.Store.Request

/-!
How an act passes from request to request where no table has a hook. A request does to the cache
what its answer tells. Between requests pages are changed in place, locks are let go of and files
grow, but no page comes or goes and none is used. The page that an act has changed is the one that
it was given last, so to make it the most recently used once more moves nothing.
-/

namespace HeapStore

namespace Store
variable {s s' s₁ : Store} {tx : TxId} {q : PageId} {a : Access} {rs rs' : List PageRequest}
  {r : PageRequest}

theorem gets_of_plain (plain : s.catalog.Plain) (tx : TxId) (q : PageId) (a : Access) :
    s.pool.cache.Gets q (fetch tx q a s).1 (fetch tx q a s).2.pool.cache ∧
      (fetch tx q a s).2.catalog = s.catalog := by
  have obtained := obtained (plain.unhooked q.table) tx a
  generalize (fetch tx q a s).1 = r, (fetch tx q a s).2 = s' at obtained ⊢
  cases obtained with
  | refused _ => exact ⟨.failed, rfl⟩
  | hit _ here => exact ⟨.hit here, rfl⟩
  | unread _ _ _ => exact ⟨.failed, rfl⟩
  | @read locks p evicted cache _ absent file ended =>
      have missing : s.pool.cache.contains q = false := by
        rw [Cache.contains_eq, show s.pool.cache.find? q = none from absent]
        rfl
      have clean : p.isDirty = false := by
        rw [HeapPage.isDirty, (asRead_of_onFile file).clean]
        rfl
      have inserted := s.pool.cache.inserted q p
      rw [ended] at inserted
      cases inserted with
      | placed room => exact ⟨.read missing (room.resolve_left (by simp [missing])) clean, rfl⟩
      | evicting _ full victim => exact ⟨.evicting missing full victim clean, rfl⟩
      | refused => exact ⟨.failed, rfl⟩

theorem gets_of_request (r : PageRequest) (plain : r.before.catalog.Plain) :
    r.before.pool.cache.Gets r.page r.answer r.after.pool.cache :=
  (gets_of_plain plain r.tx r.page r.access).1

/-- No page comes or goes, and none is used. -/
structure Still (s s' : Store) : Prop where
  catalog : s'.catalog = s.catalog
  arranges : Arranges s s'
  ids : s'.pool.cache.ids = s.pool.cache.ids
  contains : ∀ id, s'.pool.cache.contains id = s.pool.cache.contains id

theorem Still.of_cache (catalog : s'.catalog = s.catalog) (h : s'.pool.cache = s.pool.cache) :
    Still s s' :=
  ⟨catalog, .of_cache h, by rw [h], fun _ => by rw [h]⟩

theorem staying : Writing Still where
  refl _ := .of_cache rfl rfl
  trans h₁ h₂ := ⟨h₂.catalog.trans h₁.catalog, arranging.trans h₁.arranges h₂.arranges,
    h₂.ids.trans h₁.ids, fun id => (h₂.contains id).trans (h₁.contains id)⟩
  changed s p := ⟨rfl, arranging.changed s p, rfl, s.pool.cache.contains_update p⟩
  disk _ _ := .of_cache rfl rfl

theorem Still.of_locks (s : Store) (locks : LockTable) :
    Still s { s with pool.locks := locks } :=
  .of_cache rfl rfl

theorem still_letGo (held : Bool) (tx : TxId) (q : PageId) : Keeping Still (letGo held tx q) := by
  intro s
  rw [letGo_apply]
  split
  · exact staying.refl s
  · exact .of_locks s _

/-- From request to request, one after the other. -/
inductive Passage : Store → List PageRequest → Store → Prop
  | still {s s' : Store} (h : Still s s') : Passage s [] s'
  | request {s s' : Store} {r : PageRequest} {rs : List PageRequest} (h : Still s r.before)
      (rest : Passage r.after rs s') : Passage s (r :: rs) s'

theorem Passage.of_still (h : Still s s₁) (rest : Passage s₁ rs s') : Passage s rs s' := by
  cases rest with
  | still h' => exact .still (staying.trans h h')
  | request h' rest => exact .request (staying.trans h h') rest

theorem Passage.append (h : Passage s rs s₁) (rest : Passage s₁ rs' s') :
    Passage s (rs ++ rs') s' := by
  induction h with
  | still h => exact rest.of_still h
  | request h _ ih => exact .request h (ih rest)

theorem Passage.then_still (h : Passage s rs s₁) (h' : Still s₁ s') : Passage s rs s' := by
  have both := h.append (.still h')
  rwa [List.append_nil] at both

/-- A request and what is done with the page. -/
theorem passage_of_fetch {r : Except Error HeapPage} (got : fetch tx q a s = (r, s₁))
    (h : Still s₁ s') : Passage s [⟨tx, q, a, s⟩] s' :=
  .request (staying.refl s) (.still (by rwa [PageRequest.after, got]))

theorem passage_get (s : Store) : Passage s [⟨tx, q, a, s⟩] (fetch tx q a s).2 :=
  passage_of_fetch rfl (staying.refl _)

section Rows
variable {f : HeapFile} {t : Tuple} {rid : RecordId} {n m : Nat}

/-- The page of a row is the one that was had last, so it is the last in the queue. -/
structure Had (rs : List PageRequest) (q : PageId) (s : Store) : Prop where
  uses : ∃ uses, rs.flatMap PageRequest.uses = uses ++ [q]
  here : s.pool.cache.contains q
  last : ∃ ids, s.pool.cache.ids = ids ++ [q]

theorem Had.append (h : Had rs' q s) (rs : List PageRequest) : Had (rs ++ rs') q s where
  uses := by
    obtain ⟨uses, h⟩ := h.uses
    exact ⟨rs.flatMap PageRequest.uses ++ uses, by rw [List.flatMap_append, h, List.append_assoc]⟩
  here := h.here
  last := h.last

theorem had_of_fetch {p : HeapPage} (plain : s.catalog.Plain) (hs : s.pool.cache.Ordered)
    (got : fetch tx q a s = (.ok p, s₁)) (p' : HeapPage) :
    p.id = q ∧ Had [⟨tx, q, a, s⟩] q (put p' s₁).2 := by
  have gets := (gets_of_plain plain tx q a).1
  have ordered := (arranging.fetch tx q a s).2 hs
  rw [got] at gets ordered
  obtain ⟨here, last⟩ := gets.last
  refine ⟨ordered.keyed q p here, ⟨[], ?_⟩, ?_, last⟩
  · simp [PageRequest.uses, PageRequest.answer, got]
  · rw [put_apply, Cache.contains_update, Cache.contains_eq, here]
    rfl

theorem Passage.catalog_eq (h : Passage s rs s') (plain : s.catalog.Plain) :
    s'.catalog = s.catalog := by
  induction h with
  | still h => exact h.catalog
  | @request s s' r rs h _ ih =>
      have here : r.before.catalog.Plain := h.catalog ▸ plain
      have kept : r.after.catalog = r.before.catalog :=
        (gets_of_plain here r.tx r.page r.access).2
      exact (ih (kept ▸ here)).trans (kept.trans h.catalog)

theorem Climbs.passage (h : Climbs f tx n s rs m s') : Passage s rs s' := by
  induction h with
  | here _ s => exact .still (staying.refl s)
  | @full n _ s s₁ _ _ _ _ got _ _ ih =>
      refine .request (staying.refl s) (.of_still ?_ ih)
      rw [PageRequest.after, got]
      exact still_letGo _ tx _ s₁
  | @grown _ _ s _ _ _ _ grows _ ih =>
      have grown := staying.append f s
      rw [grows] at grown
      exact ih.of_still grown

theorem Climbs.passage_fetch {a : Access} {r : Except Error HeapPage} {s₂ : Store}
    (h : Climbs f tx n s rs m s₁) (had : fetch tx q a s₁ = (r, s₂)) (still : Still s₂ s') :
    Passage s (rs ++ [⟨tx, q, a, s₁⟩]) s' :=
  h.passage.append (passage_of_fetch had still)

theorem Seeks.passage {r : Except Error (HeapPage × RecordId)} (h : Seeks f tx t n s rs r s') :
    Passage s rs s' := by
  cases h with
  | unfetched climbs _ had | unfit climbs _ had => exact climbs.passage_fetch had (staying.refl _)
  | ungrown climbs _ | endless climbs => exact climbs.passage
  | placed climbs _ got _ => exact climbs.passage_fetch got (staying.changed _ _)

theorem Seeks.had {p : HeapPage} (plain : s.catalog.Plain) (hs : s.pool.cache.Ordered)
    (h : Seeks f tx t n s rs (.ok (p, rid)) s') : p.id = rid.page ∧ Had rs rid.page s' := by
  cases h with
  | @placed _ _ _ rs _ p' _ climbs _ got fit =>
      have plain₁ := climbs.passage.catalog_eq plain ▸ plain
      obtain ⟨id, had⟩ := had_of_fetch plain₁ (climbs.ordered hs) got (p'.mark (some tx))
      obtain ⟨same, page⟩ := HeapPage.id_of_insert fit
      have page := page.trans id
      exact ⟨same.trans (id.trans page.symm), page ▸ had.append rs⟩

theorem passage_insertInto (f : HeapFile) (tx : TxId) (t : Tuple) (s : Store) :
    Passage s (insertRequests f tx t s) (insertInto f tx t s).2 := by
  rcases insertInto_cases f tx t s with ⟨_, none, refused⟩ | seeks
  · rw [none, refused]
    exact .still (staying.refl s)
  · exact seeks.passage

theorem had_of_insertInto {p : HeapPage} (plain : s.catalog.Plain) (hs : s.pool.cache.Ordered)
    (h : insertInto f tx t s = (.ok (p, rid), s')) :
    p.id = rid.page ∧ Had (insertRequests f tx t s) rid.page s' := by
  rcases insertInto_cases f tx t s with ⟨_, _, refused⟩ | seeks
  · cases h.symm.trans refused
  · rw [h] at seeks
    exact seeks.had plain hs

theorem deleteFrom_cases (plain : s.catalog.Plain) (hs : s.pool.cache.Ordered) (f : HeapFile)
    (tx : TxId) (rid : RecordId) :
    Passage s (deleteRequests f tx rid s) (deleteFrom f tx (some rid) s).2 ∧
      ∀ p s', deleteFrom f tx (some rid) s = (.ok p, s') →
        p.id = rid.page ∧ Had (deleteRequests f tx rid s) rid.page s' := by
  have erases := erases f tx rid s
  unfold deleteRequests
  generalize deleteFrom f tx (some rid) s = outcome at erases ⊢
  obtain ⟨r, s'⟩ := outcome
  cases erases with
  | elsewhere foreign =>
      rw [if_neg foreign]
      exact ⟨.still (staying.refl _), nofun⟩
  | unfetched here had | vacant here had _ =>
      rw [if_pos here]
      exact ⟨passage_of_fetch had (staying.refl _), nofun⟩
  | @erased p p' s₁ here got done =>
      rw [if_pos here]
      refine ⟨passage_of_fetch got (staying.changed s₁ _), fun q s' h => ?_⟩
      cases h
      have had := had_of_fetch plain hs got (p'.mark (some tx))
      exact ⟨(HeapPage.id_of_erase done).trans had.1, had.2⟩

/-- The page that was had last is the most recently used already. -/
theorem readmit_still {q : PageId} {p : HeapPage} (plain : s.catalog.Plain)
    (hs : s.pool.cache.Ordered) (had : Had rs q s) (id : p.id = q) (tx : TxId) (table : TableId) :
    ∃ s', (do afterMutate table; readmit tx p : StoreM Unit) s = (.ok (), s') ∧ Still s s' := by
  subst id
  rw [bind_apply, afterMutate_of_plain plain]
  have kept := arranging.keep (p := p.mark (some tx)) rfl s
  simp only [keep_apply, readmit, HeapPage.mark, Cache.insert_of_contains had.here] at kept ⊢
  refine ⟨_, rfl, rfl, kept, ?_, fun id => ?_⟩
  · obtain ⟨ids, last⟩ := had.last
    have nodup := hs.nodup
    rw [last] at nodup
    simp only [Cache.place, Cache.touch, last, Cache.requeue_last nodup]
  · show (s.pool.cache.place p.id _).contains id = _
    rw [Cache.contains_place]
    by_cases same : id = p.id <;> simp [same, had.here]

end Rows

section Scans
variable {sc : Scan}

theorem load_apply (sc : Scan) (n : Nat) (s : Store) :
    sc.load fetch n s =
      ((sc.loadRequest n s).answer.map HeapPage.tuples, (sc.loadRequest n s).after) :=
  map_apply HeapPage.tuples (fetch sc.tx ⟨sc.file.table, n⟩ .readOnly) s

theorem passage_load (sc : Scan) (n : Nat) (s : Store) :
    Passage s [sc.loadRequest n s] (sc.loadRequest n s).after :=
  .request (staying.refl s) (.still (staying.refl _))

theorem passage_start (sc : Scan) (s : Store) :
    Passage s (if sc.file.numPages s.disk = 0 then [] else [sc.loadRequest 0 s])
      (sc.start fetch s).2 := by
  have hget : (MonadState.get : StateM Store Store) s = (s, s) := rfl
  by_cases none : sc.file.numPages s.disk = 0
  · simp only [Scan.start, bind_run, hget, if_pos none]
    exact .still (staying.refl s)
  · simp only [Scan.start, bind_run, hget, if_neg none, ExceptT.run, load_apply]
    cases (sc.loadRequest 0 s).answer with
    | error e => exact passage_load sc 0 s
    | ok p => exact passage_load sc 0 s

theorem passage_advance (sc : Scan) (numbers : List Nat) (c : Cursor) (s : Store) :
    Passage s (sc.advanceRequests numbers c s) (sc.advance fetch numbers c s).2 := by
  induction numbers generalizing c s with
  | nil => exact .still (staying.refl s)
  | cons n numbers ih =>
      unfold Scan.advance Scan.advanceRequests
      split
      · simp only [bind_run, ExceptT.run, load_apply]
        cases (sc.loadRequest n s).answer with
        | error e => exact passage_load sc n s
        | ok p => exact .request (staying.refl s) (ih _ _)
      · exact .still (staying.refl s)

theorem passage_scan (sc : Scan) (request : Scan.Request) (s : Store) :
    Passage s (sc.requests s request) (request.perform sc s).2 := by
  have step : Passage s (sc.requests s .hasNext) (sc.hasNext fetch s).2 := by
    unfold Scan.requests Scan.hasNext
    cases sc.cursor with
    | none => exact .still (staying.refl s)
    | some c => exact passage_advance sc (sc.pagesAfter c.page s) c s
  cases request with
  | start => exact passage_start sc s
  | rewind => exact passage_start sc.close s
  | hasNext => exact step
  | next =>
      refine (show Passage s (sc.requests s .next) (sc.hasNext fetch s).2 from step).then_still ?_
      simp only [Scan.Request.perform, Scan.next, bind_run]
      generalize sc.hasNext fetch s = outcome
      obtain ⟨⟨_ | b, sc'⟩, s₁⟩ := outcome
      · exact staying.refl _
      · cases b <;> exact staying.refl _

end Scans

theorem still_complete (tx : TxId) (ending : Ending) : Keeping Still (complete tx ending) := by
  intro s
  cases ending with
  | commit => exact staying.trans (staying.commit tx s) (.of_locks _ _)
  | abort => exact staying.trans (staying.rollback tx s) (.of_locks _ _)

end Store

namespace Act
open Store
variable {s : Store}

/-- How an act that stores a row or deletes one comes to its end. -/
structure Ends (rs : List PageRequest) (modified : List PageId) (s s' : Store) : Prop where
  passage : Passage s rs s'
  last : ∀ q ∈ modified, modified = [q] ∧ ∃ uses, rs.flatMap PageRequest.uses = uses ++ [q]

theorem ends_of_insert (plain : s.catalog.Plain) (hs : s.pool.cache.Ordered) (tx : TxId)
    (table : TableId) (t : Tuple) :
    Ends (requests s (.call (.insert tx table t))) (modified s (.call (.insert tx table t))) s
      (Store.insert tx table t s).2 := by
  simp only [requests, modified, insert_apply, bind_apply, lookup_apply]
  cases s.catalog.find table with
  | error e => exact ⟨.still (staying.refl s), nofun⟩
  | ok e =>
      have passage := passage_insertInto e.file tx t s
      have ordered := (arranges_insertInto e.file tx t s).2 hs
      simp only
      cases placed : Store.insertInto e.file tx t s with
      | mk r s₁ =>
          rw [placed] at passage ordered
          obtain _ | ⟨p, rid⟩ := r
          · exact ⟨passage, nofun⟩
          · obtain ⟨id, had⟩ := had_of_insertInto plain hs placed
            obtain ⟨s₂, again, still⟩ :=
              readmit_still (passage.catalog_eq plain ▸ plain) ordered had id tx table
            rw [bind_apply] at again
            simp only [again]
            refine ⟨passage.then_still still, fun q hq => ?_⟩
            obtain rfl : q = rid.page := by simpa [Tuple.located] using hq
            exact ⟨rfl, had.uses⟩

theorem ends_of_delete (plain : s.catalog.Plain) (hs : s.pool.cache.Ordered) (tx : TxId)
    (rid : RecordId) :
    Ends (requests s (.call (.delete tx (some rid)))) (modified s (.call (.delete tx (some rid)))) s
      (Store.delete tx (some rid) s).2 := by
  simp only [requests, modified, Store.delete, bind_apply, lookup_apply]
  cases s.catalog.find rid.page.table with
  | error e => exact ⟨.still (staying.refl s), fun _ hq => absurd hq List.not_mem_nil⟩
  | ok e =>
      obtain ⟨passage, ends⟩ := deleteFrom_cases plain hs e.file tx rid
      have ordered := (arranging.deleteFrom e.file tx (some rid) s).2 hs
      simp only
      generalize Store.deleteFrom e.file tx (some rid) s = outcome at passage ends ordered ⊢
      obtain ⟨_ | p, s₁⟩ := outcome
      · exact ⟨passage, fun _ hq => absurd hq List.not_mem_nil⟩
      · obtain ⟨id, had⟩ := ends p s₁ rfl
        obtain ⟨s₂, again, still⟩ :=
          readmit_still (passage.catalog_eq plain ▸ plain) ordered had id tx rid.page.table
        rw [bind_apply] at again
        simp only [again]
        refine ⟨passage.then_still still, fun q hq => ?_⟩
        obtain rfl : q = rid.page := by simpa using hq
        exact ⟨rfl, had.uses⟩

theorem ends (plain : s.catalog.Plain) (hs : s.pool.cache.Ordered) (a : Act)
    (h : ∀ q, a ≠ .call (.discard q)) : Ends (a.requests s) (a.modified s) s (a.perform s).2 := by
  have nothing {s' : Store} (still : Still s s') : Ends [] [] s s' := ⟨.still still, nofun⟩
  have mapped {α : Type} (x : StoreM α) {f : α → Answer} (still : Keeping Still x) :
      Still s ((f <$> x) s).2 := by
    rw [map_apply]
    exact still s
  cases a with
  | scan sc request => exact ⟨passage_scan sc request s, nofun⟩
  | insertInto f tx t =>
      refine ⟨passage_insertInto f tx t s, fun q hq => ?_⟩
      simp only [requests, modified] at hq ⊢
      cases placed : Store.insertInto f tx t s with
      | mk r s₁ =>
          rw [placed] at hq
          obtain _ | ⟨p, rid⟩ := r
          · cases hq
          · obtain rfl := List.mem_singleton.mp hq
            exact ⟨rfl, (had_of_insertInto plain hs placed).2.uses⟩
  | deleteFrom f tx rid =>
      cases rid with
      | none => exact nothing (staying.refl s)
      | some rid =>
          obtain ⟨passage, ends⟩ := deleteFrom_cases plain hs f tx rid
          refine ⟨passage, fun q hq => ?_⟩
          simp only [requests, modified] at hq ⊢
          generalize Store.deleteFrom f tx (some rid) s = outcome at ends hq ⊢
          obtain ⟨_ | p, s₁⟩ := outcome
          · cases hq
          · obtain rfl := List.mem_singleton.mp hq
            exact ⟨rfl, (ends p s₁ rfl).2.uses⟩
  | call c =>
      cases c with
      | get tx q access =>
          refine ⟨?_, nofun⟩
          rw [perform, Call.perform, map_apply]
          exact passage_get s
      | insert tx table t => exact ends_of_insert plain hs tx table t
      | delete tx rid =>
          cases rid with
          | none => exact nothing (staying.refl s)
          | some rid =>
              have ends := ends_of_delete plain hs tx rid
              refine ⟨?_, ends.last⟩
              rw [perform, Call.perform, map_apply]
              exact ends.passage
      | flushPage q => exact nothing (mapped (flushPage q) (staying.flushPage q))
      | flushAll => exact nothing (mapped flushAll staying.flushAll)
      | flushTx tx => exact nothing (mapped (flushTx tx) (staying.flushTx tx))
      | discard q => exact absurd rfl (h q)
      | release tx q => exact nothing (.of_locks s _)
      | complete tx ending => exact nothing (mapped (complete tx ending) (still_complete tx ending))

end Act
end HeapStore
