import HeapStore.Proofs.Store.Search
import HeapStore.Store.Stops

/-!
Storing and deleting a row. A call that fails has only looked around; one that succeeds has looked
around, up to the last of its stops, and then changed one slot of one page, which was cached there
and locked for writing. Nothing that follows in the call can fail.
-/

namespace HeapStore.Store
open Std
variable {T : Tables} {s s' s₀ s₁ s₂ : Store} {tx u : TxId} {q : PageId} {p p' : HeapPage}
  {rid : RecordId} {row : Option Row} {t : Tuple} {stops : List Store} {n m : Nat}
  {rs : List PageRequest}

/-- A page takes the place of the one that was cached under its id. -/
structure Puts (q : PageId) (p : HeapPage) (s s' : Store) : Prop where
  catalog : s'.catalog = s.catalog
  disk : s'.disk = s.disk
  locks : s'.pool.locks = s.pool.locks
  cache : s'.pool.cache.Consistent
  cached : ∀ q', s'.cached q' = if q' = q then some p else s.cached q'

theorem puts_put (hc : s.pool.cache.Consistent) (hp : s.cached q = some p) (hid : p'.id = q) :
    Puts q p' s (put p' s).2 where
  catalog := rfl
  disk := rfl
  locks := rfl
  cache := hc.update p'
  cached q' := by
    show (s.pool.cache.update p').find? q' = _
    rw [Cache.find?_update, hid]
    by_cases hq : q' = q
    · subst hq
      have : s.pool.cache.find? q' = some p := hp
      simp [this]
    · simp [hq, cached]

/-- To make the page the most recently used changes nothing more. -/
theorem Puts.keep (h : Puts q p s s') (hid : p.id = q) :
    ∃ s₂, keep p.id p s' = (.ok (), s₂) ∧ Puts q p s s₂ := by
  have here : s'.pool.cache.find? p.id = some p := by
    have := h.cached p.id
    rwa [if_pos hid] at this
  have cached : s'.pool.cache.contains p.id := by rw [Cache.contains_eq, here, Option.isSome_some]
  rw [keep_apply, Cache.insert_of_contains cached]
  refine ⟨_, rfl, h.catalog, h.disk, h.locks, h.cache.place rfl (.inl cached), ?_⟩
  intro q'
  show (s'.pool.cache.place p.id p).find? q' = _
  have old : s'.pool.cache.find? q' = _ := h.cached q'
  rw [Cache.find?_place, hid]
  by_cases hq : q' = q
  · simp [hq]
  · simp [hq, old]

theorem afterMutate_of_plain (hs : s.catalog.Plain) (table : TableId) :
    afterMutate table s = (.ok (), s) := by
  have hook : s.catalog.hook? table = none := by
    unfold Catalog.hook?
    cases he : s.catalog.tables[table]? with
    | none => rfl
    | some e => exact (hs table e he).2
  simp only [afterMutate, bind_apply, get_apply, hook]
  rfl

/-- There is room for a page that has been put in the place of a cached one. -/
theorem Puts.recached (h : Puts q p s s') (hs : s'.catalog.Plain) (hid : p.id = q)
    (owner : p.dirtiedBy = some tx) (table : TableId) :
    ∃ s₂, (do afterMutate table; readmit tx p : StoreM Unit) s' = (.ok (), s₂) ∧
      Puts q p s s₂ := by
  have marked : p.mark (some tx) = p := HeapPage.mark_eq_self owner
  obtain ⟨s₂, hk, puts⟩ := h.keep hid
  refine ⟨s₂, ?_, puts⟩
  rw [bind_apply, afterMutate_of_plain hs]
  simp only [marked, readmit]
  exact hk

theorem Puts.refl (hs : s.Intact T) (hp : s.cached q = some p) : Puts q p s s := by
  refine ⟨rfl, rfl, rfl, hs.cache, ?_⟩
  intro q'
  by_cases hq : q' = q
  · rw [if_pos hq, hq, hp]
  · rw [if_neg hq]

/-- To put a page in its own place is no more than to look around. -/
theorem Puts.calm (hs : s.Intact T) (hp : s.cached q = some p) (h : Puts q p s s') (tx : TxId) :
    Calm tx s s' where
  catalog := h.catalog
  faults := by rw [h.disk]
  locks := h.locks ▸ hs.locks
  cache := h.cache
  files f q' := .inl (by rw [h.disk])
  cached q' := by
    left
    rw [h.cached]
    by_cases hq : q' = q
    · rw [if_pos hq, hq, hp]
    · rw [if_neg hq]
  exclusive u q' hx := by
    simpa only [mode?, h.locks] using hx
  others u _ q' := by
    simp only [mode?, h.locks]

/-- Looking around up to `s₁`, and then the change of one slot of the page `p` to `row`. -/
structure Edits (tx : TxId) (s s₁ s' : Store) (rid : RecordId) (row : Option Row)
    (p p' : HeapPage) : Prop where
  calm : Calm tx s s₁
  here : s₁.cached rid.page = some p
  locked : s₁.mode? tx rid.page = some .exclusive
  keeps : p.Keeps p'
  sound : p'.Sound
  owner : p'.dirtiedBy = some tx
  slot_lt : rid.slot < p.content.rows.length
  content : p'.content = p.content.set rid.slot row
  free : row ≠ none → p.get? rid.slot = none
  kept : ∀ i, i ≠ rid.slot → p'.get? i = p.get? i
  puts : Puts rid.page p' s₁ s'

/-- A row that fits is put into the page at hand. -/
theorem edits_of_insert {r : HeapPage} (hs : s.Intact T) (calm : Calm tx s s₁)
    (here : s₁.cached q = some p) (locked : s₁.mode? tx q = some .exclusive)
    (hi : p.insert t = .ok (r, rid)) :
    rid.page = q ∧ Edits tx s s₁ (put (r.mark (some tx)) s₁).2 rid (some t.row) p
      (r.mark (some tx)) := by
  have hs₁ := calm.intact hs
  have ins := HeapPage.insert_ok (hs₁.pages q p here).sound hi
  have page : rid.page = q := ins.page.trans (id_of_cached hs₁.cache here)
  subst page
  have puts : Puts rid.page (r.mark (some tx)) s₁ (put (r.mark (some tx)) s₁).2 :=
    puts_put hs₁.cache here (ins.id.trans (id_of_cached hs₁.cache here))
  exact ⟨rfl, calm, here, locked, ⟨ins.id, ins.schema, ins.beforeImage⟩,
    ins.sound.mark _, rfl, ins.slot_lt, ins.content, fun _ => ins.free, ins.kept, puts⟩

/-- A row is taken out of the page at hand. -/
theorem edits_of_erase {r : HeapPage} (hs : s.Intact T) (calm : Calm tx s s₁)
    (here : s₁.cached rid.page = some p) (locked : s₁.mode? tx rid.page = some .exclusive)
    (he : p.erase (some rid) = .ok r) :
    Edits tx s s₁ (put (r.mark (some tx)) s₁).2 rid none p (r.mark (some tx)) := by
  have hs₁ := calm.intact hs
  have era := HeapPage.erase_ok (hs₁.pages _ p here).sound he
  have puts : Puts rid.page (r.mark (some tx)) s₁ (put (r.mark (some tx)) s₁).2 :=
    puts_put hs₁.cache here (era.id.trans (id_of_cached hs₁.cache here))
  exact ⟨calm, here, locked, ⟨era.id, era.schema, era.beforeImage⟩, era.sound.mark _, rfl,
    era.slot_lt, era.content, fun h => absurd rfl h, era.kept, puts⟩

theorem Edits.onFile (h : Edits tx s s₁ s' rid row p p') (q : PageId) :
    s'.onFile q = s₁.onFile q := by
  simp only [Store.onFile, h.puts.catalog, h.puts.disk]

theorem Edits.mode? (h : Edits tx s s₁ s' rid row p p') (u : TxId) (q : PageId) :
    s'.mode? u q = s₁.mode? u q := by
  simp only [Store.mode?, h.puts.locks]

theorem Edits.cached_self (h : Edits tx s s₁ s' rid row p p') : s'.cached rid.page = some p' := by
  rw [h.puts.cached, if_pos rfl]

theorem Edits.cached_other (h : Edits tx s s₁ s' rid row p p') (hq : q ≠ rid.page) :
    s'.cached q = s₁.cached q := by
  rw [h.puts.cached, if_neg hq]

theorem Edits.locked_after (h : Edits tx s s₁ s' rid row p p') :
    s'.mode? tx rid.page = some .exclusive := by
  rw [h.mode?]
  exact h.locked

/-- Nobody else may write to a page that is changed. -/
theorem Edits.writer (h : Edits tx s s₁ s' rid row p p')
    (hu : s₁.mode? u rid.page = some .exclusive) : u = tx := by
  apply h.calm.locks.alone h.locked
  rw [show s₁.pool.locks.mode? u rid.page = _ from hu]
  rfl

theorem Edits.id (h : Edits tx s s₁ s' rid row p p') : p'.id = rid.page :=
  h.keeps.id.trans (id_of_cached h.calm.cache h.here)

theorem Edits.page (h : Edits tx s s₁ s' rid row p p') (T : Tables) (q : PageId) :
    T.page s' q = T.page s₁ q := by
  simp only [Tables.page, h.puts.disk]

theorem Edits.intact_after (hs : s.Intact T) (h : Edits tx s s₁ s' rid row p p') :
    s'.Intact T where
  tables := by
    rw [h.puts.catalog]
    exact (h.calm.intact hs).tables
  readable := by
    rw [h.puts.disk]
    exact (h.calm.intact hs).readable
  locks := by
    rw [h.puts.locks]
    exact h.calm.locks
  cache := h.puts.cache
  pages q r hr := by
    rw [h.puts.cached] at hr
    by_cases hq : q = rid.page
    · rw [if_pos hq] at hr
      cases hr
      have old := (h.calm.intact hs).pages _ _ h.here
      obtain ⟨c, hc⟩ := old.reverts
      refine ⟨h.sound, ?_, ?_, ⟨c, h.keeps.reverts.mpr hc⟩⟩
      · rw [hq, h.keeps.schema, old.schema]
      · rw [h.page, hq]
        exact old.file
    · rw [if_neg hq] at hr
      have old := (h.calm.intact hs).pages q r hr
      refine ⟨old.sound, old.schema, ?_, old.reverts⟩
      rw [h.page]
      exact old.file

theorem Edits.owned (h : Edits tx s s₁ s' rid row p p') (ho : s.Owned) : s'.Owned := by
  intro q r u hr hu
  rw [h.puts.cached] at hr
  rw [h.mode?]
  by_cases hq : q = rid.page
  · rw [if_pos hq] at hr
    cases hr
    rw [h.owner] at hu
    cases hu
    exact hq ▸ h.locked
  · rw [if_neg hq] at hr
    exact h.calm.owned ho q r u hr hu

theorem Edits.sound_after (hs : s.Sound) (h : Edits tx s s₁ s' rid row p p') : s'.Sound := by
  have hs₁ := h.calm.sound hs
  apply (h.intact_after hs.intact).sound _ _ (h.owned hs.owned)
  · rw [h.puts.disk]
    exact hs₁.reliable
  · intro q r hr
    rw [h.puts.cached] at hr
    rw [h.puts.catalog]
    by_cases hq : q = rid.page
    · rw [hq]
      exact hs₁.registered h.here
    · rw [if_neg hq] at hr
      exact hs₁.registered hr

/-- Pages that are cached at every stop are the same to the end. -/
def Stays (stops : List Store) (s s' : Store) : Prop :=
  ∀ q p, s.cached q = some p → (∀ u ∈ stops, (u.cached q).isSome) → s'.cached q = some p

theorem Stays.append {before : List Store} (h₀ : Stays before s s₀) (h : Stays stops s₀ s') :
    Stays (before ++ stops) s s' := by
  intro q p hp hc
  apply h q p
  · exact h₀ q p hp fun u hu => hc u (List.mem_append_left _ hu)
  · exact fun u hu => hc u (List.mem_append_right _ hu)

theorem Stays.of_fetched {a : Access} {r : Except Error HeapPage} (h : Fetched tx q a s r s') :
    Stays [s'] s s' := by
  intro q' p hp hc
  exact h.kept hp (hc s' (by simp))

/-- The stops are where the requests have led to. -/
theorem tryStops_eq (f : HeapFile) (tx : TxId) (numbers : List Nat) (s : Store) :
    tryStops f tx numbers s = (tryRequests f tx numbers s).map PageRequest.after := by
  induction numbers generalizing s with
  | nil => rfl
  | cons n numbers ih =>
      simp only [tryStops, tryRequests, PageRequest.answer, List.map_cons, PageRequest.after]
      obtain ⟨e | p, s₁⟩ := fetch tx ⟨f.table, n⟩ .readWrite s
      · rfl
      · simp only
        split
        · rw [ih]
        · rfl

theorem searchStops_eq (f : HeapFile) (tx : TxId) (t : Tuple) (passes first : Nat) (s : Store) :
    searchStops f tx t passes first s =
      (searchRequests f tx t passes first s).map PageRequest.after := by
  induction passes generalizing first s with
  | zero => rfl
  | succ passes ih =>
      simp only [searchStops, searchRequests, List.map_append, tryStops_eq]
      congr 1
      obtain ⟨e | none | placed, s₁⟩ :=
        tryPages f tx t (List.range' first (f.numPages s.disk - first)) s
      case ok.none =>
        simp only
        obtain ⟨e | _, s₂⟩ := append f s₁
        · rfl
        · exact ih _ s₂
      all_goals rfl

theorem Climbs.calm {table : TableId} {e : Entry} (hs : s.Intact T)
    (he : s.catalog.find table = .ok e) (h : Climbs e.file tx n s rs m s') :
    Calm tx s s' ∧ Stays (rs.map PageRequest.after) s s' := by
  induction h with
  | here _ s => exact ⟨.refl hs tx, fun q p hp _ => hp⟩
  | @full n m s s₁ s' rs p _ got _ rest ih =>
      have fetched := fetched hs tx ⟨e.file.table, n⟩ .readWrite
      have after : (fetch tx ⟨e.file.table, n⟩ .readWrite s).2 = s₁ := congrArg Prod.snd got
      rw [after] at fetched
      have calm := (fetched.calm hs).letGo ⟨e.file.table, n⟩
      have stays : Stays [s₁] s
          (letGo (s.pool.locks.holds tx ⟨e.file.table, n⟩) tx ⟨e.file.table, n⟩ s₁).2 := by
        intro q p hp hc
        rw [letGo_apply]
        split <;> exact Stays.of_fetched fetched q p hp hc
      obtain ⟨calm', stays'⟩ := ih (calm.intact hs) (calm.catalog ▸ he)
      refine ⟨calm.trans calm', ?_⟩
      rw [List.map_cons, PageRequest.after, after]
      exact stays.append stays'
  | @grown n m s s₁ s' rs _ grows rest ih =>
      rcases append_cases hs he tx with ⟨cause, failed⟩ | ⟨s₂, ok, calm, pool, _⟩
      · cases grows.symm.trans failed
      · cases grows.symm.trans ok
        obtain ⟨calm', stays'⟩ := ih (calm.intact hs) (calm.catalog ▸ he)
        refine ⟨calm.trans calm', fun q p hp hc => stays' q p ?_ hc⟩
        simpa only [cached, pool] using hp

/-- A request at the end of the way. -/
theorem Climbs.calm_fetch {table : TableId} {e : Entry} {a : Access} {r : Except Error HeapPage}
    (hs : s.Intact T) (he : s.catalog.find table = .ok e) (h : Climbs e.file tx n s rs m s₀)
    (had : fetch tx q a s₀ = (r, s')) :
    Fetched tx q a s₀ r s' ∧ Calm tx s s' ∧
      Stays ((rs ++ [(⟨tx, q, a, s₀⟩ : PageRequest)]).map PageRequest.after) s s' := by
  obtain ⟨calm, stays⟩ := h.calm hs he
  have fetched := fetched (calm.intact hs) tx q a
  rw [had] at fetched
  refine ⟨fetched, calm.trans (fetched.calm (calm.intact hs)), ?_⟩
  rw [List.map_append, List.map_singleton, PageRequest.after, had]
  exact stays.append (.of_fetched fetched)

theorem Seeks.calm {table : TableId} {e : Entry} {err : Error} (hs : s.Intact T)
    (he : s.catalog.find table = .ok e) (h : Seeks e.file tx t n s rs (.error err) s') :
    Calm tx s s' ∧ Stays (rs.map PageRequest.after) s s' := by
  cases h with
  | unfetched climbs _ had | unfit climbs _ had => exact (climbs.calm_fetch hs he had).2
  | ungrown climbs _ | endless climbs => exact climbs.calm hs he

theorem Seeks.edits {table : TableId} {e : Entry} (hs : s.Intact T)
    (he : s.catalog.find table = .ok e) (h : Seeks e.file tx t n s rs (.ok (p', rid)) s') :
    ∃ s₁ p, Edits tx s s₁ s' rid (some t.row) p p' ∧
      p'.get? rid.slot = some (t.located (some rid)) ∧ Stays (rs.map PageRequest.after) s s₁ ∧
      (rs.map PageRequest.after).getLast? = some s₁ := by
  cases h with
  | @placed _ s₀ s₁ rs p _ _ climbs _ got fit =>
      obtain ⟨fetched, calm, stays⟩ := climbs.calm_fetch hs he got
      obtain ⟨_, here, locked⟩ := fetched.serves ((climbs.calm hs he).1.intact hs)
      have placed := (HeapPage.insert_ok ((calm.intact hs).pages _ p here).sound fit).here
      refine ⟨s₁, p, (edits_of_insert hs calm here (locked rfl) fit).2, placed, stays, ?_⟩
      rw [List.map_append, List.getLast?_append, List.map_singleton, PageRequest.after, got]
      rfl

/-- A changed page is cached still, so there is room for it. -/
theorem Edits.recached (hs : s.Intact T) (h : Edits tx s s₁ s' rid row p p') (table : TableId) :
    ∃ s₂, (do afterMutate table; readmit tx p' : StoreM Unit) s' = (.ok (), s₂) ∧
      Edits tx s s₁ s₂ rid row p p' := by
  obtain ⟨s₂, hr, puts⟩ := h.puts.recached (h.intact_after hs).tables.plain h.id h.owner table
  exact ⟨s₂, hr, { h with puts }⟩

/-- The ways in which a call ends that is to put `t?` into a slot. -/
inductive Changes (tx : TxId) (s : Store) (t? : Option Tuple) :
    List Store → Except Error RecordId → Store → Prop
  | failed {stops : List Store} {e : Error} {s' : Store} (calm : Calm tx s s')
      (stays : Stays stops s s') : Changes tx s t? stops (.error e) s'
  | changed {stops : List Store} {s₁ s' : Store} {rid : RecordId} {p p' : HeapPage}
      (edits : Edits tx s s₁ s' rid (t?.map Tuple.row) p p')
      (placed : p'.get? rid.slot = t?.map fun t => t.located (some rid)) (stays : Stays stops s s₁)
      (last : stops.getLast? = some s₁) : Changes tx s t? stops (.ok rid) s'

/-- What `insert` comes to, with the record id of the row that it hands back. -/
theorem changes_of_insert (hs : s.Intact T) (tx : TxId) (table : TableId) (t : Tuple) :
    ∃ r s', Changes tx s (some t) ((Call.insert tx table t).stops s) r s' ∧
      (Call.insert tx table t).perform s =
        (r.map fun rid => .row (t.located (some rid)), s') := by
  have nowhere : Stays [] s s := fun q p hp _ => hp
  simp only [Call.stops, Call.perform, insert_apply, bind_apply, lookup_apply]
  cases he : s.catalog.find table with
  | error e => exact ⟨.error e, s, .failed (.refl hs tx) nowhere, rfl⟩
  | ok e =>
      simp only [insertInto, ensure]
      split
      next fits =>
        have seeks := seeks_of_search e.file tx t (HeapFile.maxPages + 1) 0 s (Nat.zero_le _)
        rw [searchStops_eq]
        generalize searchRequests e.file tx t (HeapFile.maxPages + 1) 0 s = rs at seeks ⊢
        simp only [pure_bind]
        generalize search e.file tx t (HeapFile.maxPages + 1) 0 s = outcome at seeks ⊢
        obtain ⟨err | ⟨p', rid⟩, s'⟩ := outcome
        · obtain ⟨calm, stays⟩ := seeks.calm hs he
          exact ⟨.error err, s', .failed calm stays, rfl⟩
        · obtain ⟨s₁, p, edits, placed, stays, last⟩ := seeks.edits hs he
          obtain ⟨s₂, hk, edits'⟩ := edits.recached hs table
          refine ⟨.ok rid, s₂, .changed edits' placed stays last, ?_⟩
          rw [bind_apply] at hk
          simp only [hk]
          rfl
      next =>
        exact ⟨_, s, .failed (.refl hs tx) nowhere, rfl⟩

/-- What `delete` comes to: if it succeeds, it is at the record id of the request. -/
theorem changes_of_delete (hs : s.Intact T) (tx : TxId) (rid : Option RecordId) :
    ∃ r s', Changes tx s none ((Call.delete tx rid).stops s) r s' ∧
      (Call.delete tx rid).perform s = (r.map fun _ => .done, s') ∧
        ∀ loc, r = .ok loc → rid = some loc := by
  have nowhere : Stays [] s s := fun q p hp _ => hp
  have fails {e : Error} {s' : Store} {stops : List Store}
      (h : Changes tx s none stops (.error e) s') :
    ∃ r s'', Changes tx s none stops r s'' ∧
      ((.error e, s') : Except Error Answer × Store) = (r.map fun _ => .done, s'') ∧
        ∀ loc, r = .ok loc → rid = some loc :=
    ⟨.error e, s', h, rfl, by intro loc h; cases h⟩
  simp only [Call.perform, map_eq_pure_bind, bind_apply]
  cases rid with
  | none => exact fails (.failed (.refl hs tx) nowhere)
  | some loc =>
      simp only [delete, Call.stops, bind_apply, lookup_apply]
      cases he : s.catalog.find loc.page.table with
      | error e => exact fails (.failed (.refl hs tx) nowhere)
      | ok e =>
          have table := (hs.tables.plain _ _ (Catalog.find_ok he)).1
          have hf := fetched hs tx loc.page .readWrite
          have calm := hf.calm hs
          have stays := Stays.of_fetched hf
          have erases := erases e.file tx loc s
          simp only
          generalize deleteFrom e.file tx (some loc) s = outcome at erases ⊢
          obtain ⟨r, s'⟩ := outcome
          cases erases with
          | elsewhere foreign => exact absurd table.symm foreign
          | unfetched _ had | vacant _ had _ =>
              rw [had] at calm stays ⊢
              exact fails (.failed calm stays)
          | @erased p p' s₁ _ got done =>
              rw [got] at hf calm stays ⊢
              obtain ⟨_, here, locked⟩ := hf.serves hs
              have placed := (HeapPage.erase_ok ((calm.intact hs).pages _ p here).sound done).here
              have edits := edits_of_erase hs calm here (locked rfl) done
              obtain ⟨s₂, hk, edits'⟩ := edits.recached hs loc.page.table
              refine ⟨.ok loc, s₂, .changed edits' placed stays rfl, ?_, ?_⟩
              · rw [bind_apply] at hk
                simp only [put_apply] at hk ⊢
                rw [hk]
                rfl
              · rintro _ ⟨⟩
                rfl

end HeapStore.Store
