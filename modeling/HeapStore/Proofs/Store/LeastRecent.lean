import HeapStore.Proofs.Store.Passage

/-!
Which pages stay in the cache. Over any course of moments at which no table has a hook, the queue
is in the order of the last uses, so that room is always made by the page whose last use is the
longest ago, of those that are clean and that nobody is writing to. If pages are only asked for,
the cache has the pages that were asked for last, as many as there is room for.
-/

namespace HeapStore
open Store
variable {s s' : Store} {used : List PageId} {rs : List PageRequest}

/-- What there is to say of a request, if `used` are the pages used before it. A page leaves only to
make room for the one asked for. -/
structure PageRequest.Accounts (used : List PageId) (r : PageRequest) : Prop where
  queued : r.before.pool.cache.Queued used
  failed : ∀ e, r.answer = .error e → r.after.pool.cache = r.before.pool.cache
  leaves : ∀ v, r.before.pool.cache.contains v → r.after.pool.cache.contains v = false →
    (∃ p, r.answer = .ok p) ∧ r.before.pool.cache.Evicts used r.page v ∧
      ∀ w, r.after.pool.cache.contains w ↔ w = r.page ∨ r.before.pool.cache.contains w ∧ w ≠ v

theorem PageRequest.accounts (r : PageRequest) (plain : r.before.catalog.Plain)
    (hs : r.before.pool.cache.Ordered) (queued : r.before.pool.cache.Queued used) :
    r.Accounts used ∧ r.after.pool.cache.Queued (used ++ r.uses) := by
  have gets := gets_of_request r plain
  refine ⟨⟨queued, ?_, fun v here gone => gets.leaves hs queued here gone⟩, ?_⟩
  · intro e failed
    rw [failed] at gets
    generalize r.after.pool.cache = c at gets ⊢
    cases gets
    rfl
  · apply gets.queued queued
    · intro p got
      rw [PageRequest.uses, got]
    · intro e failed
      rw [PageRequest.uses, failed]

theorem Store.Passage.accounts (h : Passage s rs s') (plain : s.catalog.Plain)
    (hs : s.pool.cache.Ordered) (queued : s.pool.cache.Queued used) :
    s'.pool.cache.Queued (used ++ rs.flatMap PageRequest.uses) ∧
      ∀ earlier r later, rs = earlier ++ r :: later →
        r.Accounts (used ++ earlier.flatMap PageRequest.uses) := by
  induction h generalizing used with
  | still h =>
      refine ⟨?_, by simp⟩
      rw [List.flatMap_nil, List.append_nil]
      exact queued.of_same h.ids h.contains
  | @request s s' r rs h rest ih =>
      have here : r.before.catalog.Plain := h.catalog ▸ plain
      obtain ⟨kept, ordered⟩ := (arranging.fetch r.tx r.page r.access r.before)
      have catalog : r.after.catalog = r.before.catalog :=
        (gets_of_plain here r.tx r.page r.access).2
      obtain ⟨first, after⟩ := r.accounts here (h.arranges.2 hs)
        (queued.of_same h.ids h.contains)
      obtain ⟨last, others⟩ := ih (catalog ▸ here) (ordered (h.arranges.2 hs)) after
      rw [List.append_assoc] at last
      refine ⟨last, fun earlier r' later split => ?_⟩
      cases earlier with
      | nil =>
          obtain ⟨rfl, rfl⟩ := List.cons.inj split
          rwa [List.flatMap_nil, List.append_nil]
      | cons _ earlier =>
          obtain ⟨rfl, rfl⟩ := List.cons.inj split
          rw [List.flatMap_cons, ← List.append_assoc]
          exact others earlier r' later rfl

/-- Where a page leaves on the way from request to request, it leaves at one of them. -/
theorem Store.Passage.leaves {v : PageId} (h : Passage s rs s') (here : s.pool.cache.contains v)
    (gone : s'.pool.cache.contains v = false) :
    ∃ r ∈ rs, r.before.pool.cache.contains v ∧ r.after.pool.cache.contains v = false := by
  induction h with
  | still h => simp [h.contains, here] at gone
  | @request s s' r rs h rest ih =>
      by_cases stays : r.after.pool.cache.contains v
      · obtain ⟨r', hr', leaves⟩ := ih stays gone
        exact ⟨r', List.mem_cons_of_mem r hr', leaves⟩
      · exact ⟨r, List.mem_cons_self .., (h.contains v).trans here, by simpa using stays⟩

/-- Pages are written, a transaction ends, a lock is let go of, or somebody looks what is cached. -/
def Happening.UsesNone : Happening → Prop
  | act (.call (.flushPage _)) | act (.call .flushAll) | act (.call (.flushTx _)) => True
  | act (.call (.complete ..)) | act (.call (.release ..)) | look _ => True
  | act _ | edit _ | latch .. => False

/-- What there is to say of a moment, if `used` are the pages used before it. Pages leave if they
are discarded, or else at requests, and in between none comes or goes. Where no page is used, the
page that would have to go next is another one only because some page is clean now, or dirty. -/
structure Moment.Accounts (used : List PageId) (s : Store) (m : Moment) : Prop where
  queued : s.pool.cache.Queued used
  requests : ∀ earlier r later, m.requests s = earlier ++ r :: later →
    r.Accounts (used ++ earlier.flatMap PageRequest.uses)
  passage : (∀ v, m.what ≠ .act (.call (.discard v))) →
    Passage (m.enter s) (m.requests s) (m.perform s).2
  leaves : ∀ v, s.pool.cache.contains v → (m.perform s).2.pool.cache.contains v = false →
    m.what = .act (.call (.discard v)) ∨
      ∃ r ∈ m.requests s, r.before.pool.cache.contains v ∧ r.after.pool.cache.contains v = false
  failed : ∀ tx q a e, m.what = .act (.call (.get tx q a)) → (m.perform s).1 = .error e →
    (m.perform s).2.pool.cache = s.pool.cache
  unmoved : m.what.UsesNone → s.pool.cache.Unmoved (m.perform s).2.pool.cache ∧
    ((∀ id, ((m.perform s).2.cached id).map HeapPage.isDirty =
        (s.cached id).map HeapPage.isDirty) →
      (m.perform s).2.pool.cache.victim? = s.pool.cache.victim?)

/-- Apart from discarding a page, a moment passes from request to request. -/
theorem Moment.ends (m : Moment) (plain : m.catalog.Plain) (hs : s.pool.cache.Ordered)
    (h : ∀ v, m.what ≠ .act (.call (.discard v))) :
    Act.Ends (m.requests s) (m.modified s) (m.enter s) (m.perform s).2 := by
  simp only [Moment.requests, Moment.modified, Moment.perform]
  cases what : m.what with
  | act a =>
      have entered : (m.enter s).catalog.Plain := plain
      exact Act.ends entered hs a fun v same => h v (by rw [what, same])
  | look page => exact ⟨.still (.of_cache rfl rfl), nofun⟩
  | edit p => exact ⟨.still (staying.changed (m.enter s) p), nofun⟩
  | latch page latched =>
      refine ⟨.still ⟨rfl, ⟨rfl, fun hs => hs.setLatch page latched⟩, rfl, fun id => ?_⟩, nofun⟩
      show ((m.enter s).pool.cache.setLatch page latched).contains id = _
      rw [Cache.contains_eq, Cache.find?_setLatch, Cache.contains_eq]

theorem unmoving : Writing fun s s' => s.pool.cache.Unmoved s'.pool.cache where
  refl _ := ⟨rfl, fun _ => rfl⟩
  trans h₁ h₂ := ⟨h₂.ids.trans h₁.ids, fun id => (h₂.latched id).trans (h₁.latched id)⟩
  changed s p := s.pool.cache.unmoved_update p
  disk _ _ := ⟨rfl, fun _ => rfl⟩

theorem Moment.unmoved {m : Moment} (h : m.what.UsesNone) :
    s.pool.cache.Unmoved (m.perform s).2.pool.cache := by
  show (m.enter s).pool.cache.Unmoved _
  unfold Moment.perform
  have mapped (x : StoreM Unit)
      (kept : Keeping (fun s s' => s.pool.cache.Unmoved s'.pool.cache) x) :
      (m.enter s).pool.cache.Unmoved (((fun _ => Answer.done) <$> x) (m.enter s)).2.pool.cache := by
    rw [map_apply]
    exact kept _
  have completes (tx : TxId) (ending : Ending) :
      Keeping (fun s s' => s.pool.cache.Unmoved s'.pool.cache) (complete tx ending) := by
    intro s
    cases ending with
    | commit => exact unmoving.commit tx s
    | abort => exact unmoving.rollback tx s
  generalize m.what = what at h ⊢
  match what, h with
  | .look _, _ => exact unmoving.refl _
  | .act (.call (.flushPage page)), _ => exact mapped (flushPage page) (unmoving.flushPage page)
  | .act (.call .flushAll), _ => exact mapped flushAll unmoving.flushAll
  | .act (.call (.flushTx tx)), _ => exact mapped (flushTx tx) (unmoving.flushTx tx)
  | .act (.call (.release ..)), _ => exact unmoving.refl _
  | .act (.call (.complete tx ending)), _ => exact mapped (complete tx ending) (completes tx ending)

theorem Act.Ends.queued {modified : List PageId} (h : Act.Ends rs modified s s')
    (plain : s.catalog.Plain) (hs : s.pool.cache.Ordered) (queued : s.pool.cache.Queued used) :
    s'.pool.cache.Queued (used ++ (rs.flatMap PageRequest.uses ++ modified)) := by
  have last := (h.passage.accounts plain hs queued).1
  cases modified with
  | nil => rwa [List.append_nil]
  | cons q rest =>
      obtain ⟨alone, uses, ends⟩ := h.last q (List.mem_cons_self ..)
      rw [ends, ← List.append_assoc] at last
      rw [alone, ends, ← List.append_assoc, ← List.append_assoc]
      exact last.again

theorem Moment.failed {tx : TxId} {q : PageId} {a : Access} {e : Error} {m : Moment}
    (plain : m.catalog.Plain) (what : m.what = .act (.call (.get tx q a)))
    (failed : (m.perform s).1 = .error e) :
    (m.perform s).2.pool.cache = s.pool.cache := by
  have gets := (gets_of_plain (s := m.enter s) plain tx q a).1
  simp only [Moment.perform, what, Happening.perform, Act.perform, Call.perform, map_apply]
    at failed ⊢
  generalize fetch tx q a (m.enter s) = outcome at gets failed ⊢
  obtain ⟨_ | p, s'⟩ := outcome
  · simp only at gets ⊢
    generalize s'.pool.cache = c at gets ⊢
    cases gets
    rfl
  · cases failed

theorem Moment.accounts (m : Moment) (plain : m.catalog.Plain) (hs : s.pool.cache.Ordered)
    (queued : s.pool.cache.Queued used) :
    m.Accounts used s ∧ (m.perform s).2.pool.cache.Queued (used ++ m.uses s) := by
  have unmoved (h : m.what.UsesNone) : s.pool.cache.Unmoved (m.perform s).2.pool.cache ∧
      ((∀ id, ((m.perform s).2.cached id).map HeapPage.isDirty =
          (s.cached id).map HeapPage.isDirty) →
        (m.perform s).2.pool.cache.victim? = s.pool.cache.victim?) :=
    ⟨Moment.unmoved h, (Moment.unmoved h).victim?⟩
  by_cases discards : ∃ v, m.what = .act (.call (.discard v))
  case pos =>
    obtain ⟨v, what⟩ := discards
    have removed : (m.perform s).2.pool.cache = s.pool.cache.remove v := by
      rw [Moment.perform, what]
      rfl
    have uses : m.uses s = [] := by simp [Moment.uses, Moment.requests, Moment.modified, what,
      Act.requests, Act.modified]
    refine ⟨⟨queued, ?_, fun h => absurd what (h v), ?_, ?_, unmoved⟩, ?_⟩
    · simp [Moment.requests, what, Act.requests]
    · intro w here gone
      rw [removed, Cache.contains_eq, Cache.find?_remove] at gone
      split at gone
      next same => exact .inl (same ▸ what)
      next =>
        rw [Cache.contains_eq, gone] at here
        cases here
    · intro tx q a e get _
      rw [what] at get
      cases get
    · rw [uses, List.append_nil, removed]
      exact queued.remove v
  case neg =>
    have ends := m.ends plain hs fun v what => discards ⟨v, what⟩
    refine ⟨⟨queued, (ends.passage.accounts plain hs queued).2, fun _ => ends.passage, ?_, ?_,
      unmoved⟩, ends.queued plain hs queued⟩
    · exact fun v here gone => .inr (ends.passage.leaves here gone)
    · exact fun tx q a e what failed => Moment.failed plain what failed

theorem Store.queued_throughout {moments : List Moment} (plain : ∀ m ∈ moments, m.catalog.Plain)
    (hs : s.pool.cache.Ordered) (queued : s.pool.cache.Queued used) {before after : List Moment}
    {m : Moment} (split : moments = before ++ m :: after) :
    m.Accounts (used ++ history before s) (course before s).2 := by
  induction before generalizing moments s used with
  | nil =>
      subst split
      rw [history, List.append_nil]
      exact (m.accounts (plain m (List.mem_cons_self ..)) hs queued).1
  | cons m' before ih =>
      subst split
      have here := plain m' (List.mem_cons_self ..)
      rw [history, ← List.append_assoc]
      exact ih (fun m hm => plain m (List.mem_cons_of_mem m' hm)) ((m'.arranges s).2 hs)
        (m'.accounts here hs queued).2 rfl

/-- The page that a moment asks for, if nothing else happens. -/
def Moment.asks? (m : Moment) : Option PageId :=
  match m.what with
  | .act (.call (.get _ page _)) => some page
  | _ => none

theorem Store.stacked_throughout {moments : List Moment}
    (plain : ∀ m ∈ moments, m.catalog.Plain) (hs : s.pool.cache.Ordered)
    (stacked : s.pool.cache.Stacked used) (asks : ∀ m ∈ moments, m.asks?.isSome)
    (answered : ∀ r ∈ (course moments s).1, r = .ok ()) :
    (course moments s).2.pool.cache.Stacked (used ++ moments.filterMap Moment.asks?) := by
  induction moments generalizing s used with
  | nil => rwa [List.filterMap_nil, List.append_nil]
  | cons m moments ih =>
      obtain ⟨q, hq⟩ := Option.isSome_iff_exists.mp (asks m (List.mem_cons_self ..))
      have first : (m.perform s).2.pool.cache.Stacked (used ++ [q]) := by
        have ok : (m.perform s).1 = .ok () := answered _ (List.mem_cons_self ..)
        unfold Moment.asks? at hq
        split at hq
        next tx page a what =>
          cases hq
          have here : (m.enter s).catalog.Plain := plain m (List.mem_cons_self ..)
          have gets := (gets_of_plain here tx q a).1
          simp only [Moment.perform, what, Happening.perform, Act.perform, Call.perform, map_apply]
            at ok ⊢
          generalize fetch tx q a (m.enter s) = outcome at gets ok ⊢
          obtain ⟨_ | p, s'⟩ := outcome
          · cases ok
          · exact gets.stacked hs stacked
        next => cases hq
      rw [List.filterMap_cons_some hq, List.append_cons]
      exact ih (fun m hm => plain m (List.mem_cons_of_mem _ hm)) ((m.arranges s).2 hs) first
        (fun m hm => asks m (List.mem_cons_of_mem _ hm))
        (fun r hr => answered r (List.mem_cons_of_mem _ hr))

/-- From a new pool on, the queue is at any moment in the order of the last uses, and whoever
leaves the cache has been discarded, or makes room for a page that is asked for, being clean, with
nobody writing to it, and used before all other such pages. If pages are only asked for, and had,
the cached pages are those that were asked for last, as many different ones as there is room for.
-/
theorem Store.least_recent_leaves {config : Config} (new : Pool.new? config = some s.pool)
    {moments : List Moment} (plain : ∀ m ∈ moments, m.catalog.Plain) :
    (∀ before m after, moments = before ++ m :: after →
      m.Accounts (history before s) (course before s).2) ∧
    ((∀ m ∈ moments, m.asks?.isSome) → (∀ r ∈ (course moments s).1, r = .ok ()) →
      (course moments s).2.pool.cache.ids =
          (moments.filterMap Moment.asks?).dedup.rtake config.capacity ∧
        ∀ q, (course moments s).2.pool.cache.contains q ↔
          q ∈ (moments.filterMap Moment.asks?).dedup.rtake config.capacity) := by
  obtain ⟨_, consistent, table, capacity⟩ := Pool.eq_of_new? new
  have ids : s.pool.cache.ids = [] := by
    apply List.eq_nil_iff_forall_not_mem.mpr
    intro q hq
    have here := (consistent.listed q).mp hq
    simp [Cache.contains_eq, Cache.find?, table] at here
  constructor
  · intro before m after split
    exact queued_throughout plain consistent.toOrdered (Cache.queued_of_empty ids) split
  · intro asks answered
    have empty : s.pool.cache.Stacked [] := by
      refine ⟨by simp [ids], by simp [ids], fun id f hf => ?_⟩
      simp [table] at hf
    have stacked := stacked_throughout plain consistent.toOrdered empty asks answered
    obtain ⟨same, ordered⟩ := arranges_course moments s
    have queue := stacked.ids
    rw [same, capacity, List.nil_append] at queue
    refine ⟨queue, fun q => ?_⟩
    rw [← queue, (ordered consistent.toOrdered).listed]

namespace Store

/-- The pages of the sample, which have to be read first. -/
def askFor (n : Nat) : Moment where
  what := .act (.call (.get ⟨1⟩ ⟨.file 0, n⟩ .readOnly))
  catalog := Catalog.add {} sampleEntry
  disk := ({} : Disk TableId).replace sampleEntry.file.id (Bytes.zeros (2 * pageSize + 1))

/-- Two pages find room; the first is asked for again, and then comes a third. -/
theorem second_page_leaves :
    let s := sample [] 2 (by decide)
    (course ([0, 1, 0].map askFor) s).2.pool.cache.Evicts
        [⟨.file 0, 0⟩, ⟨.file 0, 1⟩, ⟨.file 0, 0⟩] ⟨.file 0, 2⟩ ⟨.file 0, 1⟩ ∧
      (course ([0, 1, 0, 2].map askFor) s).2.pool.cache.ids = [⟨.file 0, 0⟩, ⟨.file 0, 2⟩] := by
  intro s
  have asking : ∀ m ∈ [0, 1, 0, 2].map askFor, m.catalog.Plain ∧ m.asks?.isSome := by
    intro m hm
    obtain ⟨n, _, rfl⟩ := List.mem_map.mp hm
    exact ⟨Catalog.plain_default.add rfl, rfl⟩
  have new : Pool.new? (sampleConfig 2) = some s.pool :=
    (opened_sample (by decide) (by decide)).pool
  have run : (course ([0, 1, 0].map askFor) s).2.pool.cache.contains ⟨.file 0, 1⟩ ∧
      (PageRequest.after ⟨⟨1⟩, ⟨.file 0, 2⟩, .readOnly,
        (askFor 2).enter (course ([0, 1, 0].map askFor) s).2⟩).pool.cache.contains ⟨.file 0, 1⟩ =
          false ∧
      history ([0, 1, 0].map askFor) s = [⟨.file 0, 0⟩, ⟨.file 0, 1⟩, ⟨.file 0, 0⟩] ∧
      ∀ r ∈ (course ([0, 1, 0, 2].map askFor) s).1, r = .ok () := by
    decide +kernel
  obtain ⟨here, gone, used, answered⟩ := run
  obtain ⟨accounts, asked⟩ := least_recent_leaves new fun m hm => (asking m hm).1
  constructor
  · have account := accounts ([0, 1, 0].map askFor) (askFor 2) [] rfl
    rw [used] at account
    generalize (course ([0, 1, 0].map askFor) s).2 = s₃ at account here gone ⊢
    exact ((account.requests [] _ [] rfl).leaves ⟨.file 0, 1⟩ here gone).2.1
  · rw [(asked (fun m hm => (asking m hm).2) answered).1]
    decide

end Store
end HeapStore
