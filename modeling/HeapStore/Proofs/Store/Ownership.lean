import HeapStore.Proofs.Store.Running
import HeapStore.Proofs.Store.Tidy
import HeapStore.Store.Occasion

/-!
Who has changed a page that has not been written since is running and has it locked, after every
run in which no write fails and no table goes. So flushes and ends of transactions, which find
their pages by way of locks, find all that there are; and while nobody has a lock there is room in
the cache.
-/

namespace HeapStore

/-- A page could not be written that had to be. -/
def Event.WriteFailed : Event → Prop
  | ⟨.flushPage _, .error (.io _)⟩ | ⟨.flushAll, .error (.io _)⟩ | ⟨.flushTx _, .error (.io _)⟩
  | ⟨.complete .., .error (.io _)⟩ => True
  | _ => False

theorem Event.WriteFailed.io {e : Event} (h : e.WriteFailed) :
    ∃ cause, e.answer = .error (.io cause) := by
  unfold Event.WriteFailed at h
  split at h
  · exact ⟨_, rfl⟩
  · exact ⟨_, rfl⟩
  · exact ⟨_, rfl⟩
  · exact ⟨_, rfl⟩
  · exact h.elim

/-- Every table of the one catalog is in the other, whatever file it has there. -/
def Catalog.Within (c c' : Catalog) : Prop :=
  ∀ id e, c.find id = .ok e → ∃ e', c'.find id = .ok e'

theorem Catalog.Within.refl (c : Catalog) : c.Within c :=
  fun _ e h => ⟨e, h⟩

namespace Store
variable {s s' s₁ : Store} {tx u : TxId} {q : PageId} {p p' : HeapPage} {left : HeapPage → Prop}
  {pages : List PageId} {visit : HeapPage → StoreM Unit}

/-- The pages that are cached of those listed have been left in some way, and the others as they
were. -/
structure Tended (left : HeapPage → Prop) (pages : List PageId) (s s' : Store) : Prop where
  tidy : s'.Tidy
  catalog : s'.catalog = s.catalog
  locks : s'.pool.locks = s.pool.locks
  here : ∀ q ∈ pages, ∀ p, s'.cached q = some p → left p
  others : ∀ q, q ∉ pages → s'.cached q = s.cached q

theorem Tended.cons (h₁ : Tended left [q] s s₁) (h : Tended left pages s₁ s') (hq : q ∉ pages) :
    Tended left (q :: pages) s s' where
  tidy := h.tidy
  catalog := h.catalog.trans h₁.catalog
  locks := h.locks.trans h₁.locks
  here q' hq' p hp := by
    rcases List.mem_cons.mp hq' with rfl | hmem
    · exact h₁.here q' (List.mem_singleton_self q') p (h.others q' hq ▸ hp)
    · exact h.here q' hmem p hp
  others q' hq' := by
    rw [List.mem_cons, not_or] at hq'
    exact (h.others q' hq'.2).trans (h₁.others q' (mt List.mem_singleton.mp hq'.1))

theorem Tended.imp {left₁ : HeapPage → Prop} (h : Tended left pages s s')
    (weaker : ∀ p, left p → left₁ p) : Tended left₁ pages s s' :=
  { h with here := fun q hq p hp => weaker p (h.here q hq p hp) }

theorem Tidy.tended_same (hs : s.Tidy) (h : ∀ p, s.cached q = some p → left p) :
    Tended left [q] s s where
  tidy := hs
  catalog := rfl
  locks := rfl
  here q' hq' := by
    obtain rfl := List.mem_singleton.mp hq'
    exact h
  others _ _ := rfl

/-- A page is put in the place of one that belonged to the same transaction, if to any. -/
theorem Tidy.tended_put (hs : s.Tidy) (here : s.cached q = some p) (id : p'.id = p.id)
    (sound : p'.Sound) (reverts : ∃ c, p'.Reverts c)
    (owner : p'.dirtiedBy = none ∨ p'.dirtiedBy = p.dirtiedBy) (h : left p') :
    Tended left [q] s (put p' s).2 := by
  have puts := puts_put hs.cache here (id.trans (id_of_cached hs.cache here))
  constructor
  case tidy =>
    apply hs.puts here puts sound reverts
    intro u hu
    rcases owner with clean | same
    · rw [clean] at hu
      cases hu
    · exact hs.owned q p u here (same ▸ hu)
  case catalog => exact puts.catalog
  case locks => exact puts.locks
  case here =>
    intro q' hq' r hr
    obtain rfl := List.mem_singleton.mp hq'
    rw [puts.cached, if_pos rfl] at hr
    cases hr
    exact h
  case others =>
    intro q' hq'
    rw [puts.cached, if_neg (mt List.mem_singleton.mpr hq')]

/-- All pages have been tended, or the medium has failed. -/
def Tends (left : HeapPage → Prop) (pages : List PageId) (s : Store)
    (r : Except Error Unit × Store) : Prop :=
  (∃ cause, r.1 = .error (.io cause)) ∨ r.1 = .ok () ∧ Tended left pages s r.2

theorem Tidy.io (hs : s.Tidy) (here : s.cached q = some p) (id : p'.id = p.id) {e : Error}
    (failed : s.writing p' = .error e) : ∃ cause, e = .io cause := by
  have page : p'.id = q := id.trans (id_of_cached hs.cache here)
  exact (refusal_of_writing hs.plain failed).of_medium (page ▸ hs.registered q p here)
    (page ▸ hs.addressable q p here)

/-- A page is put in place once its file has taken one. -/
theorem Tidy.tended_written (hs : s.Tidy) (here : s.cached q = some p) (disk : Disk TableId)
    (id : p'.id = p.id) (sound : p'.Sound) (reverts : ∃ c, p'.Reverts c)
    (clean : p'.dirtiedBy = none) (h : left p') : Tended left [q] s (put p' { s with disk }).2 := by
  have written : ({ s with disk } : Store).Tidy := hs.of_pool rfl rfl
  obtain ⟨tidy, catalog, locks, done, others⟩ :=
    written.tended_put here id sound reverts (.inl clean) h
  exact ⟨tidy, catalog, locks, done, others⟩

theorem Tidy.tended_left (hs : s.Tidy) (here : s.cached q = some p) (h : left p) :
    Tended left [q] s s := by
  refine hs.tended_same fun r hr => ?_
  obtain rfl := Option.some.inj (here.symm.trans hr)
  exact h

theorem Tidy.tends_writeBack (hs : s.Tidy) (here : s.cached q = some p) :
    Tends (·.dirtiedBy = none) [q] s (writeBack p s) := by
  have ends := writesBack p s
  generalize writeBack p s = outcome at ends ⊢
  obtain ⟨r, s'⟩ := outcome
  cases ends with
  | spared clean => exact .inr ⟨rfl, hs.tended_left here clean⟩
  | refused _ failed => exact .inl ((hs.io here rfl failed).imp fun _ => congrArg _)
  | @written disk _ _ =>
      exact .inr ⟨rfl, hs.tended_written here disk rfl ((hs.sound q p here).mark none)
        (hs.reverts q p here) rfl rfl⟩

theorem Tidy.tends_writeBack_of (hs : s.Tidy) (here : s.cached q = some p) :
    Tends (·.dirtiedBy ≠ some tx) [q] s
      ((if p.dirtiedBy = some tx then writeBack p else pure () : StoreM Unit) s) := by
  by_cases hd : p.dirtiedBy = some tx
  · rw [if_pos hd]
    exact (hs.tends_writeBack here).imp id (.imp id (·.imp fun _ => ne_some_of_clean tx))
  · rw [if_neg hd]
    exact .inr ⟨rfl, hs.tended_left here hd⟩

theorem Tidy.tends_commitPage (hs : s.Tidy) (here : s.cached q = some p) :
    Tends (·.dirtiedBy ≠ some tx) [q] s (commitPage tx p s) := by
  have sound := hs.sound q p here
  have ends := commitsPage tx p s
  generalize commitPage tx p s = outcome at ends ⊢
  obtain ⟨r, s'⟩ := outcome
  cases ends with
  | refused _ failed => exact .inl ((hs.io here rfl failed).imp fun _ => congrArg _)
  | @own disk _ _ =>
      exact .inr ⟨rfl, hs.tended_written here disk rfl (sound.mark none).snapshot
        ⟨_, (sound.mark none).reverts_snapshot⟩ rfl nofun⟩
  | clean clean =>
      exact .inr ⟨rfl, hs.tended_put here rfl sound.snapshot ⟨_, sound.reverts_snapshot⟩
        (.inr rfl) (ne_some_of_clean tx clean)⟩
  | foreign owner other =>
      refine .inr ⟨rfl, hs.tended_put here rfl sound (hs.reverts q p here) (.inr rfl) fun own => ?_⟩
      exact other (Option.some.inj (owner.symm.trans own))

theorem Tidy.tends_rollbackPage (hs : s.Tidy) (here : s.cached q = some p) :
    Tends (·.dirtiedBy ≠ some tx) [q] s (rollbackPage tx p s) := by
  obtain ⟨c, reverts⟩ := hs.reverts q p here
  obtain ⟨p', back, restored⟩ := HeapPage.restore_of_reverts reverts
  have again : ∃ c, p'.Reverts c := ⟨c, restored.reverts.mpr reverts⟩
  have left := ne_some_of_clean tx restored.clean
  have ends := rollsBackPage tx p s
  generalize rollbackPage tx p s = outcome at ends ⊢
  obtain ⟨r, s'⟩ := outcome
  cases ends with
  | unrestored _ failed => cases back.symm.trans failed
  | own _ back' =>
      cases back.symm.trans back'
      exact .inr ⟨rfl, hs.tended_put here restored.id restored.sound again (.inl restored.clean)
        left⟩
  | refused _ _ back' failed =>
      cases back.symm.trans back'
      exact .inl ((hs.io here restored.id failed).imp fun _ => congrArg _)
  | @flushed _ disk _ _ back' _ =>
      cases back.symm.trans back'
      exact .inr ⟨rfl, hs.tended_written here disk restored.id restored.sound again restored.clean
        left⟩
  | same clean _ => exact .inr ⟨rfl, hs.tended_left here (ne_some_of_clean tx clean)⟩
  | foreign owner other =>
      refine .inr ⟨rfl, hs.tended_left here fun own => ?_⟩
      exact other (Option.some.inj (owner.symm.trans own))

/-- What is done well to every page is done well to all of them. -/
theorem Tidy.sweep (hs : s.Tidy)
    (hv : ∀ {s q p}, s.Tidy → s.cached q = some p → Tends left [q] s (visit p s))
    (nodup : pages.Nodup) : Tends left pages s (pages.forM (fun q => withCached q visit) s) := by
  induction pages generalizing s with
  | nil => exact .inr ⟨rfl, hs, rfl, rfl, nofun, fun _ _ => rfl⟩
  | cons q pages ih =>
      obtain ⟨hq, nodup⟩ := List.nodup_cons.mp nodup
      show Tends left (q :: pages) s
        ((withCached q visit >>= fun _ => pages.forM fun q => withCached q visit) s)
      have first : Tends left [q] s (withCached q visit s) := by
        rw [withCached_apply]
        cases hp : s.cached q with
        | none => exact .inr ⟨rfl, hs.tended_same fun p h => nomatch hp.symm.trans h⟩
        | some p => exact hv hs hp
      rw [bind_apply]
      generalize withCached q visit s = outcome at first ⊢
      obtain ⟨r, s₁⟩ := outcome
      rcases first with ⟨cause, rfl⟩ | ⟨rfl, tended⟩
      · exact .inl ⟨cause, rfl⟩
      · rcases ih tended.tidy nodup with failed | ⟨ok, rest⟩
        · exact .inl failed
        · exact .inr ⟨ok, tended.cons rest hq⟩

theorem Tidy.tends_flushPage (hs : s.Tidy) (q : PageId) :
    Tends (·.dirtiedBy = none) [q] s (flushPage q s) := by
  have single : [q].Nodup := by simp
  have one : [q].forM (fun q => withCached q writeBack) = flushPage q := by
    simp [flushPage]
  exact one ▸ hs.sweep Tidy.tends_writeBack single

theorem Tidy.tends_flushAll (hs : s.Tidy) :
    Tends (·.dirtiedBy = none) s.pool.cache.ids s (flushAll s) :=
  hs.sweep Tidy.tends_writeBack hs.cache.nodup

theorem Tidy.tends_flushTx (hs : s.Tidy) (tx : TxId) :
    Tends (·.dirtiedBy ≠ some tx) (s.pool.locks.pagesOf tx) s (flushTx tx s) :=
  hs.sweep Tidy.tends_writeBack_of (LockTable.nodup_pagesOf _ tx)

theorem Tidy.tends_commit (hs : s.Tidy) (tx : TxId) :
    Tends (·.dirtiedBy ≠ some tx) (Ending.pages tx s .commit) s (commit tx s) :=
  hs.sweep Tidy.tends_commitPage (LockTable.nodup_pagesOf _ tx)

theorem Tidy.tends_rollback (hs : s.Tidy) (tx : TxId) :
    Tends (·.dirtiedBy ≠ some tx) (Ending.pages tx s .abort) s (rollback tx s) := by
  have h : Tends (·.dirtiedBy ≠ some tx) (Ending.pages tx s .abort) s
      ((Ending.pages tx s .abort).forM (fun q => withCached q (rollbackPage tx)) s) :=
    hs.sweep Tidy.tends_rollbackPage ((LockTable.nodup_pagesOf s.pool.locks tx).filter _)
  rw [Ending.pages, ← forM_if] at h
  exact h

/-- Who has looked after all pages that he may write to has left none dirty. -/
theorem Tended.unowned (hs : s.Tidy) (h : Tended (·.dirtiedBy ≠ some tx) pages s s')
    (all : ∀ q, s.mode? tx q = some .exclusive → q ∈ pages) :
    ∀ q p, s'.cached q = some p → p.dirtiedBy ≠ some tx := by
  intro q p hp
  by_cases hq : q ∈ pages
  · exact h.here q hq p hp
  · rw [h.others q hq] at hp
    exact fun hu => hq (all q (hs.owned q p tx hp hu))

/-- The locks of a transaction may go once it has left nothing dirty. -/
theorem Tended.ends (hs : s.Tidy) (h : Tended (·.dirtiedBy ≠ some tx) pages s s₁)
    (all : ∀ q, s.mode? tx q = some .exclusive → q ∈ pages)
    (hs' : s' = { s₁ with pool.locks := s₁.pool.locks.releaseAll tx }) :
    s'.Tidy ∧ (∀ u q, s'.mode? u q = if u = tx then none else s.mode? u q) ∧
      ∀ q p, s'.cached q = some p → p.dirtiedBy ≠ some tx := by
  subst hs'
  have unowned := h.unowned hs all
  have mode (u : TxId) (q : PageId) : (s₁.pool.locks.releaseAll tx).mode? u q =
      if u = tx then none else s.mode? u q := by
    rw [LockTable.mode?_releaseAll h.tidy.locks, Store.mode?, h.locks]
  refine ⟨{ h.tidy with locks := h.tidy.locks.releaseAll tx, owned := ?_ }, mode, unowned⟩
  intro q p u hp hu
  have other : u ≠ tx := by
    rintro rfl
    exact unowned q p hp hu
  refine (mode u q).trans ?_
  rw [if_neg other, Store.mode?, ← h.locks]
  exact h.tidy.owned q p u hp hu

/-- Tables have no hooks and stay in the catalog once they are there, and nobody releases a lock
before the end of his transaction. -/
structure Lawful (occasions : List Occasion) : Prop where
  plain : ∀ o ∈ occasions, o.catalog.Plain
  stay : occasions.Pairwise fun o o' => o.catalog.Within o'.catalog
  unreleased : ∀ o ∈ occasions, ∀ tx q, o.call ≠ .release tx q

/-- What a call keeps and what it comes to for its transaction. -/
structure Accounts (c : Call) (s : Store) (r : Except Error Answer) (s' : Store) : Prop
    extends Behaves c.tx? s r s' where
  gone : ∀ tx ending, c = .complete tx ending → ∀ q, s'.mode? tx q = none
  unowned : ∀ tx, (c = .flushTx tx ∨ ∃ ending, c = .complete tx ending) →
    ∀ q p, s'.cached q = some p → p.dirtiedBy ≠ some tx

theorem Behaves.accounts (c : Call) {r : Except Error Answer} (h : Behaves c.tx? s r s')
    (going : ∀ tx ending, c ≠ .complete tx ending) (unflushed : ∀ tx, c ≠ .flushTx tx) :
    Accounts c s r s' where
  toBehaves := h
  gone tx ending same := absurd same (going tx ending)
  unowned tx same := by
    rcases same with same | ⟨ending, same⟩
    · exact absurd same (unflushed tx)
    · exact absurd same (going tx ending)

theorem Tended.behaves (h : Tended left pages s s') (tx? : Option TxId) (a : Answer) :
    Behaves tx? s (.ok a) s' where
  tidy := h.tidy
  catalog := h.catalog
  others u _ q := by simp only [Store.mode?, h.locks]
  room _ := nofun

theorem Tidy.discard (hs : s.Tidy) (q : PageId) : Behaves none s (.ok Answer.done)
    (discard q s).2 := by
  have kept {q' : PageId} {p : HeapPage} (hp : (Store.discard q s).2.cached q' = some p) :
      s.cached q' = some p := by
    have removed : (s.pool.cache.remove q).find? q' = some p := hp
    rw [Cache.find?_remove] at removed
    split at removed
    · cases removed
    · exact removed
  refine ⟨?_, rfl, fun _ _ _ => rfl, fun _ => nofun⟩
  constructor
  case plain => exact hs.plain
  case locks => exact hs.locks
  case cache => exact hs.cache.remove q
  case sound => exact fun q' p hp => hs.sound q' p (kept hp)
  case reverts => exact fun q' p hp => hs.reverts q' p (kept hp)
  case registered => exact fun q' p hp => hs.registered q' p (kept hp)
  case addressable => exact fun q' p hp => hs.addressable q' p (kept hp)
  case owned => exact fun q' p u hp => hs.owned q' p u (kept hp)

theorem Tidy.flushTx (hs : s.Tidy) (tx : TxId) :
    Event.WriteFailed ⟨.flushTx tx, ((Call.flushTx tx).perform s).1⟩ ∨
      Accounts (.flushTx tx) s ((Call.flushTx tx).perform s).1
        ((Call.flushTx tx).perform s).2 := by
  rw [Call.perform, map_apply]
  rcases hs.tends_flushTx tx with ⟨cause, failed⟩ | ⟨ok, tended⟩
  · rw [failed]
    exact .inl trivial
  · rw [ok]
    refine .inr ⟨tended.behaves _ _, fun _ _ => Call.noConfusion, ?_⟩
    rintro u (⟨⟨⟩⟩ | ⟨_, ⟨⟩⟩)
    exact tended.unowned hs fun q hx => hs.locks.listed.mpr (by rw [← Store.mode?, hx]; rfl)

theorem Tidy.complete (hs : s.Tidy) (tx : TxId) (ending : Ending) :
    Event.WriteFailed ⟨.complete tx ending, ((Call.complete tx ending).perform s).1⟩ ∨
      Accounts (.complete tx ending) s ((Call.complete tx ending).perform s).1
        ((Call.complete tx ending).perform s).2 := by
  have ends {x : StoreM Unit} (h : Tends (·.dirtiedBy ≠ some tx) (ending.pages tx s) s (x s))
      (hx : Store.complete tx ending s =
        ((x s).1, { (x s).2 with pool.locks := (x s).2.pool.locks.releaseAll tx })) :
      Event.WriteFailed ⟨.complete tx ending, ((Call.complete tx ending).perform s).1⟩ ∨
        Accounts (.complete tx ending) s ((Call.complete tx ending).perform s).1
          ((Call.complete tx ending).perform s).2 := by
    rw [Call.perform, map_apply, hx]
    rcases h with ⟨cause, failed⟩ | ⟨ok, tended⟩
    · rw [failed]
      exact .inl trivial
    · rw [ok]
      have all (q : PageId) (hq : s.mode? tx q = some .exclusive) : q ∈ ending.pages tx s :=
        (Ending.mem_pages hs.locks).mpr (hq ▸ ending.reaches_exclusive)
      obtain ⟨tidy, mode, unowned⟩ := tended.ends hs all rfl
      refine .inr ⟨⟨tidy, tended.catalog, fun u hu q => ?_, ?_⟩, ?_, ?_⟩
      · rw [mode, if_neg fun same => hu (congrArg some same.symm)]
      · intro _ failed
        cases failed
      · rintro u _ ⟨⟩ q
        rw [mode, if_pos rfl]
      · rintro u (⟨⟨⟩⟩ | ⟨_, ⟨⟩⟩)
        exact unowned
  cases ending with
  | commit => exact ends (hs.tends_commit tx) rfl
  | abort => exact ends (hs.tends_rollback tx) rfl

/-- What a call comes to, unless a write fails. -/
theorem Tidy.perform (hs : s.Tidy) (c : Call) (unreleased : ∀ tx q, c ≠ .release tx q) :
    Event.WriteFailed ⟨c, (c.perform s).1⟩ ∨ Accounts c s (c.perform s).1 (c.perform s).2 := by
  cases c with
  | get tx q a =>
      rw [Call.perform, map_apply]
      exact .inr (((hs.get tx q a).map _).accounts (.get tx q a) (fun _ _ => Call.noConfusion)
        fun _ => Call.noConfusion)
  | insert tx table t =>
      exact .inr ((hs.insert tx table t).accounts (.insert tx table t)
        (fun _ _ => Call.noConfusion) fun _ => Call.noConfusion)
  | delete tx rid =>
      rw [Call.perform, map_apply]
      exact .inr (((hs.delete tx rid).map _).accounts (.delete tx rid)
        (fun _ _ => Call.noConfusion) fun _ => Call.noConfusion)
  | flushPage q =>
      rw [Call.perform, map_apply]
      rcases hs.tends_flushPage q with ⟨cause, failed⟩ | ⟨ok, tended⟩
      · rw [failed]
        exact .inl trivial
      · rw [ok]
        exact .inr ((tended.behaves _ _).accounts (.flushPage q) (fun _ _ => Call.noConfusion)
          fun _ => Call.noConfusion)
  | flushAll =>
      rw [Call.perform, map_apply]
      rcases hs.tends_flushAll with ⟨cause, failed⟩ | ⟨ok, tended⟩
      · rw [failed]
        exact .inl trivial
      · rw [ok]
        exact .inr ((tended.behaves _ _).accounts .flushAll (fun _ _ => Call.noConfusion)
          fun _ => Call.noConfusion)
  | flushTx tx => exact hs.flushTx tx
  | discard q =>
      exact .inr ((hs.discard q).accounts (.discard q) (fun _ _ => Call.noConfusion)
        fun _ => Call.noConfusion)
  | release tx q => exact absurd rfl (unreleased tx q)
  | complete tx ending => exact hs.complete tx ending

theorem Tidy.enter {o : Occasion} (hs : s.Tidy) (plain : o.catalog.Plain)
    (within : s.catalog.Within o.catalog) : (o.enter s).Tidy where
  plain := plain
  locks := hs.locks
  cache := hs.cache
  sound := hs.sound
  reverts := hs.reverts
  registered q p hp := by
    obtain ⟨e, he⟩ := hs.registered q p hp
    exact within q.table e he
  addressable := hs.addressable
  owned := hs.owned

theorem tidy_of_new {config : Config} {o : Occasion} (new : Pool.new? config = some s.pool)
    (plain : o.catalog.Plain) : (o.enter s).Tidy := by
  obtain ⟨locks, cache, _⟩ := Pool.eq_of_new? new
  have absent {q : PageId} {p : HeapPage} : (o.enter s).cached q ≠ some p := by
    rw [show (o.enter s).cached q = none from cached_of_new new q]
    exact nofun
  constructor
  case plain => exact plain
  case locks =>
    show s.pool.locks.Consistent
    rw [locks]
    exact LockTable.consistent_default
  case cache => exact cache
  case sound => exact fun q p hp => absurd hp absent
  case reverts => exact fun q p hp => absurd hp absent
  case registered => exact fun q p hp => absurd hp absent
  case addressable => exact fun q p hp => absurd hp absent
  case owned => exact fun q p u hp => absurd hp absent

/-- Locks are had by calls, and kept by those who go on. -/
theorem Accounts.running {c : Call} {r : Except Error Answer} {past : List Call}
    (h : Accounts c s r s') (running : ∀ tx q, s.mode? tx q ≠ none → Running tx past) :
    ∀ tx q, s'.mode? tx q ≠ none → Running tx (past ++ [c]) := by
  intro tx q held
  by_cases own : c.tx? = some tx
  · exact running_of_call past own fun ending same => held (h.gone tx ending same q)
  · rw [h.others tx own] at held
    refine (running tx q held).append fun ending same => own ?_
    rw [same]
    rfl

theorem serve_append (before after : List Occasion) (s : Store) :
    serve (before ++ after) s =
      ((serve before s).1 ++ (serve after (serve before s).2).1,
        (serve after (serve before s).2).2) := by
  induction before generalizing s with
  | nil => rfl
  | cons o before ih => simp only [List.cons_append, serve, ih]

/-- What calls leave is tidy for those that come later, and only running transactions hold locks. -/
theorem Lawful.keeps {occasions later : List Occasion} {past : List Call}
    (lawful : Lawful (occasions ++ later)) (ready : ∀ o ∈ occasions ++ later, (o.enter s).Tidy)
    (running : ∀ tx q, s.mode? tx q ≠ none → Running tx past)
    (written : ∀ e ∈ (serve occasions s).1, ¬ e.WriteFailed) :
    (∀ o ∈ later, (o.enter (serve occasions s).2).Tidy) ∧
      ∀ tx q, (serve occasions s).2.mode? tx q ≠ none →
        Running tx (past ++ occasions.map (·.call)) := by
  induction occasions generalizing s past with
  | nil => exact ⟨ready, by rwa [List.map_nil, List.append_nil]⟩
  | cons o occasions ih =>
      obtain ⟨before, stay⟩ := List.pairwise_cons.mp lawful.stay
      have accounts := ((ready o (List.mem_cons_self ..)).perform o.call
        (lawful.unreleased o (List.mem_cons_self ..))).resolve_left
          (written _ (List.mem_cons_self ..))
      have next (o' : Occasion) (h : o' ∈ occasions ++ later) :
          (o'.enter (o.perform s).2).Tidy := by
        apply accounts.tidy.enter (lawful.plain o' (List.mem_cons_of_mem _ h))
        rw [accounts.catalog]
        exact before o' h
      have rest := ih
        ⟨fun o h => lawful.plain o (List.mem_cons_of_mem _ h), stay,
          fun o h => lawful.unreleased o (List.mem_cons_of_mem _ h)⟩
        next (accounts.running running) (fun e h => written e (List.mem_cons_of_mem _ h))
      rwa [List.append_assoc] at rest

/-- Whose changes are in a pool after some calls, and what there is room for. -/
structure Accounted (occasions : List Occasion) (s : Store) : Prop where
  owned : ∀ q p u, s.cached q = some p → p.dirtiedBy = some u →
    s.mode? u q = some .exclusive ∧ Running u (occasions.map (·.call))
  unowned : ∀ before o tx, occasions = before ++ [o] →
    (o.call = .flushTx tx ∨ ∃ ending, o.call = .complete tx ending) →
      ∀ q p, s.cached q = some p → p.dirtiedBy ≠ some tx
  room : (∀ tx q, s.mode? tx q = none) → s.Clean ∧
    ∀ o, Lawful (occasions ++ [o]) → (o.perform s).1 ≠ .error .evictionImpossible

/-- A run begins with nobody holding a lock. -/
theorem Lawful.begins {config : Config} {occasions later : List Occasion}
    (lawful : Lawful (occasions ++ later)) (new : Pool.new? config = some s.pool)
    (written : ∀ e ∈ (serve occasions s).1, ¬ e.WriteFailed) :
    (∀ o ∈ later, (o.enter (serve occasions s).2).Tidy) ∧
      ∀ tx q, (serve occasions s).2.mode? tx q ≠ none → Running tx (occasions.map (·.call)) := by
  have nobody (tx : TxId) (q : PageId) (held : s.mode? tx q ≠ none) : Running tx [] :=
    absurd (mode?_of_new new tx q) held
  exact lawful.keeps (fun o h => tidy_of_new new (lawful.plain o h)) nobody written

/-- What the last call of a run comes to. -/
theorem Lawful.last {config : Config} {before : List Occasion} {o : Occasion}
    (lawful : Lawful (before ++ [o])) (new : Pool.new? config = some s.pool)
    (written : ∀ e ∈ (serve before s).1, ¬ e.WriteFailed) :
    Event.WriteFailed ⟨o.call, (o.perform (serve before s).2).1⟩ ∨
      Accounts o.call (o.enter (serve before s).2) (o.perform (serve before s).2).1
        (o.perform (serve before s).2).2 := by
  have tidy := (lawful.begins new written).1 o (List.mem_singleton_self o)
  exact tidy.perform o.call (lawful.unreleased o (by simp))

/-- A page that is dirty belongs to a running transaction that holds it exclusively; so none is
left dirty by a transaction that has been flushed or has ended, and when there are no locks every
page is clean and the next call finds room. -/
theorem dirty_pages_owned {config : Config} {occasions : List Occasion}
    (new : Pool.new? config = some s.pool) (lawful : Lawful occasions)
    (written : ∀ e ∈ (serve occasions s).1, ¬ e.WriteFailed) :
    Accounted occasions (serve occasions s).2 := by
  have last {before : List Occasion} {o : Occasion} (split : occasions = before ++ [o]) :
      (serve occasions s).2 = (o.perform (serve before s).2).2 ∧
        Accounts o.call (o.enter (serve before s).2) (o.perform (serve before s).2).1
          (o.perform (serve before s).2).2 := by
    subst split
    rw [serve_append] at written ⊢
    have settled := lawful.last new fun e he => written e (List.mem_append_left _ he)
    refine ⟨rfl, settled.resolve_left ?_⟩
    exact written _ (List.mem_append_right _ (List.mem_cons_self ..))
  have owned : (serve occasions s).2.Owned := by
    rcases List.eq_nil_or_concat occasions with rfl | ⟨before, o, split⟩
    · intro q p u hp
      rw [show (serve [] s).2.cached q = none from cached_of_new new q] at hp
      cases hp
    · obtain ⟨same, accounts⟩ := last (split.trans List.concat_eq_append)
      exact same ▸ accounts.tidy.owned
  have all : Lawful (occasions ++ []) := by rwa [List.append_nil]
  have running := (all.begins new written).2
  constructor
  case owned =>
    intro q p u hp hu
    have locked := owned q p u hp hu
    refine ⟨locked, running u q ?_⟩
    rw [locked]
    exact nofun
  case unowned =>
    intro before o tx split call
    obtain ⟨same, accounts⟩ := last split
    exact same ▸ accounts.unowned tx call
  case room =>
    intro free
    have clean : (serve occasions s).2.Clean := by
      intro q p hp
      cases hu : p.dirtiedBy with
      | none => rfl
      | some u =>
          have locked := owned q p u hp hu
          rw [free] at locked
          cases locked
    refine ⟨clean, fun o lawful full => ?_⟩
    rcases lawful.last new written with failed | accounts
    · obtain ⟨cause, io⟩ := failed.io
      cases full.symm.trans io
    · exact accounts.room clean full

/-- A row is stored and flushed, another one is stored while no file can be read, and somebody else
asks for the page in vain. -/
def sampleOccasions : List Occasion :=
  let on (call : Call) : Occasion := { call, catalog := Catalog.add {} sampleEntry }
  [on sampleInsert, on (.flushTx ⟨1⟩),
    { on sampleInsert with withholds := fun _ _ => true },
    on (.get ⟨2⟩ samplePage .readOnly)]

theorem stored_row_is_owned :
    (serve sampleOccasions (sample [] 1 (by decide))).2.mode? ⟨1⟩ samplePage = some .exclusive ∧
      Running ⟨1⟩ (sampleOccasions.map (·.call)) := by
  have opened : Opened (sampleConfig 1) (sample [] 1 (by decide)) :=
    opened_sample (by decide) (by decide)
  have lawful : Lawful sampleOccasions := by
    constructor
    · have plain : (Catalog.add {} sampleEntry).Plain := opened.plain
      simpa [sampleOccasions] using plain
    · have same : (Catalog.add {} sampleEntry).Within (Catalog.add {} sampleEntry) := .refl _
      simpa [sampleOccasions] using same
    · simp [sampleOccasions, sampleInsert]
  have written : ∀ e ∈ (serve sampleOccasions (sample [] 1 (by decide))).1, ¬ e.WriteFailed := by
    intro e he failed
    obtain ⟨cause, io⟩ := failed.io
    have fine : ∀ e ∈ (serve sampleOccasions (sample [] 1 (by decide))).1, ¬ e.IoFailed := by
      decide +kernel
    apply fine e he
    rw [Event.IoFailed, io]
    trivial
  obtain ⟨owned, _, _⟩ := dirty_pages_owned opened.pool lawful written
  have dirty : ((serve sampleOccasions (sample [] 1 (by decide))).2.cached samplePage).bind
      HeapPage.dirtiedBy = some ⟨1⟩ := by
    decide +kernel
  obtain ⟨p, hp, hu⟩ := Option.bind_eq_some_iff.mp dirty
  exact owned samplePage p ⟨1⟩ hp hu

end Store
end HeapStore
