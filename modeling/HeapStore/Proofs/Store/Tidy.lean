import HeapStore.Proofs.Store.Rows

/-!
A pool that is tidy, whatever the files have to say: every cached page is sound and of a registered
table, and whoever has changed a page has it locked. To look at pages keeps a pool tidy, and so does
to change one, though reads may fail at any time.
-/

namespace HeapStore.Store
open Std
variable {α : Type} {s s' s₀ s₁ : Store} {tx u : TxId} {q : PageId} {p p' : HeapPage} {m : LockMode}
  {a : Access} {f : HeapFile} {t : Tuple} {n k : Nat} {rs : List PageRequest}

structure Tidy (s : Store) : Prop where
  plain : s.catalog.Plain
  locks : s.pool.locks.Consistent
  cache : s.pool.cache.Consistent
  sound : ∀ q p, s.cached q = some p → p.Sound
  reverts : ∀ q p, s.cached q = some p → ∃ c, p.Reverts c
  registered : ∀ q p, s.cached q = some p → ∃ e, s.catalog.find q.table = .ok e
  addressable : ∀ q p, s.cached q = some p → q.Addressable
  owned : s.Owned

/-- Nothing is said of the files. -/
theorem Tidy.of_pool (hs : s.Tidy) (catalog : s'.catalog = s.catalog) (pool : s'.pool = s.pool) :
    s'.Tidy := by
  have cached (q : PageId) : s'.cached q = s.cached q := by simp only [Store.cached, pool]
  constructor
  case plain => exact catalog ▸ hs.plain
  case locks => exact pool ▸ hs.locks
  case cache => exact pool ▸ hs.cache
  case sound => exact fun q p hp => hs.sound q p (cached q ▸ hp)
  case reverts => exact fun q p hp => hs.reverts q p (cached q ▸ hp)
  case registered => exact fun q p hp => catalog ▸ hs.registered q p (cached q ▸ hp)
  case addressable => exact fun q p hp => hs.addressable q p (cached q ▸ hp)
  case owned =>
    intro q p u hp hu
    rw [Store.mode?, pool]
    exact hs.owned q p u (cached q ▸ hp) hu

/-- A page in the place of another is as good, if who has changed it may write to it. -/
theorem Tidy.puts (hs : s.Tidy) (here : s.cached q = some p) (h : Puts q p' s s') (sound : p'.Sound)
    (reverts : ∃ c, p'.Reverts c)
    (owner : ∀ u, p'.dirtiedBy = some u → s.mode? u q = some .exclusive) : s'.Tidy := by
  have old {q' : PageId} {r : HeapPage} (hr : s'.cached q' = some r) :
      q' = q ∧ r = p' ∨ s.cached q' = some r := by
    rw [h.cached] at hr
    split at hr
    next hq => exact .inl ⟨hq, (Option.some.inj hr).symm⟩
    next => exact .inr hr
  constructor
  case plain => exact h.catalog ▸ hs.plain
  case locks => exact h.locks ▸ hs.locks
  case cache => exact h.cache
  case sound =>
    intro q' r hr
    obtain ⟨_, rfl⟩ | hr := old hr
    · exact sound
    · exact hs.sound q' r hr
  case reverts =>
    intro q' r hr
    obtain ⟨_, rfl⟩ | hr := old hr
    · exact reverts
    · exact hs.reverts q' r hr
  case registered =>
    intro q' r hr
    rw [h.catalog]
    obtain ⟨rfl, _⟩ | hr := old hr
    · exact hs.registered q' p here
    · exact hs.registered q' r hr
  case addressable =>
    intro q' r hr
    obtain ⟨rfl, _⟩ | hr := old hr
    · exact hs.addressable q' p here
    · exact hs.addressable q' r hr
  case owned =>
    intro q' r u hr hu
    rw [Store.mode?, h.locks]
    obtain ⟨rfl, rfl⟩ | hr := old hr
    · exact owner u hu
    · exact hs.owned q' r u hr hu

/-- What `tx` has left behind that has looked around: nothing has become dirty, and the locks of
others are what they were. -/
structure Looked (tx : TxId) (s s' : Store) : Prop where
  tidy : s'.Tidy
  catalog : s'.catalog = s.catalog
  dirty : ∀ q p u, s'.cached q = some p → p.dirtiedBy = some u → s.cached q = some p
  others : ∀ u, u ≠ tx → ∀ q, s'.mode? u q = s.mode? u q

theorem Looked.refl (hs : s.Tidy) (tx : TxId) : Looked tx s s :=
  ⟨hs, rfl, fun _ _ _ hp _ => hp, fun _ _ _ => rfl⟩

theorem Looked.trans (h₀ : Looked tx s s₀) (h : Looked tx s₀ s') : Looked tx s s' where
  tidy := h.tidy
  catalog := h.catalog.trans h₀.catalog
  dirty q p u hp hu := h₀.dirty q p u (h.dirty q p u hp hu) hu
  others u hu q := (h.others u hu q).trans (h₀.others u hu q)

theorem Fetched.looked {r : Except Error HeapPage} (hs : s.Tidy) (h : Fetched tx q a s r s') :
    Looked tx s s' := by
  rcases h.granted_or_same with ⟨_, rfl⟩ | granted
  · exact .refl hs tx
  · have old {q' : PageId} {r : HeapPage} (hr : s'.cached q' = some r) :
        s.cached q' = some r ∨
          AsRead q' r ∧ q'.Addressable ∧ ∃ e, s.catalog.find q'.table = .ok e :=
      (h.cached_or_read hr).imp id fun read =>
        ⟨asRead_of_onFile read, addressable_of_onFile read, find_of_onFile read⟩
    have dirty {q' : PageId} {r : HeapPage} {u : TxId} (hr : s'.cached q' = some r)
        (hu : r.dirtiedBy = some u) : s.cached q' = some r := by
      rcases old hr with hr | ⟨read, _⟩
      · exact hr
      · rw [read.clean] at hu
        cases hu
    refine ⟨?_, granted.catalog, fun q' r u hr hu => dirty hr hu, fun u hu q' => ?_⟩
    · constructor
      case plain => exact granted.catalog ▸ hs.plain
      case locks => exact hs.locks.acquire? granted.locks
      case cache => exact granted.cache
      case sound => exact fun q' r hr => (old hr).elim (hs.sound q' r) fun read => read.1.sound
      case reverts =>
        exact fun q' r hr => (old hr).elim (hs.reverts q' r) fun read => ⟨_, read.1.reverts⟩
      case registered =>
        exact fun q' r hr =>
          granted.catalog ▸ (old hr).elim (hs.registered q' r) fun read => read.2.2
      case addressable =>
        exact fun q' r hr => (old hr).elim (hs.addressable q' r) fun read => read.2.1
      case owned =>
        intro q' r u hr hu
        have locked := hs.owned q' r u (dirty hr hu) hu
        rw [granted.mode?]
        split
        next here =>
          obtain ⟨rfl, rfl⟩ := here
          simp [locked]
        next => exact locked
    · rw [granted.mode?, if_neg fun here => hu here.1]

theorem Tidy.fetched (hs : s.Tidy) {r : Except Error HeapPage} (h : fetch tx q a s = (r, s')) :
    Fetched tx q a s r s' := by
  have fetched := fetched_of_plain hs.plain hs.cache tx q a
  rwa [h] at fetched

/-- A page that was not locked has not been changed, so it may be let go of. -/
theorem Looked.letGo (hs : s.Tidy) (h : Looked tx s s₁) (q : PageId) :
    Looked tx s (letGo (s.pool.locks.holds tx q) tx q s₁).2 := by
  rw [letGo_apply]
  cases held : s.pool.locks.holds tx q with
  | true => exact h
  | false =>
      have mode (u : TxId) (q' : PageId) :
          (s₁.pool.locks.release tx q).mode? u q' =
            if u = tx ∧ q' = q then none else s₁.mode? u q' :=
        LockTable.mode?_release _ _ _ _ _
      refine ⟨{ h.tidy with locks := h.tidy.locks.release tx q, owned := ?_ }, h.catalog, h.dirty,
        ?_⟩
      · intro q' r u hr hu
        show (s₁.pool.locks.release tx q).mode? u q' = _
        rw [mode, if_neg]
        · exact h.tidy.owned q' r u hr hu
        · rintro ⟨rfl, rfl⟩
          have locked : s.pool.locks.mode? u q' = some .exclusive :=
            hs.owned q' r u (h.dirty q' r u hr hu) hu
          rw [LockTable.holds, locked] at held
          cases held
      · intro u hu q'
        exact ((mode u q').trans (if_neg fun here => hu here.1)).trans (h.others u hu q')

theorem Tidy.appended (hs : s.Tidy) {r : Except Error Unit} (h : append f s = (r, s'))
    (tx : TxId) : Looked tx s s' := by
  have unchanged (catalog : s'.catalog = s.catalog) (pool : s'.pool = s.pool) : Looked tx s s' := by
    refine ⟨hs.of_pool catalog pool, catalog, fun q p u hp _ => ?_, fun u _ q => ?_⟩
    · simpa only [Store.cached, pool] using hp
    · simp only [Store.mode?, pool]
  cases r with
  | ok _ =>
      have same := (append_ok h).1
      exact unchanged (by rw [same]) (by rw [same])
  | error e =>
      obtain ⟨rfl, _⟩ := append_error h
      exact unchanged rfl rfl

theorem Climbs.looked (hs : s.Tidy) (h : Climbs f tx n s rs k s') : Looked tx s s' := by
  induction h with
  | here _ s => exact .refl hs tx
  | @full n _ s _ _ _ _ _ got _ _ ih =>
      have looked := ((hs.fetched got).looked hs).letGo hs ⟨f.table, n⟩
      exact looked.trans (ih looked.tidy)
  | grown _ grows _ ih =>
      have looked := hs.appended grows tx
      exact looked.trans (ih looked.tidy)

/-- Nobody has changed any page since it was written. -/
def Clean (s : Store) : Prop :=
  ∀ q p, s.cached q = some p → p.dirtiedBy = none

theorem Looked.clean (h : Looked tx s s') (hc : s.Clean) : s'.Clean := by
  intro q p hp
  cases hu : p.dirtiedBy with
  | none => rfl
  | some u => exact hu.symm.trans (hc q p (h.dirty q p u hp hu))

/-- What a call keeps: a pool is tidy afterwards, nobody else has got a lock or lost one, and there
was room for pages if nothing was dirty. -/
structure Behaves (tx? : Option TxId) (s : Store) (r : Except Error α) (s' : Store) : Prop where
  tidy : s'.Tidy
  catalog : s'.catalog = s.catalog
  others : ∀ u, tx? ≠ some u → ∀ q, s'.mode? u q = s.mode? u q
  room : s.Clean → r ≠ .error .evictionImpossible

theorem Behaves.map {β : Type} {tx? : Option TxId} {r : Except Error α}
    (h : Behaves tx? s r s') (g : α → β) : Behaves tx? s (r.map g) s' where
  tidy := h.tidy
  catalog := h.catalog
  others := h.others
  room clean full := by
    cases r with
    | error e =>
        cases full
        exact h.room clean rfl
    | ok a => cases full

theorem Looked.behaves {r : Except Error α} (h : Looked tx s s')
    (room : s.Clean → r ≠ .error .evictionImpossible) : Behaves (some tx) s r s' where
  tidy := h.tidy
  catalog := h.catalog
  others u hu q := h.others u (fun same => hu (congrArg some same.symm)) q
  room := room

theorem Looked.failed {e : Error} (h : Looked tx s s')
    (room : s.Clean → e ≠ .evictionImpossible) :
    Behaves (some tx) s (.error e : Except Error α) s' :=
  h.behaves fun clean full => room clean (Except.error.inj full)

theorem find_ne_evictionImpossible (c : Catalog) (id : TableId) :
    c.find id ≠ .error .evictionImpossible := by
  intro h
  unfold Catalog.find at h
  split at h <;> cases h

/-- A page that cannot be read does not stand in the way of any other. -/
theorem onFile_ne_evictionImpossible (q : PageId) (s : Store) :
    s.onFile q ≠ .error .evictionImpossible := by
  intro h
  cases unread_of_onFile h

theorem Fetched.room {r : Except Error HeapPage} (h : Fetched tx q a s r s') (clean : s.Clean) :
    r ≠ .error .evictionImpossible := by
  rintro rfl
  cases h with
  | unread _ _ unreadable _ => exact onFile_ne_evictionImpossible q s unreadable
  | crowded _ _ dirty _ =>
      obtain ⟨q', p, hp, hd⟩ := dirty
      rw [HeapPage.isDirty, clean q' p hp] at hd
      cases hd

theorem Tidy.get (hs : s.Tidy) (tx : TxId) (q : PageId) (a : Access) :
    Behaves (some tx) s (fetch tx q a s).1 (fetch tx q a s).2 := by
  have fetched := hs.fetched (Prod.eta (fetch tx q a s)).symm
  exact (fetched.looked hs).behaves fetched.room

/-- A page that has been fetched is changed by who has locked it, and cached still. -/
theorem Looked.edited (h : Looked tx s s₀) (got : fetch tx q .readWrite s₀ = (.ok p, s₁))
    (keeps : p.Keeps p') (sound : p'.Sound) (table : TableId) (a : α) :
    ∃ s₂, (do afterMutate table; readmit tx (p'.mark (some tx)) : StoreM Unit)
        (put (p'.mark (some tx)) s₁).2 = (.ok (), s₂) ∧ Behaves (some tx) s (.ok a) s₂ := by
  have fetched := h.tidy.fetched got
  obtain ⟨tidy, catalog, _, others⟩ := h.trans (fetched.looked h.tidy)
  have id : (p'.mark (some tx)).id = q := keeps.id.trans (id_of_cached tidy.cache fetched.here)
  have puts := puts_put tidy.cache fetched.here id
  obtain ⟨s₂, admitted, puts₂⟩ := puts.recached (puts.catalog ▸ tidy.plain) id rfl table
  refine ⟨s₂, admitted, ?_, puts₂.catalog.trans catalog, fun u hu q' => ?_, fun _ => nofun⟩
  · obtain ⟨c, reverts⟩ := tidy.reverts q p fetched.here
    apply tidy.puts fetched.here puts₂ (sound.mark _) ⟨c, keeps.reverts.mpr reverts⟩
    rintro u ⟨⟩
    exact fetched.locked
  · rw [Store.mode?, puts₂.locks]
    exact others u (fun same => hu (congrArg some same.symm)) q'

theorem append_ne_evictionImpossible (f : HeapFile) (s : Store) :
    (append f s).1 ≠ .error .evictionImpossible := by
  intro h
  obtain ⟨_, _, io⟩ := append_error (Prod.ext h rfl)
  cases io

theorem insert_ne_evictionImpossible (p : HeapPage) (t : Tuple) :
    p.insert t ≠ .error .evictionImpossible := by
  intro h
  simp only [HeapPage.insert] at h
  split at h
  · cases h
  · split at h
    · cases h
    · split at h <;> cases h

theorem erase_ne_evictionImpossible (p : HeapPage) (rid : Option RecordId) :
    p.erase rid ≠ .error .evictionImpossible := by
  intro h
  simp only [HeapPage.erase] at h
  split at h
  · cases h
  · split at h <;> cases h

/-- A search that fails has looked around, and one that succeeds has changed the page that it
fetched last. -/
theorem Seeks.cases (hs : s.Tidy) {r : Except Error (HeapPage × RecordId)}
    (h : Seeks f tx t n s rs r s') :
    (∃ e, r = .error e ∧ Looked tx s s' ∧ (s.Clean → e ≠ .evictionImpossible)) ∨
      ∃ s₀ s₁ n p p' rid, r = .ok (p'.mark (some tx), rid) ∧ Looked tx s s₀ ∧
        fetch tx ⟨f.table, n⟩ .readWrite s₀ = (.ok p, s₁) ∧ p.insert t = .ok (p', rid) ∧
        s' = (put (p'.mark (some tx)) s₁).2 := by
  cases h with
  | @unfetched _ s₀ _ _ e climbs _ failed =>
      have looked := climbs.looked hs
      have fetched := looked.tidy.fetched failed
      refine .inl ⟨e, rfl, looked.trans (fetched.looked looked.tidy), fun clean full => ?_⟩
      exact fetched.room (looked.clean clean) (congrArg _ full)
  | @unfit _ s₀ _ _ p e climbs _ got _ unfit =>
      have looked := climbs.looked hs
      have fetched := looked.tidy.fetched got
      refine .inl ⟨e, rfl, looked.trans (fetched.looked looked.tidy), fun _ full => ?_⟩
      exact insert_ne_evictionImpossible p t (full ▸ unfit)
  | @ungrown _ _ _ e climbs failed =>
      refine .inl ⟨e, rfl, climbs.looked hs, fun _ full => ?_⟩
      apply append_ne_evictionImpossible f s'
      rw [failed, full]
  | endless climbs => exact .inl ⟨_, rfl, climbs.looked hs, fun _ => Error.noConfusion⟩
  | placed climbs _ got fit =>
      exact .inr ⟨_, _, _, _, _, _, rfl, climbs.looked hs, got, fit, rfl⟩

theorem Tidy.insert (hs : s.Tidy) (tx : TxId) (table : TableId) (t : Tuple) :
    Behaves (some tx) s ((Call.insert tx table t).perform s).1
      ((Call.insert tx table t).perform s).2 := by
  simp only [Call.perform, insert_apply, bind_apply, lookup_apply]
  cases he : s.catalog.find table with
  | error e =>
      refine (Looked.refl hs tx).failed fun _ full => ?_
      exact find_ne_evictionImpossible _ table (full ▸ he)
  | ok e =>
      simp only
      rcases insertInto_cases e.file tx t s with ⟨_, _, refused⟩ | seeks
      · rw [refused]
        exact (Looked.refl hs tx).failed fun _ => Error.noConfusion
      · generalize insertInto e.file tx t s = outcome at seeks ⊢
        obtain ⟨r, s'⟩ := outcome
        rcases seeks.cases hs with ⟨err, rfl, looked, room⟩ |
          ⟨s₀, s₁, n, p, p', rid, rfl, looked, got, fit, rfl⟩
        · exact looked.failed room
        · have here := (looked.tidy.fetched got).here
          have ins := HeapPage.insert_ok
            (((looked.tidy.fetched got).looked looked.tidy).tidy.sound _ p here) fit
          obtain ⟨s₂, admitted, behaves⟩ := looked.edited got
            ⟨ins.id, ins.schema, ins.beforeImage⟩ ins.sound table ()
          rw [bind_apply] at admitted
          simp only [admitted]
          exact behaves.map _

theorem Tidy.delete (hs : s.Tidy) (tx : TxId) (rid : Option RecordId) :
    Behaves (some tx) s (delete tx rid s).1 (delete tx rid s).2 := by
  cases rid with
  | none => exact (Looked.refl hs tx).failed fun _ => Error.noConfusion
  | some loc =>
      simp only [Store.delete, bind_apply, lookup_apply]
      cases he : s.catalog.find loc.page.table with
      | error e =>
          refine (Looked.refl hs tx).failed fun _ full => ?_
          exact find_ne_evictionImpossible _ _ (full ▸ he)
      | ok e =>
          have table := (hs.plain _ _ (Catalog.find_ok he)).1
          have erases := erases e.file tx loc s
          simp only
          generalize deleteFrom e.file tx (some loc) s = outcome at erases ⊢
          obtain ⟨r, s'⟩ := outcome
          cases erases with
          | elsewhere foreign => exact absurd table.symm foreign
          | unfetched _ had =>
              have fetched := hs.fetched had
              refine (fetched.looked hs).failed fun clean full => ?_
              exact fetched.room clean (congrArg _ full)
          | @vacant p _ _ _ got failed =>
              refine ((hs.fetched got).looked hs).failed fun _ full => ?_
              exact erase_ne_evictionImpossible p (some loc) (full ▸ failed)
          | @erased p p' s₁ _ got done =>
              have fetched := hs.fetched got
              have era := HeapPage.erase_ok ((fetched.looked hs).tidy.sound _ p fetched.here) done
              obtain ⟨s₂, admitted, behaves⟩ := (Looked.refl hs tx).edited got
                ⟨era.id, era.schema, era.beforeImage⟩ era.sound loc.page.table ()
              rw [bind_apply] at admitted
              simp only [put_apply] at admitted ⊢
              simp only [admitted]
              exact behaves

end HeapStore.Store
