import HeapStore.Proofs.Store.Alike
import HeapStore.Proofs.Store.Opened
import Mathlib.Data.List.Forall2

/-!
The cache cannot be noticed: pools of different capacities, over the same files, answer the same
calls in the same way, as long as there is room for every page that is asked for.
-/

namespace HeapStore

/-- Answers that say the same. A page is what it shows, as bytes, and who has changed it. -/
inductive Answer.Same : Answer → Answer → Prop
  | page {p₁ p₂ : HeapPage} (id : p₁.id = p₂.id) (image : p₁.image = p₂.image)
      (owner : p₁.dirtiedBy = p₂.dirtiedBy) : Same (.page p₁) (.page p₂)
  | row (t : Tuple) : Same (.row t) (.row t)
  | done : Same .done .done

inductive Event.Same : Event → Event → Prop
  | failed (c : Call) (e : Error) : Same ⟨c, .error e⟩ ⟨c, .error e⟩
  | answered (c : Call) {a₁ a₂ : Answer} (same : a₁.Same a₂) : Same ⟨c, .ok a₁⟩ ⟨c, .ok a₂⟩

/-- The call has failed for want of room, or for the medium. -/
def Event.IsStrained (e : Event) : Prop :=
  match e.answer with
  | .error cause => cause.IsStrain
  | .ok _ => False

instance : DecidablePred Event.IsStrained
  | ⟨_, .error cause⟩ => inferInstanceAs (Decidable cause.IsStrain)
  | ⟨_, .ok _⟩ => inferInstanceAs (Decidable False)

namespace Store
open Std
variable {catalog : Catalog} {s s' s₁ s₂ t₁ t₂ : Store} {tx : TxId} {q : PageId}
  {p : HeapPage}

/-- A page that `tx` has changed, as it is cached. -/
structure Ready (tx : TxId) (q : PageId) (p : HeapPage) (s : Store) : Prop where
  here : s.cached q = some p
  owner : p.dirtiedBy = some tx

/-- The same place on a page that is ready, in both stores. -/
def SamePlace (tx : TxId) (a₁ : HeapPage × RecordId) (s₁ : Store) (a₂ : HeapPage × RecordId)
    (s₂ : Store) : Prop :=
  a₁.2 = a₂.2 ∧ Ready tx a₁.2.page a₁.1 s₁ ∧ Ready tx a₂.2.page a₂.1 s₂

theorem Edits.ready {s₁ s' : Store} {rid : RecordId} {row : Option Row} {p p' : HeapPage}
    (h : Edits tx s s₁ s' rid row p p') : Ready tx rid.page p' s' where
  here := h.cached_self
  owner := h.owner

theorem agree_letGo (h : Alike catalog s₁ s₂) {a : Access} {p₁ p₂ : HeapPage}
    (ht : Alike catalog t₁ t₂) (serves₁ : Serves tx q a s₁ p₁ t₁)
    (serves₂ : Serves tx q a s₂ p₂ t₂) :
    Alike catalog (letGo (s₁.pool.locks.holds tx q) tx q t₁).2
      (letGo (s₂.pool.locks.holds tx q) tx q t₂).2 := by
  apply h.of_calm (serves₁.calm.letGo q) (serves₂.calm.letGo q)
  · rw [letGo_apply, letGo_apply, h.locks]
    split
    · exact ht.locks
    · simp only [ht.locks]
  · intro q'
    have same (held : Bool) (t : Store) : (letGo held tx q t).2.stored q' = t.stored q' := by
      cases held <;> rfl
    rw [same, same, ht.stored]

theorem agree_tryPages (h : Alike catalog s₁ s₂) (f : HeapFile) (tx : TxId) (t : Tuple)
    (numbers : List Nat) :
    Agree catalog (fun o₁ t₁ o₂ t₂ => Option.Rel (fun a₁ a₂ => SamePlace tx a₁ t₁ a₂ t₂) o₁ o₂)
      (tryPages f tx t numbers s₁) (tryPages f tx t numbers s₂) := by
  induction numbers generalizing s₁ s₂ with
  | nil => exact .done h .none
  | cons n numbers ih =>
      simp only [tryPages]
      rw [bind_apply, bind_apply, get_apply, get_apply]
      apply (agree_fetch h tx ⟨f.table, n⟩ .readWrite).bind
      rintro p₁ t₁ p₂ t₂ ht ⟨serves₁, serves₂⟩
      have twins := ht.twins serves₁.here serves₂.here
      have slots : p₁.emptySlots = p₂.emptySlots := by
        rw [HeapPage.emptySlots_eq, HeapPage.emptySlots_eq, twins.content]
      simp only [slots]
      split
      next =>
        have rest := ih (agree_letGo h ht serves₁ serves₂)
        simpa only [bind_apply, letGo_apply] using rest
      next =>
        have same := HeapPage.insert_congr twins.id twins.schema twins.content t
        apply (agree_of_map ht same).bind
        rintro ⟨p₁', rid⟩ _ ⟨p₂', rid'⟩ _ _ ⟨⟨hi₁, rfl⟩, ⟨hi₂, rfl⟩, heq⟩
        obtain rfl : rid = rid' := heq
        have edits₁ := (edits_of_insert ht.sound.1.intact (.refl ht.sound.1.intact tx) serves₁.here
          (serves₁.locked rfl) hi₁).2
        have edits₂ := (edits_of_insert ht.sound.2.intact (.refl ht.sound.2.intact tx) serves₂.here
          (serves₂.locked rfl) hi₂).2
        exact .done (ht.of_edits edits₁ edits₂) (.some ⟨rfl, edits₁.ready, edits₂.ready⟩)

theorem agree_append (h : Alike catalog s₁ s₂) {table : TableId} {e : Entry}
    (he : catalog.find table = .ok e) :
    Agree catalog (fun _ _ _ _ => True) (append e.file s₁) (append e.file s₂) := by
  have he₁ : s₁.catalog.find table = .ok e := h.catalog.1 ▸ he
  have he₂ : s₂.catalog.find table = .ok e := h.catalog.2 ▸ he
  rcases append_cases h.sound.1.intact he₁ ⟨0⟩ with ⟨cause, ha₁⟩ | ⟨t₁, ha₁, calm₁, pool₁, grown₁⟩
  · exact .strained (.io cause) trivial (.inl (by rw [ha₁]))
  rcases append_cases h.sound.2.intact he₂ ⟨0⟩ with ⟨cause, ha₂⟩ | ⟨t₂, ha₂, calm₂, pool₂, grown₂⟩
  · exact .strained (.io cause) trivial (.inr (by rw [ha₂]))
  rw [ha₁, ha₂]
  refine .done (h.of_calm calm₁ calm₂ ?_ ?_) trivial
  · rw [pool₁, pool₂, h.locks]
  · intro q
    have old := h.stored q
    simp only [stored] at old ⊢
    rw [grown₁, grown₂, h.numPages he]
    split
    · rfl
    · exact old

theorem agree_search (h : Alike catalog s₁ s₂) {table : TableId} {e : Entry}
    (he : catalog.find table = .ok e) (tx : TxId) (t : Tuple) (passes first : Nat) :
    Agree catalog (SamePlace tx) (search e.file tx t passes first s₁)
      (search e.file tx t passes first s₂) := by
  induction passes generalizing s₁ s₂ first with
  | zero => exact .failed _ h
  | succ passes ih =>
      simp only [search]
      rw [bind_apply, bind_apply, get_apply, get_apply]
      simp only [h.numPages he]
      apply (agree_tryPages h e.file tx t _).bind
      intro o₁ t₁ o₂ t₂ ht same
      cases same with
      | some place => exact .done ht place
      | none =>
          apply (agree_append ht he).bind
          intro _ u₁ _ u₂ hu _
          exact ih hu _

theorem agree_insertInto (h : Alike catalog s₁ s₂) {table : TableId} {e : Entry}
    (he : catalog.find table = .ok e) (tx : TxId) (t : Tuple) :
    Agree catalog (SamePlace tx) (insertInto e.file tx t s₁) (insertInto e.file tx t s₂) := by
  apply (agree_ensure h _ _).bind
  intro _ t₁ _ t₂ ht _
  exact agree_search ht he tx t _ _

theorem agree_recached (h : Alike catalog s₁ s₂) {p₁ p₂ : HeapPage} (ready₁ : Ready tx q p₁ s₁)
    (ready₂ : Ready tx q p₂ s₂) (table : TableId) :
    Agree catalog (fun _ _ _ _ => True)
      ((do afterMutate table; readmit tx p₁ : StoreM Unit) s₁)
      ((do afterMutate table; readmit tx p₂ : StoreM Unit) s₂) := by
  have recached {s : Store} {p : HeapPage} (hs : s.Sound) (ready : Ready tx q p s) :
      ∃ s', (do afterMutate table; readmit tx p : StoreM Unit) s = (.ok (), s') ∧
        Calm tx s s' ∧ s'.pool.locks = s.pool.locks ∧ ∀ q, s'.stored q = s.stored q := by
    obtain ⟨s', hr, puts⟩ :=
      (Puts.refl hs.intact ready.here).recached hs.plain (id_of_cached hs.cache ready.here)
        ready.owner table
    refine ⟨s', hr, puts.calm hs.intact ready.here tx, puts.locks, ?_⟩
    intro q
    simp only [stored, onFile, puts.catalog, puts.disk]
  obtain ⟨t₁, hr₁, calm₁, locks₁, stored₁⟩ := recached h.sound.1 ready₁
  obtain ⟨t₂, hr₂, calm₂, locks₂, stored₂⟩ := recached h.sound.2 ready₂
  rw [hr₁, hr₂]
  refine .done (h.of_calm calm₁ calm₂ ?_ ?_) trivial
  · rw [locks₁, locks₂, h.locks]
  · intro q
    rw [stored₁, stored₂, h.stored]

/-- Deleting on the page at hand. -/
theorem agree_deleteFrom (h : Alike catalog s₁ s₂) (f : HeapFile) (tx : TxId) (loc : RecordId) :
    Agree catalog (fun p₁ t₁ p₂ t₂ => Ready tx loc.page p₁ t₁ ∧ Ready tx loc.page p₂ t₂)
      (deleteFrom f tx (some loc) s₁) (deleteFrom f tx (some loc) s₂) := by
  apply (agree_ensure h _ _).bind
  intro _ s₁ _ s₂ h _
  apply (agree_fetch h tx loc.page .readWrite).bind
  rintro p₁ t₁ p₂ t₂ ht ⟨serves₁, serves₂⟩
  have twins := ht.twins serves₁.here serves₂.here
  have same := HeapPage.erase_congr twins.id twins.content (some loc)
  apply (agree_of_map ht same).bind
  rintro p₁' _ p₂' _ _ ⟨⟨he₁, rfl⟩, ⟨he₂, rfl⟩, _⟩
  have edits₁ := edits_of_erase ht.sound.1.intact (.refl ht.sound.1.intact tx) serves₁.here
    (serves₁.locked rfl) he₁
  have edits₂ := edits_of_erase ht.sound.2.intact (.refl ht.sound.2.intact tx) serves₂.here
    (serves₂.locked rfl) he₂
  exact .done (ht.of_edits edits₁ edits₂) ⟨edits₁.ready, edits₂.ready⟩

theorem agree_delete (h : Alike catalog s₁ s₂) (tx : TxId) (rid : Option RecordId) :
    Agree catalog (fun _ _ _ _ => True) (delete tx rid s₁) (delete tx rid s₂) := by
  cases rid with
  | none => exact .failed _ h
  | some loc =>
      apply (agree_lookup h loc.page.table).bind
      rintro e s₁ _ s₂ h ⟨rfl, _⟩
      apply (agree_deleteFrom h e.file tx loc).bind
      rintro p₁ t₁ p₂ t₂ ht ⟨ready₁, ready₂⟩
      exact agree_recached ht ready₁ ready₂ _

theorem agree_complete (h : Alike catalog s₁ s₂) (tx : TxId) (ending : Ending) :
    Agree catalog (fun _ _ _ _ => True) (complete tx ending s₁) (complete tx ending s₂) := by
  rcases complete_cases h.sound.1 tx ending with ⟨cause, t₁, hc₁⟩ | ⟨t₁, hc₁, done₁⟩
  · exact .strained (.io cause) trivial (.inl (by rw [hc₁]))
  rcases complete_cases h.sound.2 tx ending with ⟨cause, t₂, hc₂⟩ | ⟨t₂, hc₂, done₂⟩
  · exact .strained (.io cause) trivial (.inr (by rw [hc₂]))
  rw [hc₁, hc₂]
  exact .done (h.of_completes done₁ done₂) trivial

theorem perform_insert (tx : TxId) (table : TableId) (t : Tuple) (s : Store) :
    (Call.insert tx table t).perform s =
      (do
        let placed ← (do insertInto (← lookup table).file tx t : StoreM (HeapPage × RecordId))
        (do afterMutate table; readmit tx placed.1 : StoreM Unit)
        return .row (t.located (some placed.2)) : StoreM Answer) s := by
  rw [bind_apply]
  simp only [Call.perform, insert_apply]
  generalize (do insertInto (← lookup table).file tx t : StoreM (HeapPage × RecordId)) s = o
  obtain ⟨_ | ⟨p, rid⟩, s'⟩ := o
  · rfl
  · simp only
    generalize (do afterMutate table; readmit tx p : StoreM Unit) = rest
    rw [bind_apply]
    generalize rest s' = o'
    obtain ⟨_ | _, s''⟩ := o'
    · rfl
    · rfl

theorem agree_perform (h : Alike catalog s₁ s₂) {c : Call} (hc : c.IsTransactional) :
    Agree catalog (fun a₁ _ a₂ _ => a₁.Same a₂) (c.perform s₁) (c.perform s₂) := by
  cases c with
  | get tx q a =>
      simp only [Call.perform, map_eq_pure_bind]
      apply (agree_fetch h tx q a).bind
      rintro p₁ t₁ p₂ t₂ ht ⟨serves₁, serves₂⟩
      have twins := ht.twins serves₁.here serves₂.here
      have image : p₁.image = p₂.image :=
        (ht.sound.1.pages q p₁ serves₁.here).sound.image_congr
          (ht.sound.2.pages q p₂ serves₂.here).sound twins.schema twins.content
      exact .done ht (.page twins.id image twins.owner)
  | insert tx table t =>
      rw [perform_insert, perform_insert]
      have placed : Agree catalog (SamePlace tx)
          ((do insertInto (← lookup table).file tx t : StoreM (HeapPage × RecordId)) s₁)
          ((do insertInto (← lookup table).file tx t : StoreM (HeapPage × RecordId)) s₂) := by
        apply (agree_lookup h table).bind
        rintro e s₁ _ s₂ h ⟨rfl, he⟩
        exact agree_insertInto h he tx t
      apply placed.bind
      rintro ⟨p₁, rid⟩ t₁ ⟨p₂, rid'⟩ t₂ ht ⟨heq, ready₁, ready₂⟩
      obtain rfl : rid = rid' := heq
      apply (agree_recached ht ready₁ ready₂ table).bind
      intro _ u₁ _ u₂ hu _
      exact .done hu (.row _)
  | delete tx rid =>
      simp only [Call.perform, map_eq_pure_bind]
      apply (agree_delete h tx rid).bind
      intro _ t₁ _ t₂ ht _
      exact .done ht .done
  | complete tx ending =>
      simp only [Call.perform, map_eq_pure_bind]
      apply (agree_complete h tx ending).bind
      intro _ t₁ _ t₂ ht _
      exact .done ht .done
  | flushPage q => exact hc.elim
  | flushAll => exact hc.elim
  | flushTx tx => exact hc.elim
  | discard q => exact hc.elim
  | release tx q => exact hc.elim

/-- A call that is not strained in either store has the same answer in both and keeps them alike. -/
theorem same_of_perform (h : Alike catalog s₁ s₂) {c : Call} (hc : c.IsTransactional)
    (room₁ : ¬ Event.IsStrained ⟨c, (c.perform s₁).1⟩)
    (room₂ : ¬ Event.IsStrained ⟨c, (c.perform s₂).1⟩) :
    Event.Same ⟨c, (c.perform s₁).1⟩ ⟨c, (c.perform s₂).1⟩ ∧
      Alike catalog (c.perform s₁).2 (c.perform s₂).2 := by
  have agree := agree_perform h hc
  generalize c.perform s₁ = o₁ at agree room₁ ⊢
  generalize c.perform s₂ = o₂ at agree room₂ ⊢
  cases agree with
  | strained e strain h =>
      simp only [Event.IsStrained] at room₁ room₂
      rcases h with h | h
      · rw [h] at room₁
        exact absurd strain room₁
      · rw [h] at room₂
        exact absurd strain room₂
  | failed e alike => exact ⟨.failed c e, alike⟩
  | done alike same => exact ⟨.answered c same, alike⟩

theorem run_same (h : Alike catalog s₁ s₂) {calls : List Call}
    (hc : ∀ c ∈ calls, c.IsTransactional)
    (room₁ : ∀ e ∈ (run calls s₁).1, ¬ e.IsStrained)
    (room₂ : ∀ e ∈ (run calls s₂).1, ¬ e.IsStrained) :
    List.Forall₂ Event.Same (run calls s₁).1 (run calls s₂).1 ∧
      Alike catalog (run calls s₁).2 (run calls s₂).2 := by
  induction calls generalizing s₁ s₂ with
  | nil => exact ⟨.nil, h⟩
  | cons c calls ih =>
      rw [run_cons] at room₁ room₂
      rw [run_cons, run_cons]
      obtain ⟨same, alike⟩ := same_of_perform h (hc c (List.mem_cons_self ..))
        (room₁ _ (List.mem_cons_self ..)) (room₂ _ (List.mem_cons_self ..))
      obtain ⟨rest, final⟩ := ih alike (fun c hc₁ => hc c (List.mem_cons_of_mem _ hc₁))
        (fun e he => room₁ e (List.mem_cons_of_mem _ he))
        (fun e he => room₂ e (List.mem_cons_of_mem _ he))
      exact ⟨.cons same rest, final⟩

/-- Nothing is in the cache of a new pool, and nobody holds a lock. -/
theorem Opened.alike {config₁ config₂ : Config} (h₁ : Opened config₁ s₁) (h₂ : Opened config₂ s₂)
    (hcat : s₁.catalog = s₂.catalog) (hdisk : s₁.disk = s₂.disk) : Alike s₁.catalog s₁ s₂ where
  sound := ⟨h₁.sound, h₂.sound⟩
  settled := ⟨h₁.settled, h₂.settled⟩
  catalog := ⟨rfl, hcat.symm⟩
  locks := by rw [(Pool.eq_of_new? h₁.pool).1, (Pool.eq_of_new? h₂.pool).1]
  stored q := by simp only [stored, onFile, hcat, hdisk]
  draft q := by rw [h₁.draft, h₂.draft]

/-- Two pools over the same files answer every call alike, whatever their capacities are, and in the
end the same locks are held and the files have the same number of pages. -/
theorem capacity_unnoticed {config₁ config₂ : Config} (h₁ : Opened config₁ s₁)
    (h₂ : Opened config₂ s₂) (hcat : s₁.catalog = s₂.catalog) (hdisk : s₁.disk = s₂.disk)
    {calls : List Call} (hc : ∀ c ∈ calls, c.IsTransactional)
    (room₁ : ∀ e ∈ (run calls s₁).1, ¬ e.IsStrained)
    (room₂ : ∀ e ∈ (run calls s₂).1, ¬ e.IsStrained) :
    List.Forall₂ Event.Same (run calls s₁).1 (run calls s₂).1 ∧
      (∀ tx q, (run calls s₁).2.mode? tx q = (run calls s₂).2.mode? tx q) ∧
      ∀ table e, s₁.catalog.find table = .ok e →
        e.file.numPages (run calls s₁).2.disk = e.file.numPages (run calls s₂).2.disk := by
  obtain ⟨same, alike⟩ := run_same (h₁.alike h₂ hcat hdisk) hc room₁ room₂
  exact ⟨same, alike.mode?, fun _ _ he => alike.numPages he⟩

def twoPages : List UInt8 :=
  Bytes.zeros (2 * pageSize)

/-- Going to and fro between the pages, with a row that is given up and a lock that is waited for in
vain. -/
def alternatingCalls : List Call :=
  [.get ⟨1⟩ ⟨.file 0, 0⟩ .readOnly, .get ⟨1⟩ ⟨.file 0, 1⟩ .readOnly,
    .insert ⟨1⟩ (.file 0) (sampleRow "open"), .insert ⟨2⟩ (.file 0) (sampleRow "late"),
    .complete ⟨1⟩ .abort, .get ⟨2⟩ ⟨.file 0, 1⟩ .readOnly, .get ⟨2⟩ ⟨.file 0, 0⟩ .readOnly]

theorem small_pool_unnoticed :
    List.Forall₂ Event.Same (run alternatingCalls (sample twoPages 1 (by decide))).1
      (run alternatingCalls (sample twoPages 2 (by decide))).1 := by
  have opened₁ : Opened (sampleConfig 1) (sample twoPages 1 (by decide)) :=
    opened_sample (by decide) (by decide)
  have opened₂ : Opened (sampleConfig 2) (sample twoPages 2 (by decide)) :=
    opened_sample (by decide) (by decide)
  have room₁ : ∀ e ∈ (run alternatingCalls (sample twoPages 1 (by decide))).1, ¬ e.IsStrained := by
    decide +kernel
  have room₂ : ∀ e ∈ (run alternatingCalls (sample twoPages 2 (by decide))).1, ¬ e.IsStrained := by
    decide +kernel
  have transactional : ∀ c ∈ alternatingCalls, c.IsTransactional := by
    simp [alternatingCalls, Call.IsTransactional]
  exact (capacity_unnoticed opened₁ opened₂ rfl rfl transactional room₁ room₂).1

end Store
end HeapStore
