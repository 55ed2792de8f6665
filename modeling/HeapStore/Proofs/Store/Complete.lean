import HeapStore.Proofs.Store.Pages

/-!
The end of a transaction: what it comes to for each page, and for the locks. A page that cannot be
written is the last to be seen to, and the locks go all the same.
-/

namespace HeapStore.Store
open Std
variable {T : Tables} {s s' : Store} {tx u : TxId} {q : PageId} {p p' : HeapPage}
  {ending : Ending} {done : List PageId} {halt : Option PageId}

theorem ne_some_of_clean (tx : TxId) (h : p.dirtiedBy = none) : p.dirtiedBy ≠ some tx := by
  rw [h]
  exact (Option.some_ne_none tx).symm

namespace Ending

/-- A commit sees to all pages that the transaction has locked, an abort to those it may write. -/
def Reaches : Ending → Option LockMode → Prop
  | commit, m => m.isSome
  | abort, m => m = some .exclusive

def turn (tx : TxId) : Ending → Turn
  | commit => Committed tx
  | abort => RolledBack tx

def visit (tx : TxId) : Ending → Visit
  | commit => .commit tx
  | abort => .rollback tx

theorem visit_turn (tx : TxId) (ending : Ending) : (ending.visit tx).turn = ending.turn tx := by
  cases ending <;> rfl

theorem regular_visit (tx : TxId) (ending : Ending) : (ending.visit tx).Regular := by
  cases ending with
  | commit => exact Visit.regular_commit tx
  | abort => exact Visit.regular_rollback tx

/-- The pages that are seen to, in their order. -/
def pages (tx : TxId) (s : Store) : Ending → List PageId
  | commit => s.pool.locks.pagesOf tx
  | abort => (s.pool.locks.pagesOf tx).filter fun q => s.mode? tx q = some .exclusive

theorem mem_pages (hs : s.pool.locks.Consistent) :
    q ∈ ending.pages tx s ↔ ending.Reaches (s.mode? tx q) := by
  have listed : q ∈ s.pool.locks.pagesOf tx ↔ (s.mode? tx q).isSome := hs.listed
  cases ending with
  | commit => exact listed
  | abort =>
      simp only [pages, List.mem_filter, decide_eq_true_eq, listed, Ending.Reaches]
      constructor
      · exact And.right
      · intro hx
        exact ⟨by rw [hx]; rfl, hx⟩

theorem pages_ascending (tx : TxId) (s : Store) (ending : Ending) :
    (ending.pages tx s).Pairwise fun p q => compare p q = .lt := by
  cases ending with
  | commit => exact LockTable.pagesOf_ascending _ tx
  | abort => exact (LockTable.pagesOf_ascending _ tx).filter _

theorem reaches_exclusive (ending : Ending) : ending.Reaches (some .exclusive) := by
  cases ending with
  | commit => rfl
  | abort => rfl

theorem isSome_of_reaches {m : Option LockMode} (h : ending.Reaches m) : m.isSome := by
  cases ending with
  | commit => exact h
  | abort =>
      obtain rfl : m = some .exclusive := h
      rfl

/-- The end of a transaction does not reach what another may write to. -/
theorem not_reaches (hs : s.pool.locks.Consistent) (locked : s.mode? tx q = some .exclusive)
    (hu : u ≠ tx) : ¬ ending.Reaches (s.mode? u q) :=
  fun reached => hu (hs.alone locked (isSome_of_reaches reached))

/-- No page is left dirty by the transaction that has ended. -/
theorem owner_ne {f f' : Except Error HeapPage} (h : ending.turn tx p f p' f') :
    p'.dirtiedBy ≠ some tx := by
  cases ending with
  | commit =>
      cases h with
      | own _ _ => exact ne_some_of_clean tx rfl
      | clean h => exact ne_some_of_clean tx h
      | foreign h hu => exact fun h' => hu (Option.some.inj (h.symm.trans h'))
  | abort =>
      cases h with
      | own _ _ restored => exact ne_some_of_clean tx restored.clean
      | flushed _ _ _ restored _ => exact ne_some_of_clean tx restored.clean
      | same h _ => exact ne_some_of_clean tx h
      | foreign h hu => exact fun h' => hu (Option.some.inj (h.symm.trans h'))

end Ending

/-- The end of a transaction, as far as it has come: the pages `done` have been seen to, `halt` could
not be written if it is a page, and the locks are gone. -/
structure Ended (T : Tables) (tx : TxId) (ending : Ending) (done : List PageId)
    (halt : Option PageId) (s s' : Store) : Prop where
  locks : s'.pool.locks = s.pool.locks.releaseAll tx
  visited : Visited T (ending.visit tx) done halt s { s' with pool.locks := s.pool.locks }

theorem Ended.mode (hs : s.pool.locks.Consistent) (h : Ended T tx ending done halt s s') (u : TxId)
    (q : PageId) : s'.mode? u q = if u = tx then none else s.mode? u q := by
  rw [Store.mode?, h.locks]
  exact LockTable.mode?_releaseAll hs tx u q

theorem Ended.intact (hs : s.pool.locks.Consistent) (h : Ended T tx ending done halt s s') :
    s'.Intact T where
  tables := h.visited.intact.tables
  readable := h.visited.intact.readable
  locks := by
    rw [h.locks]
    exact hs.releaseAll tx
  cache := h.visited.intact.cache
  pages q p hp := by
    have kept := h.visited.intact.pages q p hp
    exact ⟨kept.sound, kept.schema, kept.file, kept.reverts⟩

theorem Ended.cases (h : Ended T tx ending done halt s s') (q : PageId) :
    ((q ∉ done ∧ halt ≠ some q ∨ s.cached q = none) ∧ s'.cached q = s.cached q ∧
      T.page s' q = T.page s q) ∨
      ∃ p p', s.cached q = some p ∧ s'.cached q = some p' ∧
        (q ∈ done ∧ ending.turn tx p (T.page s q) p' (T.page s' q) ∨
          halt = some q ∧ (ending.visit tx).halt p (T.page s q) p' (T.page s' q)) := by
  rw [← ending.visit_turn]
  exact h.visited.cases q

/-- Whatever happens, a transaction is at an end. -/
theorem complete_ends (hs : s.Intact T) (tx : TxId) (ending : Ending) :
    ∃ done halt, Outcome s (ending.pages tx s) done halt (complete tx ending s).1 ∧
      Ended T tx ending done halt s (complete tx ending s).2 := by
  have ended {x : StoreM Unit} (h : Sweeps T (ending.visit tx) (ending.pages tx s) s (x s))
      (hx : complete tx ending s =
        ((x s).1, { (x s).2 with pool.locks := (x s).2.pool.locks.releaseAll tx })) :
      ∃ done halt, Outcome s (ending.pages tx s) done halt (complete tx ending s).1 ∧
        Ended T tx ending done halt s (complete tx ending s).2 := by
    obtain ⟨done, halt, outcome, visited⟩ := h
    rw [hx]
    refine ⟨done, halt, outcome, by rw [visited.locks], ?_⟩
    have same : { (x s).2 with pool.locks := s.pool.locks } = (x s).2 := by
      rw [← visited.locks]
    exact same.symm ▸ visited
  cases ending with
  | commit => exact ended (sweeps_commit hs tx) rfl
  | abort => exact ended (sweeps_rollback hs tx) rfl

/-- The end of `tx` comes to a page that has to be written, and cannot be. -/
def Stuck (tx : TxId) (ending : Ending) (s : Store) (q : PageId) : Prop :=
  ending.Reaches (s.mode? tx q) ∧ ∃ p, s.cached q = some p ∧ (ending.visit tx).due p ∧ s.Refuses q

/-- A page with a lower id is in the way. -/
def Hindered (tx : TxId) (ending : Ending) (s : Store) (q : PageId) : Prop :=
  ∃ q', compare q' q = .lt ∧ Stuck tx ending s q'

section Stuck
variable {r : Except Error Answer}

theorem Stuck.mem_pages (hs : s.Intact T) (h : Stuck tx ending s q) : q ∈ ending.pages tx s :=
  (Ending.mem_pages hs.locks).mpr h.1

theorem Ended.not_stuck (h : Ended T tx ending done halt s s') (hq : q ∈ done) :
    ¬ Stuck tx ending s q := by
  rintro ⟨_, p, hp, due⟩
  exact (h.visited.turn q hq p hp).1 due

theorem Ended.stuck (hs : s.Intact T) (outcome : Outcome s (ending.pages tx s) done halt r)
    (h : Ended T tx ending done halt s s') (hq : halt = some q) : Stuck tx ending s q := by
  obtain ⟨p, hp, due, _⟩ := h.visited.halted q hq
  exact ⟨(Ending.mem_pages hs.locks).mp (outcome.mem (.inr hq)), p, hp, due⟩

/-- The end of a transaction sees to every page in its reach that no other is in the way of. -/
theorem Ended.seen_iff (hs : s.Intact T) (outcome : Outcome s (ending.pages tx s) done halt r)
    (h : Ended T tx ending done halt s s') (reached : ending.Reaches (s.mode? tx q)) :
    (q ∈ done ∨ halt = some q) ↔ ¬ Hindered tx ending s q :=
  outcome.seen_iff (ending.pages_ascending tx s) (fun _ => h.not_stuck)
    (fun _ => h.stuck hs outcome) (fun _ => Stuck.mem_pages hs)
    ((Ending.mem_pages hs.locks).mpr reached)

theorem Ended.unreached (hs : s.Intact T) (outcome : Outcome s (ending.pages tx s) done halt r)
    (h : Ended T tx ending done halt s s') (hq : ¬ ending.Reaches (s.mode? tx q)) :
    s'.cached q = s.cached q ∧ T.page s' q = T.page s q := by
  have unseen : ¬ (q ∈ done ∨ halt = some q) :=
    fun seen => hq ((Ending.mem_pages hs.locks).mp (outcome.mem seen))
  exact h.visited.others q (.inl (not_or.mp unseen))

theorem Ended.ok_iff (hs : s.Intact T) (outcome : Outcome s (ending.pages tx s) done halt r)
    (h : Ended T tx ending done halt s s') : (∃ a, r = .ok a) ↔ ∀ q, ¬ Stuck tx ending s q :=
  outcome.ok_iff (fun _ => h.not_stuck) (fun _ => h.stuck hs outcome) (fun _ => Stuck.mem_pages hs)

end Stuck

/-- What the end of a transaction comes to if all goes well. -/
structure Completes (tx : TxId) (ending : Ending) (s s' : Store) : Prop where
  sound : s'.Sound
  catalog : s'.catalog = s.catalog
  locks : s'.pool.locks = s.pool.locks.releaseAll tx
  mode : ∀ u q, s'.mode? u q = if u = tx then none else s.mode? u q
  turn : ∀ q p, s.cached q = some p → ending.Reaches (s.mode? tx q) →
    ∃ p', s'.cached q = some p' ∧ ending.turn tx p (s.onFile q) p' (s'.onFile q)
  others : ∀ q, s.cached q = none ∨ ¬ ending.Reaches (s.mode? tx q) →
    s'.cached q = s.cached q ∧ s'.onFile q = s.onFile q

/-- A page is left alone, or it is cached and the end of the transaction reaches it. -/
theorem Completes.cases (h : Completes tx ending s s') (q : PageId) :
    ((s.cached q = none ∨ ¬ ending.Reaches (s.mode? tx q)) ∧ s'.cached q = s.cached q ∧
      s'.onFile q = s.onFile q) ∨
      ∃ p p', s.cached q = some p ∧ ending.Reaches (s.mode? tx q) ∧ s'.cached q = some p' ∧
        ending.turn tx p (s.onFile q) p' (s'.onFile q) := by
  by_cases hq : s.cached q = none ∨ ¬ ending.Reaches (s.mode? tx q)
  · exact .inl ⟨hq, h.others q hq⟩
  · simp only [not_or, Classical.not_not] at hq
    obtain ⟨p, hp⟩ := Option.ne_none_iff_exists'.mp hq.1
    obtain ⟨p', hp', turn⟩ := h.turn q p hp hq.2
    exact .inr ⟨p, p', hp, hq.2, hp', turn⟩

/-- Once all pages have been seen to, none is dirty by the transaction, so its locks may go. -/
theorem Ended.owned (hs : s.pool.locks.Consistent) (ho : s.Owned)
    (h : Ended T tx ending (ending.pages tx s) none s s') : s'.Owned := by
  intro q r u hr hu
  have before : s.mode? u q = some .exclusive :=
    h.visited.owned (ending.regular_visit tx) ho q r u hr hu
  have other : u ≠ tx := by
    rintro rfl
    have reached : q ∈ ending.pages u s := by
      rw [Ending.mem_pages hs, before]
      exact ending.reaches_exclusive
    rcases h.cases q with ⟨⟨hq, _⟩ | absent, cached, _⟩ | ⟨p, p', _, hp', ⟨_, turn⟩ | ⟨hn, _⟩⟩
    · exact hq reached
    · rw [cached, absent] at hr
      cases hr
    · rw [hp'] at hr
      cases hr
      exact Ending.owner_ne turn hu
    · cases hn
  rw [h.mode hs, if_neg other]
  exact before

theorem Ended.completes (hs : s.Sound)
    (h : Ended (.ofCatalog s.catalog) tx ending (ending.pages tx s) none s s') :
    Completes tx ending s s' := by
  have ht := Tables.hold_ofCatalog hs.plain
  have catalog : s'.catalog = s.catalog := h.visited.catalog
  have ht' : (Tables.ofCatalog s.catalog).Hold s'.catalog := by rwa [catalog]
  refine ⟨?_, catalog, h.locks, h.mode hs.locks, ?_, ?_⟩
  · exact (h.intact hs.locks).sound (h.visited.reliable hs.reliable)
      (fun q p => h.visited.registered hs) (h.owned hs.locks hs.owned)
  · intro q p hp hr
    obtain ⟨e, he⟩ := hs.registered hp
    rw [onFile_eq_page ht he, onFile_eq_page ht' (catalog ▸ he), ← ending.visit_turn]
    exact (h.visited.turn q ((Ending.mem_pages hs.locks).mpr hr) p hp).2
  · intro q hq
    have left : q ∉ ending.pages tx s ∧ none ≠ some q ∨ s.cached q = none := by
      rcases hq with absent | unreached
      · exact .inr absent
      · exact .inl ⟨fun hq => unreached ((Ending.mem_pages hs.locks).mp hq), fun h => nomatch h⟩
    obtain ⟨cached, page⟩ := h.visited.others q left
    exact ⟨cached, onFile_congr ht catalog page⟩

/-- A transaction ends well unless the medium refuses a write. -/
theorem complete_cases (hs : s.Sound) (tx : TxId) (ending : Ending) :
    (∃ cause s', complete tx ending s = (.error (.io cause), s')) ∨
      ∃ s', complete tx ending s = (.ok (), s') ∧ Completes tx ending s s' := by
  obtain ⟨done, halt, outcome, ended⟩ := complete_ends hs.intact tx ending
  generalize complete tx ending s = result at outcome ended ⊢
  obtain ⟨r, s'⟩ := result
  cases outcome with
  | upTo _ refusal =>
      obtain ⟨p, hp, _⟩ := ended.visited.halted _ rfl
      obtain ⟨cause, rfl⟩ := refusal.io hs hp
      exact .inl ⟨cause, s', rfl⟩
  | all _ => exact .inr ⟨s', rfl, ended.completes hs⟩

end HeapStore.Store
