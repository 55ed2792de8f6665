import HeapStore.Proofs.Store.Rounds

/-!
A commit goes page by page. Where a page cannot be written it stops there, and so does what it has
done: the pages before are committed one by one, on disk and with nothing to go back to, and that
page and those behind it are still as the transaction has left them.
-/

namespace HeapStore
open Std

namespace HeapPage
variable {p : HeapPage} {tx u : TxId}

/-- A clean page does not go back any more. -/
def settled (p : HeapPage) : HeapPage :=
  if p.isDirty then p else p.snapshot

/-- A page as `tx` leaves it when it commits. -/
def committed (tx : TxId) (p : HeapPage) : HeapPage :=
  (p.flushed (·.dirtiedBy = some tx)).settled

theorem committed_of_own (h : p.dirtiedBy = some tx) :
    p.committed tx = (p.mark none).settled := by
  rw [committed, flushed_of_due h]

theorem committed_of_not_own (h : p.dirtiedBy ≠ some tx) : p.committed tx = p.settled := by
  rw [committed, flushed_of_not_due h]

theorem committed_of_other (h : p.dirtiedBy = some u) (other : u ≠ tx) : p.committed tx = p := by
  have foreign : p.dirtiedBy ≠ some tx := fun own => other (Option.some.inj (h.symm.trans own))
  rw [committed_of_not_own foreign]
  exact if_pos (by rw [isDirty, h]; rfl)

theorem committed_of_clean (h : p.dirtiedBy = none) : p.committed tx = p.snapshot := by
  rw [committed_of_not_own (Store.ne_some_of_clean tx h)]
  exact if_neg (by simp [Store.isDirty_eq_false.mpr h])

theorem slots_committed (p : HeapPage) (tx : TxId) : (p.committed tx).slots = p.slots := by
  unfold HeapPage.committed HeapPage.settled flushed
  split <;> split <;> rfl

/-- A page that is clean after a commit goes back to what it is. -/
theorem beforeImage_settled (clean : p.settled.isDirty = false) :
    p.settled.beforeImage = p.settled.image := by
  unfold HeapPage.settled at clean ⊢
  split
  next dirty =>
    rw [if_pos dirty, dirty] at clean
    cases clean
  next => rfl

end HeapPage

namespace Store
variable {s s' s₁ : Store} {tx : TxId} {q : PageId} {p : HeapPage} {done : List PageId}

theorem attends_commitPage (tx : TxId) :
    Attends (·.dirtiedBy = some tx) (·.committed tx) (commitPage tx) := by
  intro s q p hs plain hp
  have made := hs.pages q p hp
  have ends := commitsPage tx p s
  generalize commitPage tx p s = outcome at ends ⊢
  obtain ⟨r, s'⟩ := outcome
  cases ends with
  | refused own failed => exact .of_refused hs plain hp own failed
  | own own wrote =>
      exact .of_written hs plain hp own (HeapPage.committed_of_own own)
        (made.mark none).snapshot wrote
  | clean clean =>
      exact .of_put hs hp (ne_some_of_clean tx clean) (HeapPage.committed_of_clean clean)
        made.snapshot
  | foreign owner other =>
      refine .of_put hs hp (fun own => ?_) (HeapPage.committed_of_other owner other) made
      exact other (Option.some.inj (owner.symm.trans own))

/-- The pages that are cached of those that the transaction has locked are seen to. -/
theorem rounds_commit (hs : s.Coherent) (plain : s.catalog.Plain) (tx : TxId) :
    Rounds (·.dirtiedBy = some tx) (·.committed tx)
      ((s.pool.locks.pagesOf tx).filter fun q => (s.cached q).isSome) s (commit tx s) := by
  have all : Rounds (·.dirtiedBy = some tx) (·.committed tx) (s.pool.locks.pagesOf tx) s
      (commit tx s) :=
    Attends.rounds (attends_commitPage tx) hs plain (LockTable.nodup_pagesOf s.pool.locks tx)
  refine all.filter _ fun q absent p hp => ?_
  rw [hp] at absent
  cases absent

/-- What has come of a commit that has seen to the pages `done`, and to no more. -/
structure CommittedUpTo (tx : TxId) (done : List PageId) (s s' : Store) : Prop where
  own : ∀ q ∈ done, ∀ p, s.cached q = some p → p.dirtiedBy = some tx →
    ∃ p', s'.cached q = some p' ∧ p'.isDirty = false ∧ OnDisk s' q p'.image
  settled : ∀ q ∈ done, ∀ p', s'.cached q = some p' → p'.isDirty = false →
    p'.beforeImage = p'.image
  left : ∀ q, q ∉ done → s'.cached q = s.cached q
  others : ∀ q p u, s.cached q = some p → p.dirtiedBy = some u → u ≠ tx → s'.cached q = some p
  rows : ∀ q, (s'.cached q).map (·.slots) = (s.cached q).map (·.slots)
  files : s.disk.Patched (fun q => q ∈ done ∧ ∃ p, s.cached q = some p ∧ p.dirtiedBy = some tx)
    s'.disk
  lockless : s'.pool.locks.pagesOf tx = [] ∧ ∀ q, s'.mode? tx q = none

theorem Round.committedUpTo (locks : s.pool.locks.Consistent)
    (h : Round (·.dirtiedBy = some tx) (·.committed tx) done s s₁)
    (ended : s' = { s₁ with pool.locks := s.pool.locks.releaseAll tx }) :
    CommittedUpTo tx done s s' := by
  have seen {q : PageId} (hq : q ∈ done) : s'.cached q = (s.cached q).map (·.committed tx) := by
    rw [ended]
    exact h.seen q hq
  have left {q : PageId} (hq : q ∉ done) : s'.cached q = s.cached q := by
    rw [ended]
    exact h.cached q hq
  constructor
  case own =>
    intro q hq p hp own
    refine ⟨p.committed tx, by rw [seen hq, hp, Option.map_some], ?_, ?_⟩
    · rw [HeapPage.committed_of_own own]
      rfl
    · rw [HeapPage.committed_of_own own, ended]
      exact h.written q hq p hp own
  case settled =>
    intro q hq p' hp' clean
    rw [seen hq] at hp'
    obtain ⟨p, _, rfl⟩ := Option.map_eq_some_iff.mp hp'
    exact HeapPage.beforeImage_settled clean
  case left => exact fun q => left
  case others =>
    intro q p u hp ho other
    by_cases hq : q ∈ done
    · rw [seen hq, hp, Option.map_some, HeapPage.committed_of_other ho other]
    · rw [left hq, hp]
  case rows =>
    intro q
    by_cases hq : q ∈ done
    · rw [seen hq, Option.map_map]
      exact Option.map_congr fun p _ => p.slots_committed tx
    · rw [left hq]
  case files =>
    rw [ended]
    exact h.disk
  case lockless =>
    rw [ended]
    exact LockTable.lockless_releaseAll locks tx

/-- A commit goes through the cached pages that its transaction has locked, in their order. It ends
well exactly if all that the transaction has changed can be written; otherwise the pages before the
first that cannot are committed, and no others. -/
theorem commit_goes_page_by_page (arises : Arises s) (plain : s.catalog.Plain) (tx : TxId) :
    ∃ (pages done : List PageId) (halt : Option PageId),
      (∀ q, q ∈ pages ↔ (s.mode? tx q).isSome ∧ (s.cached q).isSome) ∧
      pages.Pairwise (fun p q => compare p q = .lt) ∧
      ((complete tx .commit s).1 = .ok () ↔
        ∀ q ∈ pages, ∀ p, s.cached q = some p → p.dirtiedBy = some tx → ¬ s.Refuses q) ∧
      Outcome s pages done halt (complete tx .commit s).1 ∧
      (∀ q, halt = some q → ∃ p, s.cached q = some p ∧ p.dirtiedBy = some tx) ∧
      CommittedUpTo tx done s (complete tx .commit s).2 := by
  have hs := arises.coherent
  have rounds := rounds_commit hs plain tx
  obtain ⟨done, halt, outcome, stuck, round⟩ := id rounds
  refine ⟨_, done, halt, fun q => ?_, ?_, rounds.ok_iff, outcome, stuck, ?_⟩
  · have listed : q ∈ s.pool.locks.pagesOf tx ↔ (s.mode? tx q).isSome := hs.locks.listed
    rw [List.mem_filter, listed]
  · exact (LockTable.pagesOf_ascending _ tx).filter _
  · have ended : (complete tx .commit s).2 =
        { (commit tx s).2 with pool.locks := s.pool.locks.releaseAll tx } := by
      rw [← round.locks]
      rfl
    exact round.committedUpTo hs.locks ended

/-- The one row is stored for good, the other is not. -/
theorem commit_stops_half_way :
    let s := twoRowsOver halfRefusing
    let s' := (complete ⟨1⟩ .commit s).2
    (complete ⟨1⟩ .commit s).1 ≠ .ok () ∧
      ∃ done, samplePage ∈ done ∧ otherPage ∉ done ∧ CommittedUpTo ⟨1⟩ done s s' := by
  intro s s'
  have arises : Arises s := arises_twoRowsOver halfRefusing
  obtain ⟨failed, dirty, clean, changed, kept⟩ :
      (complete ⟨1⟩ .commit s).1.isOk = false ∧
      (s.cached samplePage).map (·.dirtiedBy) = some (some ⟨1⟩) ∧
      (s'.cached samplePage).map (·.dirtiedBy) = some none ∧
      (s.cached otherPage).map (·.dirtiedBy) = some (some ⟨1⟩) ∧
      (s'.cached otherPage).map (·.dirtiedBy) = some (some ⟨1⟩) := by
    decide +kernel
  obtain ⟨_, done, _, _, _, _, _, _, committed⟩ :=
    commit_goes_page_by_page arises plain_bothTables ⟨1⟩
  have committed : CommittedUpTo ⟨1⟩ done s s' := committed
  have notOk : (complete ⟨1⟩ .commit s).1 ≠ .ok () := by
    intro ok
    rw [ok] at failed
    cases failed
  refine ⟨notOk, done, ?_, ?_, committed⟩
  · apply Classical.byContradiction
    intro unseen
    rw [committed.left samplePage unseen, dirty] at clean
    cases clean
  · intro seen
    obtain ⟨p, hp, own⟩ := Option.map_eq_some_iff.mp changed
    obtain ⟨p', hp', undone, _⟩ := committed.own otherPage seen p hp own
    rw [hp', Option.map_some, isDirty_eq_false.mp undone] at kept
    cases kept

end Store
end HeapStore
