import HeapStore.Proofs.Lock.Grants
import HeapStore.Proofs.Store.Opened

/-!
Locks are kept until their transaction ends. Whatever is done, in whatever state, and whether it
goes well or not, takes no lock from anybody, but for the end of a transaction, which takes its
locks, and for the explicit release of one.
-/

namespace HeapStore

namespace Store
variable {s s' s₁ s₂ : Store} {tx : TxId} {q : PageId} {m : LockMode}

/-- Whoever has a lock has it afterwards too, or a stronger one. -/
def Retains (s s' : Store) : Prop :=
  ∀ u q m, s.pool.locks.Has u q m → s'.pool.locks.Has u q m

theorem Retains.of_locks (h : s'.pool.locks = s.pool.locks) : Retains s s' := by
  intro u q m has
  rwa [h]

theorem retaining : Lenient Retains where
  refl _ := .of_locks rfl
  trans h₁ h₂ u q m has := h₂ u q m (h₁ u q m has)
  catalog _ _ := .of_locks rfl
  cache _ _ := .of_locks rfl
  granted ha _ _ _ has := has.acquire? ha

theorem retaining_writing : Writing Retains :=
  { retaining with disk := fun _ _ => .of_locks rfl }

/-- A lock that has been let go of was not there before. -/
theorem Retains.letGo (h : Retains s s₁) :
    Retains s (letGo (s.pool.locks.holds tx q) tx q s₁).2 := by
  rw [letGo_apply]
  cases held : s.pool.locks.holds tx q with
  | true => exact h
  | false =>
      intro u q' m has
      apply (h u q' m has).release
      rintro ⟨rfl, rfl⟩
      rw [has.holds] at held
      cases held

theorem retains_insertInto (f : HeapFile) (tx : TxId) (t : Tuple) :
    Keeping Retains (insertInto f tx t) :=
  retaining.insertInto (retaining_writing.append f) Retains.letGo tx t

/-- The end of a transaction is no concern of any other. -/
theorem has_of_complete {u : TxId} (hu : u ≠ tx) (ending : Ending)
    (has : s.pool.locks.Has u q m) : (complete tx ending s).2.pool.locks.Has u q m := by
  cases ending with
  | commit => exact (retaining_writing.commit tx s u q m has).releaseAll hu
  | abort => exact (retaining_writing.rollback tx s u q m has).releaseAll hu

end Store

open Store

/-- What takes the lock on `q` away from `tx`. -/
def Act.Drops (tx : TxId) (q : PageId) : Act → Prop
  | call (.complete u _) => u = tx
  | call (.release u page) => u = tx ∧ page = q
  | call _ | insertInto .. | deleteFrom .. | scan .. => False

section
variable {s : Store} {tx : TxId} {q : PageId} {m : LockMode}

theorem Call.keeps_lock {c : Call} (has : s.pool.locks.Has tx q m)
    (h : ¬ (Act.call c).Drops tx q) : (c.perform s).2.pool.locks.Has tx q m := by
  have retained {α : Type} {x : StoreM α} {f : α → Answer} (h : Keeping Retains x) :
      ((f <$> x) s).2.pool.locks.Has tx q m := by
    rw [map_apply]
    exact h s tx q m has
  cases c with
  | get u page a => exact retained (retaining.fetch u page a)
  | insert u table t => exact retaining.insert (fun e _ => retains_insertInto e.file u t) tx q m has
  | delete u rid => exact retained (retaining.delete u rid)
  | flushPage page => exact retained (retaining_writing.flushPage page)
  | flushAll => exact retained retaining_writing.flushAll
  | flushTx u => exact retained (retaining_writing.flushTx u)
  | discard page => exact has
  | release u page => exact has.release fun same => h ⟨same.1.symm, same.2.symm⟩
  | complete u ending =>
      rw [Call.perform, map_apply]
      exact has_of_complete (fun same => h same.symm) ending has

theorem Act.keeps_lock {a : Act} (has : s.pool.locks.Has tx q m) (h : ¬ a.Drops tx q) :
    (a.perform s).2.pool.locks.Has tx q m := by
  cases a with
  | call c => exact c.keeps_lock has h
  | insertInto f u t => exact retains_insertInto f u t s tx q m has
  | deleteFrom f u rid => exact retaining.deleteFrom f u rid s tx q m has
  | scan sc request =>
      exact retaining.request (fun q => retaining.fetch sc.tx q .readOnly) request s tx q m has

/-- A lock that a transaction has it keeps, or gets a stronger one, whatever anybody does and
however it goes, until it ends or releases the page itself. -/
theorem Store.lock_kept_until_end {acts : List Act} (has : s.pool.locks.Has tx q m)
    (h : ∀ a ∈ acts, ¬ a.Drops tx q) : (undergo acts s).2.pool.locks.Has tx q m := by
  induction acts generalizing s with
  | nil => exact has
  | cons a acts ih =>
      have kept := Act.keeps_lock has (h a (List.mem_cons_self ..))
      exact ih kept fun a ha => h a (List.mem_cons_of_mem _ ha)

/-- Full pages, pages asked for in vain, and all that others do. -/
def Store.busyActs : List Act :=
  [.call (.get ⟨2⟩ samplePage .readOnly), .insertInto sampleEntry.file ⟨1⟩ (sampleRow "b"),
    .scan { file := sampleEntry.file, tx := ⟨1⟩ } .start, .call .flushAll,
    .call (.discard samplePage), .call (.complete ⟨2⟩ .abort)]

theorem Store.lock_outlasts_other_end :
    (undergo busyActs (run [sampleInsert] (sample [] 1 (by decide))).2).2.pool.locks.Has ⟨1⟩
      samplePage .exclusive :=
  lock_kept_until_end ⟨.exclusive, by decide +kernel, .inr rfl⟩ (by simp [busyActs, Act.Drops])

end

end HeapStore
