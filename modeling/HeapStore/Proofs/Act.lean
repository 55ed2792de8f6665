import HeapStore.Proofs.Store.TwoPhase
import HeapStore.Proofs.Store.View

/-!
What acts keep that leave files, pages and locks to the pool. Requests for pages and scans change
neither the files nor what is shown of them, and whatever else is done, a clean page is as its file
has it.
-/

namespace HeapStore

namespace Store
variable {s s' s₁ : Store} {tx : TxId} {q : PageId} {a : Access}

/-- Looking around without making any file grow or giving up any lock. -/
structure Peeks (tx : TxId) (s s' : Store) : Prop where
  calm : Calm tx s s'
  disk : s'.disk = s.disk
  retains : Retains s s'

theorem Peeks.refl (hs : s.Sound) (tx : TxId) : Peeks tx s s :=
  ⟨.refl hs.intact tx, rfl, .of_locks rfl⟩

theorem Peeks.trans (h₁ : Peeks tx s s₁) (h₂ : Peeks tx s₁ s') : Peeks tx s s' :=
  ⟨h₁.calm.trans h₂.calm, h₂.disk.trans h₁.disk, retaining.trans h₁.retains h₂.retains⟩

theorem Peeks.shown (hs : s.Sound) (h : Peeks tx s s') : s'.shown = s.shown := by
  funext q
  have file : s'.onFile q = s.onFile q := by
    simp only [onFile, h.calm.catalog, h.disk]
  simp only [Store.shown, h.calm.draft hs, stored, file]

theorem Fetched.peeks {r : Except Error HeapPage} (hs : s.Sound) (h : Fetched tx q a s r s') :
    Peeks tx s s' := by
  refine ⟨h.calm hs.intact, h.frame.2, ?_⟩
  rcases h.granted_or_same with ⟨_, rfl⟩ | granted
  · exact .of_locks rfl
  · exact fun _ _ _ has => has.acquire? granted.locks

theorem fetch_peeks (hs : s.Sound) (tx : TxId) (q : PageId) (a : Access) :
    Peeks tx s (fetch tx q a s).2 :=
  (fetched hs.intact tx q a).peeks hs

theorem request_peeks (hs : s.Sound) (sc : Scan) (request : Scan.Request) :
    Peeks sc.tx s (request.perform sc s).2 := by
  have peeking : Onward fun s s' => s.Sound → Peeks sc.tx s s' :=
    { refl _ hs := .refl hs sc.tx
      trans h₁ h₂ hs := (h₁ hs).trans (h₂ ((h₁ hs).calm.sound hs)) }
  exact peeking.request (fun q _ hs => fetch_peeks hs sc.tx q .readOnly) request s hs

end Store

section
open Store
variable {s : Store} {a : Act}

/-- Whoever reads only looks around. -/
theorem Act.peeks (hs : s.Sound) (h : a.IsReading) : ∃ tx, Peeks tx s (a.perform s).2 := by
  cases a with
  | scan sc request => exact ⟨sc.tx, request_peeks hs sc request⟩
  | insertInto f tx t => exact h.elim
  | deleteFrom f tx rid => exact h.elim
  | call c =>
      cases c with
      | get tx q access =>
          refine ⟨tx, ?_⟩
          rw [perform, Call.perform, map_apply]
          exact fetch_peeks hs tx q access
      | _ => exact h.elim

theorem Call.not_ioFailed {c : Call}
    (io : ∀ cause, ((Act.call c).perform s).1 ≠ .error (.io cause)) :
    ¬ Event.IoFailed ⟨c, (c.perform s).1⟩ := by
  intro failed
  unfold Event.IoFailed at failed
  split at failed
  next cause h =>
    apply io cause
    exact congrArg (Except.map fun _ => ()) h
  next => exact failed

theorem Act.keeps_settled (hs : s.Sound) (ht : s.Settled) (h : a.IsTransactional)
    (io : ∀ cause, (a.perform s).1 ≠ .error (.io cause)) :
    (a.perform s).2.Sound ∧ (a.perform s).2.Settled ∧ (a.perform s).2.catalog = s.catalog := by
  cases a with
  | call c =>
      have hc : c.IsTransactional := h
      have step := (step_of_perform hs (orderly_of_transactional c hc)).resolve_left
        (c.not_ioFailed io)
      exact ⟨step.sound hs, step.settled hs ht hc, step.catalog⟩
  | scan sc request =>
      have peeks := request_peeks hs sc request
      exact ⟨peeks.calm.sound hs, peeks.calm.settled hs ht, peeks.calm.catalog⟩
  | insertInto f tx t => exact h.elim
  | deleteFrom f tx rid => exact h.elim

/-- What every act keeps, as long as the medium does not fail, is kept to the end. -/
theorem Store.undergo_induction {P : Store → Prop} {acts : List Act}
    (step : ∀ a ∈ acts, ∀ s, P s → (∀ cause, (a.perform s).1 ≠ .error (.io cause)) →
      P (a.perform s).2)
    (h : P s) (io : ∀ r ∈ (undergo acts s).1, ∀ cause, r ≠ .error (.io cause)) :
    P (undergo acts s).2 := by
  induction acts generalizing s with
  | nil => exact h
  | cons a acts ih =>
      have first := step a (List.mem_cons_self ..) s h (io _ (List.mem_cons_self ..))
      exact ih (fun a ha => step a (List.mem_cons_of_mem _ ha)) first
        (fun r hr => io r (List.mem_cons_of_mem _ hr))

end

end HeapStore
