import HeapStore.Proofs.Store.Ledger
import HeapStore.Proofs.Store.Opened

/-!
The files show what is committed, and nothing else, after every call of every run without flushes:
what a running transaction has changed stays in the cache, and what a commit makes good is in the
files when it returns.
-/

namespace HeapStore

/-- The ledger to begin with: the rows that the files have. -/
def Ledger.ofFiles (s : Store) : Ledger :=
  ⟨s.rowOnFile, fun _ => []⟩

namespace Store
variable {s s' s₁ : Store} {e : Event} {q : PageId} {tx : TxId}

theorem Opened.tells {config : Config} (h : Opened config s) : Tells (.ofFiles s) s where
  rows q i := (s.rowOnFile_eq ⟨q, i⟩).symm
  drafts hd := by
    rw [h.draft] at hd
    cases hd
  dirty hc := by cases hc

/-- What may become of a page of a file: one that can be read still can be, one that cannot stays
as it is, and where there was none there may be one. -/
inductive Extends (q : PageId) : Except Error Content → Except Error Content → Prop
  | page (c c' : Content) : Extends q (.ok c) (.ok c')
  | unreadable (e : Error) : Extends q (.error e) (.error e)
  | grown (c : Content) : Extends q (.error (.pageOutOfRange q)) (.ok c)

theorem Extends.refl (q : PageId) (file : Except Error Content) : Extends q file file := by
  cases file with
  | ok c => exact .page c c
  | error e => exact .unreadable e

theorem Extends.trans {file file₁ file₂ : Except Error Content} (h₁ : Extends q file file₁)
    (h₂ : Extends q file₁ file₂) : Extends q file file₂ := by
  cases h₁ with
  | page c _ =>
      cases h₂ with
      | page _ c' => exact .page c c'
  | unreadable _ => exact h₂
  | grown _ =>
      cases h₂ with
      | page _ c' => exact .grown c'

def Grows (s s' : Store) : Prop :=
  ∀ q, Extends q (s.stored q) (s'.stored q)

theorem Grows.refl (s : Store) : Grows s s :=
  fun q => .refl q _

theorem Grows.trans (h₁ : Grows s s₁) (h₂ : Grows s₁ s') : Grows s s' :=
  fun q => (h₁ q).trans (h₂ q)

theorem Calm.grows (h : Calm tx s s') : Grows s s' := by
  intro q
  rcases h.stored q with same | ⟨out, schema, grown⟩
  · rw [same]
    exact .refl q _
  · rw [out, grown]
    exact .grown _

/-- A page that is written was there before. -/
theorem Completes.grows {ending : Ending} (hs : s.Sound) (ht : s.Settled)
    (h : Completes tx ending s s') : Grows s s' := by
  intro q
  rw [h.stored hs ht]
  cases hd : s.draft q with
  | none => exact .refl q _
  | some d =>
      obtain ⟨u, c⟩ := d
      obtain ⟨p, hp, _⟩ := draft_eq_some.mp hd
      obtain ⟨c₀, hc₀, _⟩ := ht q p hp
      rw [hc₀]
      simp only
      split
      · exact .page c₀ c
      · exact .page c₀ c₀

theorem Step.grows (hs : s.Sound) (ht : s.Settled) (hc : e.call.IsTransactional)
    (h : Step s e s') : Grows s s' := by
  cases h with
  | looks _ _ _ calm _ => exact calm.grows
  | edits _ _ _ edits _ _ =>
      apply edits.calm.grows.trans
      intro q
      rw [edits.stored]
      exact .refl q _
  | flushes _ call _ => exact absurd hc call
  | ends _ _ completes => exact completes.grows hs ht

/-- What a run without flushes keeps, from the moment when the pool was set up. -/
theorem run_tells {config : Config} (h : Opened config s) {calls : List Call}
    (hc : ∀ c ∈ calls, c.IsTransactional) (io : ∀ e ∈ (run calls s).1, ¬ e.IoFailed) :
    (run calls s).2.Sound ∧ (run calls s).2.Settled ∧
      Tells ((run calls s).1.foldl Ledger.record (.ofFiles s)) (run calls s).2 ∧
      Grows s (run calls s).2 ∧ (run calls s).2.catalog = s.catalog := by
  apply run_induction Ledger.record
    (P := fun L s' => s'.Settled ∧ Tells L s' ∧ Grows s s' ∧ s'.catalog = s.catalog)
    orderly_of_transactional ?_ h.sound ⟨h.settled, h.tells, .refl s, rfl⟩ hc io
  rintro L s₁ s' e hc hs ⟨settled, tells, grows, catalog⟩ _ step
  exact ⟨step.settled hs settled hc, tells.step hs settled hc step,
    grows.trans (step.grows hs settled hc), step.catalog.trans catalog⟩

/-- After every run without flushes the files show exactly the committed rows, and so does a pool
that is set up then. -/
theorem files_show_committed {config : Config} (h : Opened config s) {calls : List Call}
    (hc : ∀ c ∈ calls, c.IsTransactional) (io : ∀ e ∈ (run calls s).1, ¬ e.IoFailed) :
    (∀ rid, (run calls s).2.rowOnFile rid =
      ((run calls s).1.foldl Ledger.record (.ofFiles s)).rows rid) ∧
    (∀ q p, s.onFile q = .ok p → ∃ p', (run calls s).2.onFile q = .ok p') ∧
    (∀ q e, s.onFile q = .error e →
      (run calls s).2.onFile q = .error e ∨ e = .pageOutOfRange q) ∧
    ∀ config' s', (run calls s).2.replacePool? config' = some s' →
      ∀ tx q a, (fetch tx q a s').1 = (run calls s).2.onFile q := by
  obtain ⟨sound, _, tells, grows, _⟩ := run_tells h hc io
  refine ⟨?_, ?_, ?_, ?_⟩
  · intro rid
    rw [rowOnFile_eq]
    exact tells.rows rid.page rid.slot
  · intro q p hp
    have page := grows q
    rw [stored_ok.mpr ⟨p, hp, rfl⟩] at page
    generalize hq : (run calls s).2.stored q = file at page
    cases page with
    | page _ c' =>
        obtain ⟨p', hp', _⟩ := stored_ok.mp hq
        exact ⟨p', hp'⟩
  · intro q e he
    have page := grows q
    rw [stored_error.mpr he] at page
    generalize hq : (run calls s).2.stored q = file at page
    cases page with
    | unreadable _ => exact .inl (stored_error.mp hq)
    | grown _ => exact .inr rfl
  · intro config' s' hr tx q a
    obtain ⟨opened, file⟩ := opened_of_replacePool? sound hr
    rw [opened.fetch, file]

/-- A committed row, and one that is not; another transaction waits for the page in vain. -/
def sampleCalls : List Call :=
  [.insert ⟨1⟩ (.file 0) (sampleRow "kept"), .complete ⟨1⟩ .commit,
    .insert ⟨2⟩ (.file 0) (sampleRow "open"), .insert ⟨3⟩ (.file 0) (sampleRow "late")]

theorem files_show_only_the_committed_row :
    (run sampleCalls (sample [] 1 (by decide))).2.rowOnFile ⟨⟨.file 0, 0⟩, 0⟩ =
        some [some (.string "kept")] ∧
      (run sampleCalls (sample [] 1 (by decide))).2.rowOnFile ⟨⟨.file 0, 0⟩, 1⟩ = none := by
  have opened : Opened (sampleConfig 1) (sample [] 1 (by decide)) :=
    opened_sample (by decide) (by decide)
  have io : ∀ e ∈ (run sampleCalls (sample [] 1 (by decide))).1, ¬ e.IoFailed := by
    decide +kernel
  have h := (files_show_committed opened (by simp [sampleCalls, Call.IsTransactional]) io).1
  rw [h, h]
  decide +kernel

end Store
end HeapStore
