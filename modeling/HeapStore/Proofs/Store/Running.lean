import HeapStore.Proofs.Store.Opened

/-!
Who holds locks: only transactions that have made a call and have not ended since.
-/

namespace HeapStore

/-- `tx` has made a call and has not ended since. -/
def Running (tx : TxId) (calls : List Call) : Prop :=
  ∃ before c after, calls = before ++ c :: after ∧ c.tx? = some tx ∧
    ∀ d ∈ c :: after, ∀ ending, d ≠ .complete tx ending

theorem not_running_nil (tx : TxId) : ¬ Running tx [] := by
  rintro ⟨before, c, after, h, _⟩
  cases before <;> cases h

theorem running_cons {tx : TxId} {c : Call} {calls : List Call} :
    Running tx (c :: calls) ↔ Running tx calls ∨
      c.tx? = some tx ∧ ∀ d ∈ c :: calls, ∀ ending, d ≠ .complete tx ending := by
  constructor
  · rintro ⟨before, d, after, h, hd, going⟩
    cases before with
    | nil =>
        cases h
        exact .inr ⟨hd, going⟩
    | cons b before =>
        cases h
        exact .inl ⟨before, d, after, rfl, hd, going⟩
  · rintro (⟨before, d, after, rfl, hd, going⟩ | ⟨hc, going⟩)
    · exact ⟨c :: before, d, after, rfl, hd, going⟩
    · exact ⟨[], c, calls, rfl, hc, going⟩

theorem running_of_call {tx : TxId} {c : Call} (before : List Call) (h : c.tx? = some tx)
    (going : ∀ ending, c ≠ .complete tx ending) : Running tx (before ++ [c]) := by
  refine ⟨before, c, [], rfl, h, ?_⟩
  intro d hd
  obtain rfl := List.mem_singleton.mp hd
  exact going

theorem Running.append {tx : TxId} {calls : List Call} {c : Call} (h : Running tx calls)
    (going : ∀ ending, c ≠ .complete tx ending) : Running tx (calls ++ [c]) := by
  obtain ⟨before, d, after, rfl, hd, rest⟩ := h
  refine ⟨before, d, after ++ [c], by simp, hd, ?_⟩
  intro d' hd'
  rcases List.mem_cons.mp hd' with rfl | hmem
  · exact rest d' (List.mem_cons_self ..)
  · rcases List.mem_append.mp hmem with hmem | hlast
    · exact rest d' (List.mem_cons_of_mem _ hmem)
    · obtain rfl := List.mem_singleton.mp hlast
      exact going

namespace Store
variable {s s' : Store} {e : Event} {tx u : TxId} {q : PageId}

/-- A lock is had by a call of the transaction, and kept until it ends. -/
theorem Step.mode? (h : Step s e s') (hm : s'.mode? u q ≠ none) :
    (∀ ending, e.call ≠ .complete u ending) ∧ (e.call.tx? = some u ∨ s.mode? u q ≠ none) := by
  cases h with
  | @looks tx tx? _ going calm _ =>
      refine ⟨going u, ?_⟩
      by_cases hu : u = tx
      · exact .inl (hu ▸ tx?)
      · exact .inr (calm.others u hu q ▸ hm)
  | @edits tx _ _ _ _ _ tx? _ going edits _ _ =>
      refine ⟨going u, ?_⟩
      by_cases hu : u = tx
      · exact .inl (hu ▸ tx?)
      · rw [edits.mode?, edits.calm.others u hu q] at hm
        exact .inr hm
  | flushes _ call swept =>
      refine ⟨?_, .inr ?_⟩
      · intro ending hc
        rw [hc] at call
        exact call trivial
      · simpa only [Store.mode?, swept.locks] using hm
  | @ends tx _ call _ completes =>
      rw [completes.mode] at hm
      by_cases hu : u = tx
      · exact absurd (if_pos hu) hm
      · rw [if_neg hu] at hm
        refine ⟨?_, .inr hm⟩
        intro ending hc
        rw [call] at hc
        cases hc
        exact hu rfl

theorem run_calls (calls : List Call) (s : Store) : (run calls s).1.map Event.call = calls := by
  induction calls generalizing s with
  | nil => rfl
  | cons c calls ih =>
      rw [run_cons, List.map_cons, ih]

/-- Only running transactions hold locks. -/
theorem run_running {config : Config} (h : Opened config s) {calls : List Call}
    (hc : ∀ c ∈ calls, c.IsOrderly) (io : ∀ e ∈ (run calls s).1, ¬ e.IoFailed)
    (hm : (run calls s).2.mode? tx q ≠ none) : Running tx calls := by
  have kept := (run_induction (fun calls e => calls ++ [e.call])
    (P := fun calls s => ∀ tx q, s.mode? tx q ≠ none → Running tx calls) (L := [])
    (fun c hc => hc) ?_ h.sound ?_ hc io).2 tx q hm
  · rw [List.foldl_append_eq_append, ← List.flatMap_def, ← List.map_eq_flatMap, List.nil_append,
      run_calls] at kept
    exact kept
  · intro calls s s' e _ _ running _ step tx q hm
    obtain ⟨going, tx? | held⟩ := step.mode? hm
    · exact running_of_call calls tx? going
    · exact (running tx q held).append going
  · intro tx q hm
    exact absurd (h.mode? tx q) hm

end Store
end HeapStore
