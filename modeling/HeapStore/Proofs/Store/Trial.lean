import HeapStore.Proofs.Store.Opened
import HeapStore.Store.Trial

/-!
What every call of a run keeps though tables may be missing and writes may fail.
-/

namespace HeapStore.Store
variable {T : Tables} {s s' : Store} {t : Trial} {tx : TxId} {ending : Ending}
  {answer : Except Error Answer}

theorem Intact.enter (hs : s.Intact T) (ht : T.Hold t.catalog) : (t.enter s).Intact T where
  tables := ht
  readable := hs.readable
  locks := hs.locks
  cache := hs.cache
  pages q p hp := by
    have kept := hs.pages q p hp
    exact ⟨kept.sound, kept.schema, kept.file, kept.reverts⟩

/-- What a call comes to that ends a transaction. -/
theorem ends_of_perform (hs : (t.enter s).Intact T) (call : t.call = .complete tx ending)
    (h : t.perform s = (answer, s')) :
    ∃ done halt, Outcome (t.enter s) (ending.pages tx (t.enter s)) done halt answer ∧
      Ended T tx ending done halt (t.enter s) s' := by
  have performed : t.perform s = ((complete tx ending (t.enter s)).1.map fun _ => .done,
      (complete tx ending (t.enter s)).2) := by
    rw [Trial.perform, call]
    exact perform_map
  rw [h] at performed
  obtain ⟨rfl, rfl⟩ := Prod.mk.inj performed
  obtain ⟨done, halt, outcome, ended⟩ := complete_ends hs tx ending
  exact ⟨done, halt, outcome.map fun _ => Answer.done, ended⟩

theorem attempt_cons (t : Trial) (trials : List Trial) (s : Store) :
    attempt (t :: trials) s =
      (⟨t.call, (t.perform s).1⟩ :: (attempt trials (t.perform s).2).1,
        (attempt trials (t.perform s).2).2) :=
  rfl

theorem attempt_append (before after : List Trial) (s : Store) :
    attempt (before ++ after) s =
      ((attempt before s).1 ++ (attempt after (attempt before s).2).1,
        (attempt after (attempt before s).2).2) := by
  induction before generalizing s with
  | nil => rfl
  | cons t before ih => rw [List.cons_append, attempt_cons, ih, attempt_cons, List.cons_append]

theorem call_of_mem_attempt {e : Event} {trials : List Trial} (he : e ∈ (attempt trials s).1) :
    ∃ t ∈ trials, e.call = t.call := by
  induction trials generalizing s with
  | nil => cases he
  | cons t trials ih =>
      rw [attempt_cons] at he
      rcases List.mem_cons.mp he with rfl | he
      · exact ⟨t, List.mem_cons_self .., rfl⟩
      · obtain ⟨t', ht', same⟩ := ih he
        exact ⟨t', List.mem_cons_of_mem _ ht', same⟩

/-- What every call keeps, a run keeps, as long as its events meet `Q` and its stops `R`. -/
theorem attempt_induction {P : List Event → Store → Prop} {Q : Event → Prop} {R : Store → Prop}
    (enter : ∀ {L s} {t : Trial}, P L s → P L (t.enter s))
    (step : ∀ {L s s' e}, s.Intact T → P L s → Move T s e s' → Q e →
      (∀ m ∈ e.call.stops s, R m) → P (L ++ [e]) s')
    {L : List Event} (hs : s.Intact T) (h : P L s) {trials : List Trial}
    (tables : ∀ t ∈ trials, T.Hold t.catalog) (orderly : ∀ t ∈ trials, t.call.IsOrderly)
    (hQ : ∀ e ∈ (attempt trials s).1, Q e) (hR : ∀ m ∈ attemptStops trials s, R m) :
    (attempt trials s).2.Intact T ∧ P (L ++ (attempt trials s).1) (attempt trials s).2 := by
  induction trials generalizing s L with
  | nil => exact ⟨hs, by rwa [attempt, List.append_nil]⟩
  | cons t trials ih =>
      rw [attempt_cons] at hQ ⊢
      have entered := hs.enter (tables t (List.mem_cons_self ..))
      have move := move_of_perform entered (orderly t (List.mem_cons_self ..))
      have next := step entered (enter h) move (hQ _ (List.mem_cons_self ..))
        (fun m hm => hR m (List.mem_append_left _ hm))
      have rest := ih (move.intact entered) next
        (fun t ht => tables t (List.mem_cons_of_mem _ ht))
        (fun t ht => orderly t (List.mem_cons_of_mem _ ht))
        (fun e he => hQ e (List.mem_cons_of_mem _ he))
        (fun m hm => hR m (List.mem_append_right _ hm))
      rwa [List.append_assoc] at rest

theorem attempt_intact (hs : s.Intact T) {trials : List Trial}
    (tables : ∀ t ∈ trials, T.Hold t.catalog) (orderly : ∀ t ∈ trials, t.call.IsOrderly) :
    (attempt trials s).2.Intact T :=
  (attempt_induction (P := fun _ _ => True) (Q := fun _ => True) (R := fun _ => True)
    (L := []) id (fun _ _ _ _ _ => trivial) hs trivial tables orderly (fun _ _ => trivial)
    (fun _ _ => trivial)).1

/-- The catalog of the sample. -/
def sampleCatalog : Catalog :=
  Catalog.add {} sampleEntry

theorem hold_sampleCatalog : (Tables.ofCatalog sampleCatalog).Hold sampleCatalog :=
  Tables.hold_ofCatalog (Catalog.plain_default.add rfl)

end HeapStore.Store
