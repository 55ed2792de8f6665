import HeapStore.Proofs.Store.Complete
import HeapStore.Proofs.Store.Rows

/-!
What one call of a run can do: look around, change one slot, write pages, or end a transaction.
Everything that is shown of a run is shown of these four, whether writes may fail or not.
-/

namespace HeapStore

/-- A slot that a transaction has put a row into, or freed. -/
structure Change where
  tx : TxId
  rid : RecordId
  row : Option Row
  deriving DecidableEq

namespace Event

/-- The change that a call has made, going by its answer. -/
def change? : Event → Option Change
  | ⟨.insert tx _ t, .ok (.row t')⟩ => t'.rid.map fun rid => ⟨tx, rid, some t.row⟩
  | ⟨.delete tx (some rid), .ok _⟩ => some ⟨tx, rid, none⟩
  | _ => none

/-- The call has failed for the medium. -/
def IoFailed (e : Event) : Prop :=
  match e.answer with
  | .error (.io _) => True
  | _ => False

instance : DecidablePred IoFailed := fun e => by
  unfold IoFailed
  split <;> infer_instance

end Event

/-- `P` holds of an event and of what has happened before it, and `Q` of every event since. -/
def Since (P : List Event → Event → Prop) (Q : Event → Prop) (events : List Event) : Prop :=
  ∃ before e after, events = before ++ e :: after ∧ P before e ∧ ∀ d ∈ after, Q d

section Since
variable {P : List Event → Event → Prop} {Q : Event → Prop} {events : List Event} {e : Event}

theorem not_since_nil : ¬ Since P Q [] := by
  rintro ⟨before, e, after, h, _⟩
  cases before <;> cases h

theorem Since.append {later : List Event} (h : Since P Q events) (hQ : ∀ d ∈ later, Q d) :
    Since P Q (events ++ later) := by
  obtain ⟨before, e, after, rfl, hP, rest⟩ := h
  refine ⟨before, e, after ++ later, by simp, hP, ?_⟩
  intro d hd
  exact (List.mem_append.mp hd).elim (rest d) (hQ d)

theorem Since.cases (h : Since P Q (events ++ [e])) : P events e ∨ Since P Q events ∧ Q e := by
  obtain ⟨before, d, after, split, hP, rest⟩ := h
  rcases List.eq_nil_or_concat after with rfl | ⟨after, e', rfl⟩
  · obtain ⟨rfl, last⟩ := List.append_inj' split rfl
    cases last
    exact .inl hP
  · rw [List.concat_eq_append, ← List.cons_append, ← List.append_assoc] at split
    obtain ⟨rfl, last⟩ := List.append_inj' split rfl
    cases last
    exact .inr ⟨⟨before, d, after, rfl, hP, fun d hd => rest d (by simp [hd])⟩, rest e (by simp)⟩

end Since

namespace Store
variable {T : Tables} {s s' : Store} {c : Call} {e : Event}

/-- What a call can have done, whether or not all has gone well. -/
inductive Move (T : Tables) (s : Store) (e : Event) (s' : Store) : Prop
  | looks {tx : TxId} (tx? : e.call.tx? = some tx) (nothing : e.change? = none)
      (going : ∀ tx ending, e.call ≠ .complete tx ending) (calm : Calm tx s s')
      (stays : Stays (e.call.stops s) s s')
  | edits {tx : TxId} {rid : RecordId} {row : Option Row} {s₁ : Store} {p p' : HeapPage}
      (tx? : e.call.tx? = some tx) (change : e.change? = some ⟨tx, rid, row⟩)
      (going : ∀ tx ending, e.call ≠ .complete tx ending)
      (edits : Edits tx s s₁ s' rid row p p') (stays : Stays (e.call.stops s) s s₁)
      (last : (e.call.stops s).getLast? = some s₁)
  | flushes {due : HeapPage → Prop} {pages done : List PageId} {halt : Option PageId}
      (nothing : e.change? = none) (call : ¬ e.call.IsTransactional)
      (outcome : Outcome s pages done halt e.answer)
      (visited : Visited T (.flush due) done halt s s')
  | ends {tx : TxId} {ending : Ending} {done : List PageId} {halt : Option PageId}
      (call : e.call = .complete tx ending)
      (outcome : Outcome s (ending.pages tx s) done halt e.answer)
      (ended : Ended T tx ending done halt s s')

theorem perform_map {x : StoreM Unit} :
    ((fun _ => Answer.done) <$> x) s = ((x s).1.map fun _ => .done, (x s).2) :=
  map_apply _ x s

theorem move_of_sweeps {x : StoreM Unit} {due : HeapPage → Prop} {pages : List PageId}
    (hc : ¬ c.IsTransactional) (hx : c.perform s = ((x s).1.map fun _ => .done, (x s).2))
    (nothing : Event.change? ⟨c, (c.perform s).1⟩ = none)
    (h : Sweeps T (.flush due) pages s (x s)) : Move T s ⟨c, (c.perform s).1⟩ (c.perform s).2 := by
  obtain ⟨done, halt, outcome, visited⟩ := h
  rw [hx] at nothing ⊢
  exact .flushes nothing hc (outcome.map _) visited

theorem move_of_perform (hs : s.Intact T) (hc : c.IsOrderly) :
    Move T s ⟨c, (c.perform s).1⟩ (c.perform s).2 := by
  cases c with
  | get tx q a =>
      have hf := fetched hs tx q a
      have tx? : (Call.get tx q a).tx? = some tx := rfl
      refine .looks tx? ?_ (fun _ _ => Call.noConfusion) ?_ ?_
      · cases (Call.perform (.get tx q a) s).1 <;> rfl
      all_goals
        simp only [Call.perform, Call.stops, map_eq_pure_bind, bind_apply]
        generalize fetch tx q a s = outcome at hf ⊢
        obtain ⟨r, s'⟩ := outcome
        cases r
      · exact hf.calm hs
      · exact hf.calm hs
      · exact Stays.of_fetched hf
      · exact Stays.of_fetched hf
  | insert tx table t =>
      obtain ⟨r, s', h, hr⟩ := changes_of_insert hs tx table t
      rw [hr]
      cases h with
      | failed calm stays => exact .looks rfl rfl (fun _ _ => Call.noConfusion) calm stays
      | changed edits _ stays last =>
          exact .edits rfl rfl (fun _ _ => Call.noConfusion) edits stays last
  | delete tx rid =>
      obtain ⟨r, s', h, hr, hloc⟩ := changes_of_delete hs tx rid
      rw [hr]
      cases h with
      | failed calm stays =>
          refine .looks rfl ?_ (fun _ _ => Call.noConfusion) calm stays
          cases rid <;> rfl
      | changed edits _ stays last =>
          obtain rfl := hloc _ rfl
          exact .edits rfl rfl (fun _ _ => Call.noConfusion) edits stays last
  | flushPage q => exact move_of_sweeps id perform_map rfl (sweeps_flushPage hs q)
  | flushAll => exact move_of_sweeps id perform_map rfl (sweeps_flushAll hs)
  | flushTx tx => exact move_of_sweeps id perform_map rfl (sweeps_flushTx hs tx)
  | discard q => exact hc.elim
  | release tx q => exact hc.elim
  | complete tx ending =>
      have hx : (Call.complete tx ending).perform s =
        ((complete tx ending s).1.map fun _ => .done, (complete tx ending s).2) := perform_map
      obtain ⟨done, halt, outcome, ended⟩ := complete_ends hs tx ending
      rw [hx]
      exact .ends rfl (outcome.map _) ended

theorem Move.intact (hs : s.Intact T) (h : Move T s e s') : s'.Intact T := by
  cases h with
  | looks _ _ _ calm _ => exact calm.intact hs
  | edits _ _ _ edits _ _ => exact edits.intact_after hs
  | flushes _ _ _ visited => exact visited.intact
  | ends _ _ ended => exact ended.intact hs.locks

/-- A call that has made a change has made it in the last of its stops. -/
theorem Move.edits_of_change {change : Change} (h : Move T s e s') (hc : e.change? = some change) :
    (∀ tx ending, e.call ≠ .complete tx ending) ∧
      ∃ s₁ p p', Edits change.tx s s₁ s' change.rid change.row p p' ∧
        Stays (e.call.stops s) s s₁ ∧ (e.call.stops s).getLast? = some s₁ := by
  cases h with
  | looks _ nothing _ _ _ =>
      rw [hc] at nothing
      cases nothing
  | edits _ change going edits stays last =>
      rw [hc] at change
      cases change
      exact ⟨going, _, _, _, edits, stays, last⟩
  | flushes nothing _ _ _ =>
      rw [hc] at nothing
      cases nothing
  | ends call _ _ =>
      obtain ⟨c, answer⟩ := e
      obtain rfl : c = _ := call
      cases hc

/-- What a call can have done that did not fail for the medium. -/
inductive Step (s : Store) (e : Event) (s' : Store) : Prop
  | looks {tx : TxId} (tx? : e.call.tx? = some tx) (nothing : e.change? = none)
      (going : ∀ tx ending, e.call ≠ .complete tx ending) (calm : Calm tx s s')
      (stays : Stays (e.call.stops s) s s')
  | edits {tx : TxId} {rid : RecordId} {row : Option Row} {s₁ : Store} {p p' : HeapPage}
      (tx? : e.call.tx? = some tx) (change : e.change? = some ⟨tx, rid, row⟩)
      (going : ∀ tx ending, e.call ≠ .complete tx ending)
      (edits : Edits tx s s₁ s' rid row p p') (stays : Stays (e.call.stops s) s s₁)
      (last : (e.call.stops s).getLast? = some s₁)
  | flushes {due : HeapPage → Prop} {pages : List PageId} (nothing : e.change? = none)
      (call : ¬ e.call.IsTransactional) (swept : Swept (Flushed due) pages s s')
  | ends {tx : TxId} {ending : Ending} (call : e.call = .complete tx ending)
      (ok : e.answer = .ok .done) (completes : Completes tx ending s s')

/-- In a sound store a page that cannot be written is a failure of the medium. -/
theorem ioFailed_of_refusal {q : PageId} {p : HeapPage} {err : Error} (hs : s.Sound)
    (hp : s.cached q = some p) (refusal : Refusal s q err) (answer : e.answer = .error err) :
    e.IoFailed := by
  obtain ⟨cause, rfl⟩ := refusal.io hs hp
  rw [Event.IoFailed, answer]
  trivial

/-- The four things that a call can do, if it does not fail for the medium. -/
theorem step_of_perform (hs : s.Sound) (hc : c.IsOrderly) :
    Event.IoFailed ⟨c, (c.perform s).1⟩ ∨ Step s ⟨c, (c.perform s).1⟩ (c.perform s).2 := by
  have move := move_of_perform hs.intact hc
  generalize he : (⟨c, (c.perform s).1⟩ : Event) = e at move ⊢
  cases move with
  | looks tx? nothing going calm stays => exact .inr (.looks tx? nothing going calm stays)
  | edits tx? change going edits stays last =>
      exact .inr (.edits tx? change going edits stays last)
  | @flushes due pages done halt nothing call outcome visited =>
      generalize ha : e.answer = answer at outcome
      cases outcome with
      | all _ => exact .inr (.flushes nothing call (visited.swept hs (Visit.regular_flush due)))
      | upTo _ refusal =>
          obtain ⟨p, hp, _⟩ := visited.halted _ rfl
          exact .inl (ioFailed_of_refusal hs hp refusal ha)
  | @ends tx ending done halt call outcome ended =>
      have hc : c = .complete tx ending := by rw [← call, ← he]
      subst hc
      have hx : (Call.complete tx ending).perform s =
        ((complete tx ending s).1.map fun _ => .done, (complete tx ending s).2) := perform_map
      subst he
      rw [hx]
      rcases complete_cases hs tx ending with ⟨cause, s', h⟩ | ⟨s', h, completes⟩
      · rw [h]
        exact .inl trivial
      · rw [h]
        exact .inr (.ends rfl rfl completes)

theorem Step.sound (hs : s.Sound) (h : Step s e s') : s'.Sound := by
  cases h with
  | looks _ _ _ calm _ => exact calm.sound hs
  | edits _ _ _ edits _ _ => exact edits.sound_after hs
  | flushes _ _ swept => exact swept.sound
  | ends _ _ completes => exact completes.sound

theorem Step.catalog (h : Step s e s') : s'.catalog = s.catalog := by
  cases h with
  | looks _ _ _ calm _ => exact calm.catalog
  | edits _ _ _ edits _ _ => exact edits.puts.catalog.trans edits.calm.catalog
  | flushes _ _ swept => exact swept.catalog
  | ends _ _ completes => exact completes.catalog

theorem run_cons (c : Call) (calls : List Call) (s : Store) :
    run (c :: calls) s =
      (⟨c, (c.perform s).1⟩ :: (run calls (c.perform s).2).1, (run calls (c.perform s).2).2) :=
  rfl

/-- What every step keeps, a run keeps; `σ` is what one remembers of the calls so far. -/
theorem run_induction {σ : Type} (note : σ → Event → σ) {P : σ → Store → Prop}
    {Allowed : Call → Prop} (orderly : ∀ c, Allowed c → c.IsOrderly)
    (step : ∀ {L s s'} {e : Event}, Allowed e.call → s.Sound → P L s →
      e.call.perform s = (e.answer, s') → Step s e s' → P (note L e) s')
    {L : σ} (hs : s.Sound) (h : P L s) {calls : List Call} (hc : ∀ c ∈ calls, Allowed c)
    (io : ∀ e ∈ (run calls s).1, ¬ e.IoFailed) :
    (run calls s).2.Sound ∧ P ((run calls s).1.foldl note L) (run calls s).2 := by
  induction calls generalizing s L with
  | nil => exact ⟨hs, h⟩
  | cons c calls ih =>
      rw [run_cons] at io ⊢
      have hc' := hc c (List.mem_cons_self ..)
      have hstep := (step_of_perform hs (orderly c hc')).resolve_left
        (io _ (List.mem_cons_self ..))
      exact ih (hstep.sound hs) (step hc' hs h (Prod.eta _).symm hstep)
        (fun c hc₁ => hc c (List.mem_cons_of_mem _ hc₁))
        (fun e he => io e (List.mem_cons_of_mem _ he))

theorem orderly_of_transactional (c : Call) (h : c.IsTransactional) : c.IsOrderly := by
  cases c <;> trivial

/-- What every step keeps of all that has happened, a run keeps. -/
theorem run_history {P : List Event → Store → Prop} {Allowed : Call → Prop}
    (orderly : ∀ c, Allowed c → c.IsOrderly)
    (step : ∀ {L s s'} {e : Event}, Allowed e.call → s.Sound → P L s →
      e.call.perform s = (e.answer, s') → Step s e s' → P (L ++ [e]) s')
    {L : List Event} (hs : s.Sound) (h : P L s) {calls : List Call}
    (hc : ∀ c ∈ calls, Allowed c) (io : ∀ e ∈ (run calls s).1, ¬ e.IoFailed) :
    (run calls s).2.Sound ∧ P (L ++ (run calls s).1) (run calls s).2 := by
  have kept := run_induction (fun events e => events ++ [e]) orderly step hs h hc io
  rwa [List.foldl_append_eq_append, ← List.flatMap_def, List.flatMap_singleton'] at kept

end Store
end HeapStore
