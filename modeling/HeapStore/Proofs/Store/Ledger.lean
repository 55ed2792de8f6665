import HeapStore.Proofs.Store.View

/-!
The ledger of a run: the rows that are committed, and what each running transaction has changed
since. It is kept from the calls and their answers alone. As long as nobody flushes, the files show
the committed rows, and a dirty page shows them with the changes of the transaction that has made
it; every page that a running transaction has changed is dirty until it ends.
-/

namespace HeapStore

/-- `drafts` are the changes of the running transactions, in the order in which they were made. -/
structure Ledger where
  rows : RecordId → Option Row
  drafts : TxId → List (RecordId × Option Row)

namespace Ledger
variable {rows rows' : RecordId → Option Row} {rid : RecordId}

def put (rows : RecordId → Option Row) (change : RecordId × Option Row) : RecordId → Option Row :=
  fun rid => if rid = change.1 then change.2 else rows rid

/-- The rows after changes that were made one after the other. -/
def apply (rows : RecordId → Option Row) (changes : List (RecordId × Option Row)) :
    RecordId → Option Row :=
  changes.foldl put rows

/-- Sets down what `tx` has changed since it began. -/
def setDrafts (L : Ledger) (tx : TxId) (changes : List (RecordId × Option Row)) : Ledger :=
  { L with drafts := fun u => if u = tx then changes else L.drafts u }

/-- Enters a call: a commit makes the changes of its transaction good, an abort forgets them, and
a row that is stored or deleted is one change more. -/
def record (L : Ledger) (e : Event) : Ledger :=
  match e.call with
  | .complete tx .commit => { L with rows := apply L.rows (L.drafts tx) }.setDrafts tx []
  | .complete tx .abort => L.setDrafts tx []
  | _ =>
    match e.change? with
    | some ⟨tx, rid, row⟩ => L.setDrafts tx (L.drafts tx ++ [(rid, row)])
    | none => L

/-- The rows as `tx` sees them. -/
def seenBy (L : Ledger) (tx : TxId) : RecordId → Option Row :=
  apply L.rows (L.drafts tx)

theorem apply_append (rows : RecordId → Option Row)
    (changes : List (RecordId × Option Row)) (rid : RecordId) (row : Option Row) :
    apply rows (changes ++ [(rid, row)]) = put (apply rows changes) (rid, row) := by
  simp [apply]

/-- What becomes of one row depends on that row only. -/
theorem apply_congr (changes : List (RecordId × Option Row)) (h : rows rid = rows' rid) :
    apply rows changes rid = apply rows' changes rid := by
  induction changes generalizing rows rows' with
  | nil => exact h
  | cons change changes ih =>
      apply ih
      simp only [put, h]

/-- A row that no change is about stays. -/
theorem apply_of_not_mem {changes : List (RecordId × Option Row)}
    (h : ∀ change ∈ changes, change.1 ≠ rid) : apply rows changes rid = rows rid := by
  induction changes generalizing rows with
  | nil => rfl
  | cons change changes ih =>
      have rest : apply (put rows change) changes rid = put rows change rid :=
        ih fun c hc => h c (List.mem_cons_of_mem _ hc)
      refine Eq.trans rest ?_
      rw [put, if_neg (h change (List.mem_cons_self ..)).symm]

theorem drafts_setDrafts (L : Ledger) (tx u : TxId) (changes : List (RecordId × Option Row)) :
    (L.setDrafts tx changes).drafts u = if u = tx then changes else L.drafts u :=
  rfl

/-- One change more is seen by who has made it. -/
theorem seenBy_append (L : Ledger) (tx u : TxId) (rid r : RecordId) (row : Option Row) :
    (L.setDrafts tx (L.drafts tx ++ [(rid, row)])).seenBy u r =
      if u = tx ∧ r = rid then row else L.seenBy u r := by
  unfold seenBy
  rw [drafts_setDrafts]
  by_cases hu : u = tx
  · rw [if_pos hu, apply_append, put, hu]
    simp [setDrafts]
  · rw [if_neg hu, if_neg (fun h => hu h.1)]
    rfl

/-- An entry for a call that ends no transaction. -/
theorem record_of_going {L : Ledger} {e : Event} (h : ∀ tx ending, e.call ≠ .complete tx ending) :
    L.record e = match e.change? with
      | some ⟨tx, rid, row⟩ => L.setDrafts tx (L.drafts tx ++ [(rid, row)])
      | none => L := by
  unfold record
  split
  next hc => exact absurd hc (h _ _)
  next hc => exact absurd hc (h _ _)
  next => rfl

end Ledger

namespace Store
variable {s s' s₁ : Store} {L : Ledger} {e : Event} {q : PageId} {tx u : TxId} {c : Content}

/-- The row that the file has at a record id. A page that cannot be read has none. -/
def rowOnFile (s : Store) (rid : RecordId) : Option Row :=
  match s.onFile rid.page with
  | .ok p => (p.get? rid.slot).map Tuple.row
  | .error _ => none

def storedRow (file : Except Error Content) (i : Nat) : Option Row :=
  match file with
  | .ok c => c.get? i
  | .error _ => none

theorem rowOnFile_eq (s : Store) (rid : RecordId) :
    s.rowOnFile rid = storedRow (s.stored rid.page) rid.slot := by
  unfold rowOnFile stored
  cases s.onFile rid.page with
  | ok p => exact (HeapPage.content_get? p rid.slot).symm
  | error e => rfl

/-- The ledger says what the files and the drafts show. -/
structure Tells (L : Ledger) (s : Store) : Prop where
  rows : ∀ q i, storedRow (s.stored q) i = L.rows ⟨q, i⟩
  drafts : ∀ {q tx c}, s.draft q = some (tx, c) → ∀ i, c.get? i = L.seenBy tx ⟨q, i⟩
  dirty : ∀ {tx change}, change ∈ L.drafts tx → ∃ c, s.draft change.1.page = some (tx, c)

/-- A transaction sees the committed rows of a page that it has not changed. -/
theorem Tells.unchanged (h : Tells L s) (hq : ∀ c, s.draft q ≠ some (tx, c)) (i : Nat) :
    L.seenBy tx ⟨q, i⟩ = L.rows ⟨q, i⟩ := by
  apply Ledger.apply_of_not_mem
  intro change hc hrid
  obtain ⟨c, hd⟩ := h.dirty hc
  rw [hrid] at hd
  exact hq c hd

/-- Looking around is not entered, and shows no row that was not there. -/
theorem Tells.looks (hs : s.Sound) (h : Tells L s) (calm : Calm tx s s') : Tells L s' where
  rows q i := by
    rw [← h.rows q i]
    rcases calm.stored q with same | ⟨out, schema, grown⟩
    · rw [same]
    · rw [out, grown]
      exact Content.get?_blank schema i
  drafts hd i := by
    rw [calm.draft hs] at hd
    exact h.drafts hd i
  dirty hc := by
    rw [calm.draft hs]
    exact h.dirty hc

/-- What the transaction has found on the page is what it sees. -/
theorem Tells.found {rid : RecordId} {row : Option Row} {p p' : HeapPage} (hs : s.Sound)
    (ht : s.Settled) (h : Tells L s) (edits : Edits tx s s₁ s' rid row p p') (i : Nat) :
    p.content.get? i = L.seenBy tx ⟨rid.page, i⟩ := by
  have h₁ := h.looks hs edits.calm
  have shown := (edits.calm.settled hs ht).shown edits.here
  cases hd : s₁.draft rid.page with
  | some d =>
      obtain ⟨u, c⟩ := d
      obtain rfl := edits.alone hs hd
      rw [shown_of_draft hd] at shown
      cases shown
      exact h₁.drafts hd i
  | none =>
      rw [shown_of_no_draft hd] at shown
      rw [h₁.unchanged (by simp [hd]), ← h₁.rows, shown]
      rfl

theorem Tells.dirty_of_edits {rid : RecordId} {row : Option Row} {p p' : HeapPage} (hs : s.Sound)
    (h : Tells L s) (edits : Edits tx s s₁ s' rid row p p') {change : RecordId × Option Row}
    (hc : change ∈ L.drafts u) : ∃ c, s'.draft change.1.page = some (u, c) := by
  obtain ⟨c, hd⟩ := (h.looks hs edits.calm).dirty hc
  rw [edits.draft]
  by_cases hq : change.1.page = rid.page
  · rw [hq] at hd
    obtain rfl := edits.alone hs hd
    exact ⟨_, if_pos hq⟩
  · exact ⟨c, by rw [if_neg hq, hd]⟩

theorem Tells.edits {rid : RecordId} {row : Option Row} {p p' : HeapPage} (hs : s.Sound)
    (ht : s.Settled) (h : Tells L s) (edits : Edits tx s s₁ s' rid row p p') :
    Tells (L.setDrafts tx (L.drafts tx ++ [(rid, row)])) s' := by
  have h₁ := h.looks hs edits.calm
  constructor
  · intro q i
    rw [edits.stored]
    exact h₁.rows q i
  · intro q u c hd i
    rw [edits.draft] at hd
    rw [Ledger.seenBy_append]
    by_cases hq : q = rid.page
    · rw [if_pos hq] at hd
      cases hd
      rw [Content.get?_set row edits.slot_lt, hq, h.found hs ht edits]
      by_cases hi : i = rid.slot
      · simp [hi]
      · have hne : (⟨rid.page, i⟩ : RecordId) ≠ rid := fun h => hi (congrArg RecordId.slot h)
        simp [hi, hne]
    · rw [if_neg hq] at hd
      have hne : (⟨q, i⟩ : RecordId) ≠ rid := fun h => hq (congrArg RecordId.page h)
      rw [if_neg (fun h => hne h.2)]
      exact h₁.drafts hd i
  · intro u change hc
    rw [Ledger.drafts_setDrafts] at hc
    by_cases hu : u = tx
    · rw [if_pos hu, ← hu] at hc
      rcases List.mem_append.mp hc with hmem | hnew
      · exact h.dirty_of_edits hs edits hmem
      · obtain rfl := List.mem_singleton.mp hnew
        exact ⟨_, by rw [edits.draft, if_pos rfl, hu]⟩
    · rw [if_neg hu] at hc
      exact h.dirty_of_edits hs edits hc

/-- The drafts of the other transactions are there still. -/
theorem Tells.dirty_of_completes {ending : Ending} {change : RecordId × Option Row} (hs : s.Sound)
    (ht : s.Settled) (h : Tells L s) (completes : Completes tx ending s s')
    (hc : change ∈ (L.setDrafts tx []).drafts u) :
    ∃ c, s'.draft change.1.page = some (u, c) := by
  rw [Ledger.drafts_setDrafts] at hc
  by_cases hu : u = tx
  · rw [if_pos hu] at hc
    cases hc
  · rw [if_neg hu] at hc
    obtain ⟨c, hd⟩ := h.dirty hc
    exact ⟨c, (completes.draft_iff hs ht).mpr ⟨hd, hu⟩⟩

theorem Tells.commits (hs : s.Sound) (ht : s.Settled) (h : Tells L s)
    (completes : Completes tx .commit s s') :
    Tells ({ L with rows := L.seenBy tx }.setDrafts tx []) s' := by
  constructor
  · intro q i
    rw [completes.stored hs ht]
    show _ = L.seenBy tx ⟨q, i⟩
    cases hd : s.draft q with
    | none => rw [h.unchanged (by simp [hd]), ← h.rows]
    | some d =>
        obtain ⟨u, c⟩ := d
        by_cases hu : u = tx
        · simp only [hu, and_self, if_true]
          exact h.drafts (hu ▸ hd) i
        · simp only [hu, and_false, if_false]
          rw [h.unchanged (by simp [hd, hu]), ← h.rows]
  · intro q u c hd i
    obtain ⟨hd, hu⟩ := (completes.draft_iff hs ht).mp hd
    rw [h.drafts hd i]
    show _ = Ledger.apply (L.seenBy tx) (if u = tx then [] else L.drafts u) ⟨q, i⟩
    rw [if_neg hu]
    apply Ledger.apply_congr
    exact (h.unchanged (by simp [hd, hu]) i).symm
  · intro u change hc
    exact h.dirty_of_completes hs ht completes hc

theorem Tells.aborts (hs : s.Sound) (ht : s.Settled) (h : Tells L s)
    (completes : Completes tx .abort s s') : Tells (L.setDrafts tx []) s' := by
  constructor
  · intro q i
    rw [completes.stored hs ht]
    cases hd : s.draft q with
    | none => exact h.rows q i
    | some d =>
        simp only [reduceCtorEq, false_and, if_false]
        exact h.rows q i
  · intro q u c hd i
    obtain ⟨hd, hu⟩ := (completes.draft_iff hs ht).mp hd
    rw [h.drafts hd i, Ledger.seenBy, Ledger.seenBy, Ledger.drafts_setDrafts, if_neg hu]
    rfl
  · intro u change hc
    exact h.dirty_of_completes hs ht completes hc

/-- The ledger keeps telling, whatever a transaction does next. -/
theorem Tells.step (hs : s.Sound) (ht : s.Settled) (h : Tells L s)
    (hc : e.call.IsTransactional) (step : Step s e s') : Tells (L.record e) s' := by
  cases step with
  | looks _ nothing going calm _ =>
      rw [Ledger.record_of_going going, nothing]
      exact h.looks hs calm
  | edits _ change going edits _ _ =>
      rw [Ledger.record_of_going going, change]
      exact h.edits hs ht edits
  | flushes _ call _ => exact absurd hc call
  | @ends tx ending call _ completes =>
      unfold Ledger.record
      rw [call]
      cases ending with
      | commit => exact h.commits hs ht completes
      | abort => exact h.aborts hs ht completes

end Store
end HeapStore
