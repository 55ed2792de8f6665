import HeapStore.Proofs.Store.Trial

/-!
What a commit comes to when writes fail and tables are missing. A change is in the file once the
commit has come to its page, and it comes to all pages if it is answered well. But it finds the
pages by the locks of the transaction, and these are gone since it last ended, well or not.
-/

namespace HeapStore

/-- The last change that `tx` has made at `rid`, with no end of the transaction behind it, has left
`row` there. -/
def Stands (tx : TxId) (rid : RecordId) (row : Option Row) : List Event → Prop :=
  Since (fun _ e => e.change? = some ⟨tx, rid, row⟩) fun d =>
    (∀ ending, d.call ≠ .complete tx ending) ∧ ∀ row', d.change? ≠ some ⟨tx, rid, row'⟩

/-- The file has `row` in the place of `rid`. -/
def Tables.Shows (T : Tables) (s : Store) (rid : RecordId) (row : Option Row) : Prop :=
  ∃ f, T.page s rid.page = .ok f ∧ (f.get? rid.slot).map Tuple.row = row

namespace Store
open HeapPage
variable {T : Tables} {s s' s₁ : Store} {e : Event} {events : List Event} {tx u : TxId}
  {rid rid' : RecordId} {row row' : Option Row} {p p' : HeapPage} {done : List PageId}
  {halt : Option PageId}

theorem shows_of_content {f : HeapPage} (hf : T.page s rid.page = .ok f)
    (h : f.content.get? rid.slot = row) : T.Shows s rid row :=
  ⟨f, hf, by rw [← content_get?, h]⟩

/-- The page is written as it is cached. -/
theorem Written.shows (h : Written p (T.page s rid.page)) (hrow : p.content.get? rid.slot = row) :
    T.Shows s rid row := by
  obtain ⟨f, hf, _, same⟩ := h
  exact shows_of_content hf (by rw [same, hrow])

/-- `tx` has put `row` at `rid` and may still write to the page, which is cached so or has been
written so. -/
structure Owed (T : Tables) (tx : TxId) (rid : RecordId) (row : Option Row) (s : Store) : Prop where
  locked : s.mode? tx rid.page = some .exclusive
  cached : ∀ p, s.cached rid.page = some p →
    p.content.get? rid.slot = row ∧ ∀ u, p.dirtiedBy = some u → u = tx
  written : (∀ p, s.cached rid.page = some p → p.dirtiedBy = none) → T.Shows s rid row

theorem Owed.first (edits : Edits tx s s₁ s' rid row p p') : Owed T tx rid row s' where
  locked := edits.locked_after
  cached r hr := by
    obtain rfl : p' = r := Option.some.inj (edits.cached_self.symm.trans hr)
    constructor
    · rw [edits.content, Content.get?_set row edits.slot_lt, if_pos rfl]
    · intro u hu
      rw [edits.owner] at hu
      exact (Option.some.inj hu).symm
  written clean := by
    have := clean p' edits.cached_self
    rw [edits.owner] at this
    cases this

/-- A page that is read afresh is as it was written. -/
theorem Owed.looks (hs : s.Intact T) (h : Owed T tx rid row s) (calm : Calm u s s') :
    Owed T tx rid row s' := by
  have kept (shows : T.Shows s rid row) : T.Shows s' rid row := by
    obtain ⟨f, hf, hrow⟩ := shows
    exact ⟨f, calm.page_ok hf, hrow⟩
  refine ⟨calm.exclusive tx _ h.locked, ?_, ?_⟩
  · intro p hp
    rcases calm.cached rid.page with same | ⟨clean, read⟩
    · exact h.cached p (same ▸ hp)
    · have file := read p hp
      obtain ⟨f, hf, hrow⟩ := kept (h.written clean)
      rw [page_of_onFile (calm.tables hs.tables) file] at hf
      cases hf
      refine ⟨by rw [content_get?, hrow], ?_⟩
      intro v hv
      rw [(asRead_of_onFile file).clean] at hv
      cases hv
  · intro clean
    apply kept
    rcases calm.cached rid.page with same | ⟨clean₀, _⟩
    · exact h.written (same ▸ clean)
    · exact h.written clean₀

/-- Another slot of the page may be changed, by the same transaction. -/
theorem Owed.edits (hs : s.Intact T) (h : Owed T tx rid row s)
    (edits : Edits u s s₁ s' rid' row' p p') (other : ¬ (u = tx ∧ rid' = rid)) :
    Owed T tx rid row s' := by
  have h₁ := h.looks hs edits.calm
  have locked : s'.mode? tx rid.page = some .exclusive := by
    rw [edits.mode?]
    exact h₁.locked
  by_cases hq : rid.page = rid'.page
  · have alone : tx = u := edits.writer (hq ▸ h₁.locked)
    have slot : rid.slot ≠ rid'.slot :=
      fun same => other ⟨alone.symm, RecordId.ext hq.symm same.symm⟩
    have here : s'.cached rid.page = some p' := hq ▸ edits.cached_self
    refine ⟨locked, ?_, ?_⟩
    · intro r hr
      obtain rfl : p' = r := Option.some.inj (here.symm.trans hr)
      constructor
      · rw [edits.content, Content.get?_set row' edits.slot_lt, if_neg slot]
        exact (h₁.cached p (hq ▸ edits.here)).1
      · intro v hv
        rw [edits.owner] at hv
        exact (Option.some.inj hv).symm.trans alone.symm
    · intro clean
      have := clean p' here
      rw [edits.owner] at this
      cases this
  · have here : s'.cached rid.page = s₁.cached rid.page := edits.cached_other hq
    refine ⟨locked, fun r hr => h₁.cached r (here ▸ hr), ?_⟩
    intro clean
    obtain ⟨f, hf, hrow⟩ := h₁.written (here ▸ clean)
    exact ⟨f, by rw [edits.page, hf], hrow⟩

theorem Owed.stays (h : Owed T tx rid row s) (mode : s'.mode? tx rid.page = s.mode? tx rid.page)
    (cached : s'.cached rid.page = s.cached rid.page)
    (page : T.page s' rid.page = T.page s rid.page) :
    Owed T tx rid row s' where
  locked := mode.trans h.locked
  cached p hp := h.cached p (cached ▸ hp)
  written clean := by
    obtain ⟨f, hf, hrow⟩ := h.written (cached ▸ clean)
    exact ⟨f, page.trans hf, hrow⟩

theorem Owed.enter (h : Owed T tx rid row s) (t : Trial) : Owed T tx rid row (t.enter s) :=
  ⟨h.locked, h.cached, h.written⟩

theorem Owed.flushes {due : HeapPage → Prop} (h : Owed T tx rid row s)
    (visited : Visited T (.flush due) done halt s s') : Owed T tx rid row s' := by
  have mode : s'.mode? tx rid.page = s.mode? tx rid.page := by
    simp only [mode?, visited.locks]
  rcases visited.cases rid.page with ⟨_, cached, page⟩ | ⟨p, p', hp, hp', turn⟩
  · exact h.stays mode cached page
  · rcases turn with ⟨_, turn⟩ | ⟨_, same, page⟩
    · generalize hf : T.page s rid.page = f at turn
      generalize hf' : T.page s' rid.page = f' at turn
      cases turn with
      | spared _ => exact h.stays mode (hp'.trans hp.symm) (hf'.trans hf.symm)
      | written _ w =>
          refine ⟨mode.trans h.locked, ?_, fun _ => (hf' ▸ w).shows (h.cached p hp).1⟩
          intro r hr
          obtain rfl : p.mark none = r := Option.some.inj (hp'.symm.trans hr)
          refine ⟨(h.cached p hp).1, ?_⟩
          rintro u ⟨⟩
    · subst same
      exact h.stays mode (hp'.trans hp.symm) page

/-- Another transaction that ends does not come to the page. -/
theorem Owed.ends {ending : Ending} {r : Except Error Answer} (hs : s.Intact T)
    (h : Owed T tx rid row s) (hu : u ≠ tx) (outcome : Outcome s (ending.pages u s) done halt r)
    (ended : Ended T u ending done halt s s') : Owed T tx rid row s' := by
  obtain ⟨cached, page⟩ :=
    ended.unreached hs outcome (Ending.not_reaches hs.locks h.locked hu)
  exact h.stays (by rw [ended.mode hs.locks, if_neg hu.symm]) cached page

theorem Owed.move (hs : s.Intact T) (h : Owed T tx rid row s) (move : Move T s e s')
    (going : ∀ ending, e.call ≠ .complete tx ending)
    (other : ∀ row', e.change? ≠ some ⟨tx, rid, row'⟩) : Owed T tx rid row s' := by
  cases move with
  | looks _ _ _ calm _ => exact h.looks hs calm
  | edits _ change _ edits _ _ =>
      apply h.edits hs edits
      rintro ⟨rfl, rfl⟩
      exact other _ change
  | flushes _ _ _ visited => exact h.flushes visited
  | ends call outcome ended =>
      refine h.ends hs ?_ outcome ended
      rintro rfl
      exact going _ call

/-- The changes that stand are owed, whatever else has failed. -/
theorem attempt_owed {config : Config} (h : Founded T config s) {trials : List Trial}
    (tables : ∀ t ∈ trials, T.Hold t.catalog) (orderly : ∀ t ∈ trials, t.call.IsOrderly)
    (stands : Stands tx rid row (attempt trials s).1) :
    Owed T tx rid row (attempt trials s).2 := by
  have kept := attempt_induction (L := []) (Q := fun _ => True) (R := fun _ => True)
    (P := fun events s => ∀ tx rid row, Stands tx rid row events → Owed T tx rid row s)
    (fun owed tx rid row stands => ?enter) (fun hs owed move _ _ tx rid row stands => ?step)
    h.intact (fun tx rid row stands => (not_since_nil stands).elim) tables orderly
    (fun _ _ => trivial) (fun _ _ => trivial)
  · exact kept.2 tx rid row stands
  case enter => exact (owed tx rid row stands).enter _
  case step =>
    rcases stands.cases with change | ⟨before, going, other⟩
    · obtain ⟨_, _, _, _, edits, _⟩ := move.edits_of_change change
      exact .first edits
    · exact (owed tx rid row before).move hs move going other

/-- A commit that comes to the page makes the change good. -/
theorem Owed.commit (h : Owed T tx rid row s) (ended : Ended T tx .commit done halt s s')
    (seen : rid.page ∈ done) : T.Shows s' rid row := by
  cases hp : s.cached rid.page with
  | none =>
      have page : T.page s' rid.page = T.page s rid.page :=
        (ended.visited.others rid.page (.inr hp)).2
      obtain ⟨f, hf, hrow⟩ := h.written (by simp [hp])
      exact ⟨f, page.trans hf, hrow⟩
  | some p =>
      obtain ⟨hrow, own⟩ := h.cached p hp
      obtain ⟨_, p', _, turn⟩ := ended.visited.turn rid.page seen p hp
      generalize hf : T.page s rid.page = f at turn
      generalize hf' : Tables.page T { s' with pool.locks := s.pool.locks } rid.page = f' at turn
      cases turn with
      | own _ w => exact Written.shows (show Written p (T.page s' rid.page) from hf' ▸ w) hrow
      | clean clean =>
          obtain ⟨g, hg, hrow⟩ := h.written (by
            intro r hr
            rw [hp] at hr
            cases hr
            exact clean)
          exact ⟨g, hf'.trans (hf.symm.trans hg), hrow⟩
      | foreign ho hu => exact absurd (own _ ho) hu

/-- A commit is answered well unless a page that the transaction has changed and may see cannot be
written. Of the changes since the transaction last ended those are in their files that are on a page
before that one, and all if there is none; and pages that the transaction has not locked are left
alone. -/
theorem commit_writes_standing_changes {config : Config} {s s₂ s₃ : Store} {trials : List Trial}
    {d : Trial} {events : List Event} {answer : Except Error Answer} {tx : TxId}
    (h : Founded T config s) (run : attempt trials s = (events, s₂))
    (last : d.perform s₂ = (answer, s₃)) (commit : d.call = .complete tx .commit)
    (tables : ∀ t ∈ trials ++ [d], T.Hold t.catalog)
    (orderly : ∀ t ∈ trials, t.call.IsOrderly) :
    ((∃ a, answer = .ok a) ↔ ∀ q, ¬ Stuck tx .commit (d.enter s₂) q) ∧
    ((∃ a, answer = .ok a) → ∀ rid row, Stands tx rid row events → T.Shows s₃ rid row) ∧
    (∀ rid row, Stands tx rid row events → ¬ Stuck tx .commit (d.enter s₂) rid.page →
      ¬ Hindered tx .commit (d.enter s₂) rid.page → T.Shows s₃ rid row) ∧
    ∀ q, s₂.mode? tx q = none → s₃.cached q = s₂.cached q ∧ T.page s₃ q = T.page s₂ q := by
  have tables₂ : ∀ t ∈ trials, T.Hold t.catalog := fun t ht => tables t (by simp [ht])
  have intact := attempt_intact h.intact tables₂ orderly
  have owed {rid row} : Stands tx rid row (attempt trials s).1 →
      Owed T tx rid row (attempt trials s).2 := attempt_owed h tables₂ orderly
  rw [run] at intact owed
  have entered := intact.enter (tables d (by simp))
  obtain ⟨done, halt, outcome, ended⟩ := ends_of_perform entered commit last
  have ok_iff := ended.ok_iff entered outcome
  have shows : ∀ rid row, Stands tx rid row events → ¬ Stuck tx .commit (d.enter s₂) rid.page →
      ¬ Hindered tx .commit (d.enter s₂) rid.page →
      T.Shows s₃ rid row := by
    intro rid row stands unstuck free
    have entry := (owed stands).enter d
    refine entry.commit ended ?_
    have reached : Ending.commit.Reaches ((d.enter s₂).mode? tx rid.page) := by
      rw [entry.locked]
      exact Ending.commit.reaches_exclusive
    refine ((ended.seen_iff entered outcome reached).mpr free).resolve_right ?_
    exact fun stuck => unstuck (ended.stuck entered outcome stuck)
  refine ⟨ok_iff, ?_, shows, ?_⟩
  · intro ok rid row stands
    have free := ok_iff.mp ok
    exact shows rid row stands (free _) (fun ⟨q, _, stuck⟩ => free q stuck)
  · intro q unlocked
    apply ended.unreached entered outcome
    rw [show (d.enter s₂).mode? tx q = none from unlocked]
    exact Bool.false_ne_true

def sampleTrial : Trial :=
  ⟨sampleInsert, sampleCatalog, fun _ _ => false⟩

def sampleCommit : Trial :=
  ⟨.complete ⟨1⟩ .commit, sampleCatalog, fun _ _ => false⟩

def refusedFlush : Trial :=
  ⟨.flushPage samplePage, sampleCatalog, fun _ _ => true⟩

/-- A row is stored and its page cannot be flushed, but it can be committed. -/
theorem commit_writes_unflushed_row :
    let s := sample [] 1 (by decide)
    let s₂ := (attempt [sampleTrial, refusedFlush] s).2
    (Tables.ofCatalog sampleCatalog).Shows (sampleCommit.perform s₂).2 ⟨samplePage, 0⟩
      (some [some (.string "a")]) := by
  intro s s₂
  have founded : Founded (.ofCatalog sampleCatalog) (sampleConfig 1) s :=
    (opened_sample (by decide) (by decide)).founded
  have run : attempt [sampleTrial, refusedFlush] s =
      ((attempt [sampleTrial, refusedFlush] s).1, s₂) := (Prod.eta _).symm
  have written := commit_writes_standing_changes (d := sampleCommit) founded run
    (Prod.eta _).symm rfl
    (by simp [sampleTrial, refusedFlush, sampleCommit, hold_sampleCatalog])
    (by simp [sampleTrial, refusedFlush, Call.IsOrderly, sampleInsert])
  have stands : Stands ⟨1⟩ ⟨samplePage, 0⟩ (some [some (.string "a")])
      (attempt [sampleTrial, refusedFlush] s).1 := by
    refine ⟨[], ⟨sampleInsert, (sampleTrial.perform s).1⟩,
      (attempt [refusedFlush] (sampleTrial.perform s).2).1, rfl, by decide +kernel, ?_⟩
    intro e he
    obtain ⟨t, ht, call⟩ := call_of_mem_attempt he
    rw [List.mem_singleton.mp ht] at call
    obtain ⟨c, answer⟩ := e
    obtain rfl : c = .flushPage samplePage := call
    exact ⟨fun _ => Call.noConfusion, fun _ => nofun⟩
  have ok : (sampleCommit.perform s₂).1.isOk := by
    decide +kernel
  exact written.2.1 (exists_of_isOk ok) _ _ stands

/-- A row is committed while its table is missing, and once more when the table is there. -/
def retriedCommit : List Trial :=
  [sampleTrial, { sampleCommit with catalog := {} }, sampleCommit]

/-- The second commit is answered well, but the row is not in the file. -/
theorem retried_commit_writes_nothing :
    let r := attempt retriedCommit (sample [] 1 (by decide))
    r.1.map Event.change? = [some ⟨⟨1⟩, ⟨samplePage, 0⟩, some [some (.string "a")]⟩, none, none] ∧
      (r.1.map fun e => e.answer.isOk) = [true, false, true] ∧
      (r.2.onFile samplePage).toOption.map HeapPage.tuples = some [] := by
  decide +kernel

end Store
end HeapStore
