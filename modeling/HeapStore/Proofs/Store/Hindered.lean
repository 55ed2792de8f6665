import HeapStore.Proofs.Store.Changed
import HeapStore.Proofs.Store.Trial

/-!
What an abort comes to when writes fail and tables are missing. Pages are given up in the order of
their ids. One that was flushed has to be written once more, and where that fails the abort is over:
the pages behind are left as they are, dirty still, and yet the transaction loses its locks.
-/

namespace HeapStore
namespace Store
open HeapPage
variable {T : Tables} {s s' s₁ : Store} {e : Event} {events : List Event} {tx u : TxId} {q : PageId}
  {p p₀ p' : HeapPage} {done pages : List PageId} {halt : Option PageId}

theorem Rests.enter (h : Rests tx q p₀ p s) (t : Trial) : Rests tx q p₀ p (t.enter s) :=
  ⟨h.here, h.keeps, h.owner, h.locked⟩

section Ended
variable {r : Except Error Answer}

/-- A page that is seen to is clean afterwards and shows what it went back to. -/
theorem Rests.abort (hs : s.Intact T) (outcome : Outcome s (Ending.abort.pages tx s) done halt r)
    (h : Ended T tx .abort done halt s s') (rests : Rests tx q p₀ p s)
    (free : ¬ Hindered tx .abort s q) :
    ∃ p', s'.cached q = some p' ∧ p₀.Keeps p' ∧ p'.dirtiedBy = none ∧ p₀.Reverts p'.content := by
  have seen := (h.seen_iff hs outcome rests.locked).mpr free
  rcases h.cases q with ⟨⟨unseen, ne⟩ | absent, _⟩ | ⟨r, p', hr, hp', turn⟩
  · exact (seen.elim unseen ne).elim
  · rw [rests.here] at absent
    cases absent
  · obtain rfl : r = p := Option.some.inj (hr.symm.trans rests.here)
    refine ⟨p', hp', ?_⟩
    rcases turn with ⟨_, turn⟩ | ⟨_, _, c, reverts, restored⟩
    · have keeps := rests.keeps.trans (RolledBack.keeps turn)
      refine ⟨keeps, RolledBack.clean turn rests.owner, keeps.reverts.mp ?_⟩
      exact Ending.turn_reverts (hs.pages q r hr).sound turn rests.owner
    · refine ⟨rests.keeps.trans restored.toKeeps, restored.clean, ?_⟩
      rw [restored.content]
      exact rests.keeps.reverts.mp reverts

/-- A page that is not seen to stays as it is. -/
theorem Ended.left (hs : s.Intact T) (outcome : Outcome s (Ending.abort.pages tx s) done halt r)
    (h : Ended T tx .abort done halt s s') (locked : s.mode? tx q = some .exclusive)
    (hindered : Hindered tx .abort s q) : s'.cached q = s.cached q := by
  have unseen := mt (h.seen_iff hs outcome locked).mp (not_not_intro hindered)
  exact (h.visited.others q (.inl (not_or.mp unseen))).1

/-- The pages that are left dirty by `tx`. -/
theorem Ended.dirty_iff (hs : s.Intact T)
    (outcome : Outcome s (Ending.abort.pages tx s) done halt r)
    (h : Ended T tx .abort done halt s s') (q : PageId) (p : HeapPage) :
    s'.cached q = some p ∧ p.dirtiedBy = some tx ↔
      s.cached q = some p ∧ p.dirtiedBy = some tx ∧
        (s.mode? tx q ≠ some .exclusive ∨ Hindered tx .abort s q) := by
  have seen_iff (locked : s.mode? tx q = some .exclusive) := h.seen_iff hs outcome locked
  have locked (seen : q ∈ done ∨ halt = some q) : s.mode? tx q = some .exclusive :=
    (Ending.mem_pages hs.locks).mp (outcome.mem seen)
  rcases h.cases q with ⟨hq, cached, _⟩ | ⟨r, p', hr, hp', turn⟩
  · rw [cached]
    constructor
    · rintro ⟨hp, ho⟩
      refine ⟨hp, ho, ?_⟩
      rcases hq with unseen | absent
      · by_cases hx : s.mode? tx q = some .exclusive
        · exact .inr (Classical.not_not.mp (mt (seen_iff hx).mpr (not_or.mpr unseen)))
        · exact .inl hx
      · rw [hp] at absent
        cases absent
    · exact fun h => ⟨h.1, h.2.1⟩
  · have seen : q ∈ done ∨ halt = some q := turn.imp And.left And.left
    have free := (seen_iff (locked seen)).mp seen
    constructor
    · rintro ⟨hp, ho⟩
      obtain rfl : p' = p := Option.some.inj (hp'.symm.trans hp)
      rcases turn with ⟨_, turn⟩ | ⟨_, turn⟩
      · exact absurd ho (Ending.owner_ne turn)
      · obtain ⟨_, _, _, restored⟩ := turn
        rw [restored.clean] at ho
        cases ho
    · rintro ⟨_, _, unlocked | hindered⟩
      · exact absurd (locked seen) unlocked
      · exact absurd hindered free

end Ended

/-- Whatever transactions have ended, their ends have been answered well. -/
def EndWell (events : List Event) : Prop :=
  ∀ e ∈ events, ∀ tx ending, e.call = .complete tx ending → ∃ a, e.answer = .ok a

theorem attempt_anchored {config : Config} (h : Founded T config s) {trials : List Trial}
    (tables : ∀ t ∈ trials, T.Hold t.catalog) (orderly : ∀ t ∈ trials, t.call.IsOrderly)
    (well : EndWell (attempt trials s).1) :
    Anchored (attempt trials s).1 (attempt trials s).2 ∧ (attempt trials s).2.Owned := by
  have kept := attempt_induction (P := fun events s => Anchored events s ∧ s.Owned) (L := [])
    (Q := fun e => ∀ tx ending, e.call = .complete tx ending → ∃ a, e.answer = .ok a)
    (R := fun _ => True) id (fun hs held move well _ => held.1.move hs held.2 move well) h.intact
    ⟨?_, h.owned⟩ tables orderly well (fun _ _ => trivial)
  · exact kept.2
  · intro q p hp
    rw [cached_of_new h.pool] at hp
    cases hp

theorem Rests.attempt {trials : List Trial} (hs : s.Intact T) (h : Rests tx q p₀ p s)
    (tables : ∀ t ∈ trials, T.Hold t.catalog) (orderly : ∀ t ∈ trials, t.call.IsOrderly)
    (going : ∀ t ∈ trials, ∀ ending, t.call ≠ .complete tx ending)
    (kept : ∀ m ∈ attemptStops trials s, (m.cached q).isSome) :
    ∃ p', Rests tx q p₀ p' (attempt trials s).2 := by
  refine (attempt_induction (P := fun _ s => ∃ p', Rests tx q p₀ p' s) (L := [])
    (Q := fun e => ∀ ending, e.call ≠ .complete tx ending) (R := fun m => (m.cached q).isSome)
    ?_ ?_ hs ⟨p, h⟩ tables orderly ?_ kept).2
  · rintro _ s t ⟨p', rests⟩
    exact ⟨p', rests.enter t⟩
  · rintro _ s s' e hs ⟨p', rests⟩ move going kept
    exact rests.move hs move going kept
  · intro e he
    obtain ⟨t, ht, same⟩ := call_of_mem_attempt he
    rw [same]
    exact going t ht

/-- From the first change of a page on, as long as it stays in the cache and the transaction goes on,
it goes back to what it was before; and that is what it showed if transactions have ended well. -/
theorem rests_of_first_change {config : Config} {s : Store} {before between : List Trial} {c : Trial}
    {rid : RecordId} {row : Option Row} (h : Founded T config s)
    (tables : ∀ t ∈ before ++ c :: between, T.Hold t.catalog)
    (orderly : ∀ t ∈ before ++ c :: between, t.call.IsOrderly)
    (change : Event.change? ⟨c.call, (c.perform (attempt before s).2).1⟩ = some ⟨tx, rid, row⟩)
    (first : ¬ Changed tx rid.page (attempt before s).1)
    (going : ∀ t ∈ between, ∀ ending, t.call ≠ .complete tx ending)
    (kept : ∀ m ∈ attemptStops between (c.perform (attempt before s).2).2,
      (m.cached rid.page).isSome) :
    ∃ m p₀ p, (c.stops (attempt before s).2).getLast? = some m ∧ m.cached rid.page = some p₀ ∧
      p₀.Sound ∧ Rests tx rid.page p₀ p (attempt (before ++ c :: between) s).2 ∧
      (EndWell (attempt before s).1 → p₀.Reverts p₀.content) := by
  have tables₀ : ∀ t ∈ before, T.Hold t.catalog := fun t ht => tables t (by simp [ht])
  have orderly₀ : ∀ t ∈ before, t.call.IsOrderly := fun t ht => orderly t (by simp [ht])
  have intact₀ := attempt_intact h.intact tables₀ orderly₀
  have anchored := attempt_anchored h tables₀ orderly₀
  rw [attempt_append, attempt_cons]
  generalize attempt before s = begun at *
  obtain ⟨events₀, s₀⟩ := begun
  have entered := intact₀.enter (tables c (by simp))
  have move := move_of_perform entered (orderly c (by simp))
  obtain ⟨_, m, p₀, p₁, edits, _, last⟩ := move.edits_of_change change
  have sound := ((edits.calm.intact entered).pages _ p₀ edits.here).sound
  obtain ⟨p, rests⟩ := (Rests.first edits).attempt (move.intact entered)
    (fun t ht => tables t (by simp [ht])) (fun t ht => orderly t (by simp [ht])) going kept
  refine ⟨m, p₀, p, last, edits.here, sound, rests, ?_⟩
  intro well
  have anchored₀ : Anchored events₀ (c.enter s₀) := (anchored well).1
  exact anchored₀.reverts edits first

/-- An abort gives up the pages that the transaction may write to, up to the first that has to be
written and cannot be. A page that is seen to goes back to its before-image, which is what it was
before the first change if transactions have ended well until then; the pages behind the one that
is in the way stay as they are. -/
theorem abort_ends_at_stuck_page {config : Config} {s s₂ s₃ : Store} {trials : List Trial}
    {d : Trial} {events : List Event} {answer : Except Error Answer} {tx : TxId}
    (h : Founded T config s) (run : attempt trials s = (events, s₂))
    (last : d.perform s₂ = (answer, s₃)) (abort : d.call = .complete tx .abort)
    (tables : ∀ t ∈ trials ++ [d], T.Hold t.catalog)
    (orderly : ∀ t ∈ trials, t.call.IsOrderly) :
    ((∃ a, answer = .ok a) ↔ ∀ q, ¬ Stuck tx .abort (d.enter s₂) q) ∧
    (∀ q p, s₃.cached q = some p ∧ p.dirtiedBy = some tx ↔
      s₂.cached q = some p ∧ p.dirtiedBy = some tx ∧
        (s₂.mode? tx q ≠ some .exclusive ∨ Hindered tx .abort (d.enter s₂) q)) ∧
    (EndWell events → ∀ q p, s₂.cached q = some p → p.dirtiedBy = some tx →
      s₂.mode? tx q = some .exclusive) ∧
    ∀ {before between : List Trial} {c : Trial} {rid : RecordId} {row : Option Row},
      trials = before ++ c :: between →
      Event.change? ⟨c.call, (c.perform (attempt before s).2).1⟩ = some ⟨tx, rid, row⟩ →
      ¬ Changed tx rid.page (attempt before s).1 →
      (∀ t ∈ between, ∀ ending, t.call ≠ .complete tx ending) →
      (∀ m ∈ attemptStops between (c.perform (attempt before s).2).2,
        (m.cached rid.page).isSome) →
      ∃ m p₀ p₂, (c.stops (attempt before s).2).getLast? = some m ∧
        m.cached rid.page = some p₀ ∧ s₂.cached rid.page = some p₂ ∧
        (Hindered tx .abort (d.enter s₂) rid.page → s₃.cached rid.page = some p₂) ∧
        (¬ Hindered tx .abort (d.enter s₂) rid.page →
          ∃ p, s₃.cached rid.page = some p ∧ p.dirtiedBy = none ∧
            (p.image = p₀.image ↔ p₀.Reverts p₀.content)) ∧
        (EndWell (attempt before s).1 → p₀.Reverts p₀.content) := by
  have intact₂ : s₂.Intact T := by
    have := attempt_intact h.intact (fun t ht => tables t (by simp [ht])) orderly
    rwa [run] at this
  have entered := intact₂.enter (tables d (by simp))
  obtain ⟨done, halt, outcome, ended⟩ := ends_of_perform entered abort last
  refine ⟨ended.ok_iff entered outcome, ended.dirty_iff entered outcome, ?_, ?_⟩
  · intro well q p hp ho
    have held := (attempt_anchored h (fun t ht => tables t (by simp [ht])) orderly
      (by rwa [run])).2
    rw [run] at held
    exact held q p tx hp ho
  · intro before between c rid row split change first going kept
    subst split
    obtain ⟨m, p₀, p₂, last, here, sound, rests, reverts⟩ := rests_of_first_change h
      (fun t ht => tables t (List.mem_append_left _ ht)) orderly change first going kept
    rw [run] at rests
    refine ⟨m, p₀, p₂, last, here, rests.here, ?_, ?_, reverts⟩
    · intro hindered
      rw [ended.left entered outcome rests.locked hindered]
      exact rests.here
    · intro free
      obtain ⟨p, hp, keeps, clean, back⟩ := (rests.enter d).abort entered outcome ended free
      have sound' := ((ended.intact entered.locks).pages _ p hp).sound
      refine ⟨p, hp, clean, ?_⟩
      rw [image_iff_content sound sound' keeps.id keeps.schema]
      constructor
      · intro same
        rwa [same] at back
      · exact back.unique

/-- A page is changed and flushed, and its file takes no writes when the change is given up. -/
def refusedTrials : List Trial :=
  [⟨sampleInsert, sampleCatalog, fun _ _ => false⟩,
    ⟨.flushPage samplePage, sampleCatalog, fun _ _ => false⟩]

def refusedAbort : Trial :=
  ⟨.complete ⟨1⟩ .abort, sampleCatalog, fun _ _ => true⟩

/-- The page is rolled back all the same. -/
theorem refused_abort_restores :
    let s := sample [] 1 (by decide)
    let s₂ := (attempt refusedTrials s).2
    ∃ p, (refusedAbort.perform s₂).2.cached samplePage = some p ∧ p.dirtiedBy = none ∧
      some p.image = ((sampleInsert.stops s).getLast?.bind (·.cached samplePage)).map
        HeapPage.image := by
  intro s s₂
  have founded : Founded (.ofCatalog sampleCatalog) (sampleConfig 1) s :=
    (opened_sample (by decide) (by decide)).founded
  have run : attempt refusedTrials s = ((attempt refusedTrials s).1, s₂) := (Prod.eta _).symm
  have ended := abort_ends_at_stuck_page (d := refusedAbort) founded run (Prod.eta _).symm rfl
    (by simp [refusedTrials, refusedAbort, hold_sampleCatalog])
    (by simp [refusedTrials, Call.IsOrderly, sampleInsert])
  have change : Event.change? ⟨sampleInsert, (sampleInsert.perform s).1⟩ =
      some ⟨⟨1⟩, ⟨samplePage, 0⟩, some [some (.string "a")]⟩ := by
    decide +kernel
  obtain ⟨m, p₀, _, last, here, _, _, back, reverts⟩ :=
    ended.2.2.2 (show refusedTrials = [] ++ _ from rfl) change (not_changed_nil _ _) (by simp)
      (by decide +kernel)
  have alone : s₂.pool.cache.ids = [samplePage] := by
    decide +kernel
  have intact : s₂.Intact _ := attempt_intact founded.intact
    (by simp [refusedTrials, hold_sampleCatalog])
    (by simp [refusedTrials, Call.IsOrderly, sampleInsert])
  have free : ¬ Hindered ⟨1⟩ .abort (refusedAbort.enter s₂) samplePage := by
    rintro ⟨q, before, _, p, hp, _⟩
    have := intact.cache.mem_ids_of_find? hp
    rw [alone, List.mem_singleton] at this
    rw [this] at before
    cases before
  obtain ⟨p, hp, clean, image⟩ := back free
  have well : EndWell (attempt [] s).1 := by
    intro e he
    cases he
  refine ⟨p, hp, clean, ?_⟩
  rw [image.mpr (reverts well)]
  have : (sampleInsert.stops s).getLast?.bind (·.cached samplePage) = some p₀ := by
    rw [show (sampleInsert.stops s).getLast? = some m from last]
    exact here
  rw [this, Option.map_some]

/-- A second table of the same columns. -/
def otherEntry : Entry where
  name := "others"
  file := ⟨.file 1, 1, sampleEntry.file.schema⟩

def otherPage : PageId :=
  ⟨.file 1, 0⟩

def bothTables : Catalog :=
  sampleCatalog.add otherEntry

def otherInsert : Call :=
  .insert ⟨1⟩ (.file 1) (sampleRow "b")

/-- A transaction changes a page of either table, and the first page is flushed in between. When the
changes are given up no table is registered. -/
def hinderedTrials : List Trial :=
  [⟨sampleInsert, bothTables, fun _ _ => false⟩,
    ⟨.flushPage samplePage, bothTables, fun _ _ => false⟩,
    ⟨otherInsert, bothTables, fun _ _ => false⟩,
    ⟨.complete ⟨1⟩ .abort, {}, fun _ _ => false⟩]

/-- So the second page keeps its change, though it was cached all the time. -/
theorem abort_leaves_hindered_page :
    let s := sample [] 2 (by decide)
    let stops := attemptStops (hinderedTrials.drop 2) (attempt (hinderedTrials.take 2) s).2
    let s' := (attempt hinderedTrials s).2
    (∀ m ∈ stops, (m.cached otherPage).isSome) ∧
      (s'.cached otherPage).map HeapPage.dirtiedBy = some (some ⟨1⟩) ∧
      (s'.cached otherPage).map HeapPage.image ≠
        (stops.getLast?.bind (·.cached otherPage)).map HeapPage.image := by
  decide +kernel

end Store
end HeapStore
