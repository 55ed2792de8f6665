import HeapStore.Proofs.Store.Step

/-!
Pages that a transaction has changed. As long as transactions end well, a page that shows something
else than it goes back to has been changed by one that goes on. And whatever is flushed and whatever
fails, a page that stays in the cache goes back to the same until its transaction ends.
-/

namespace HeapStore

/-- `tx` has changed the page in a call of the run and has not ended since. -/
def Changed (tx : TxId) (q : PageId) (events : List Event) : Prop :=
  ∃ before e after, events = before ++ e :: after ∧
    (∃ slot row, e.change? = some ⟨tx, ⟨q, slot⟩, row⟩) ∧
    ∀ d ∈ after, ∀ ending, d.call ≠ .complete tx ending

theorem not_changed_nil (tx : TxId) (q : PageId) : ¬ Changed tx q [] := by
  rintro ⟨before, e, after, h, _⟩
  cases before <;> cases h

theorem changed_of_change {tx : TxId} {rid : RecordId} {row : Option Row} {e : Event}
    (events : List Event) (h : e.change? = some ⟨tx, rid, row⟩) :
    Changed tx rid.page (events ++ [e]) :=
  ⟨events, e, [], rfl, ⟨rid.slot, row, h⟩, fun _ hd => absurd hd List.not_mem_nil⟩

theorem Changed.append {tx : TxId} {q : PageId} {events : List Event} {e : Event}
    (h : Changed tx q events) (going : ∀ ending, e.call ≠ .complete tx ending) :
    Changed tx q (events ++ [e]) := by
  obtain ⟨before, d, after, rfl, hd, rest⟩ := h
  refine ⟨before, d, after ++ [e], by simp, hd, ?_⟩
  intro d' hd'
  rcases List.mem_append.mp hd' with hmem | hlast
  · exact rest d' hmem
  · obtain rfl := List.mem_singleton.mp hlast
    exact going

namespace Store
open HeapPage
variable {T : Tables} {s s' s₁ : Store} {e : Event} {events : List Event} {tx u : TxId} {q : PageId}
  {p p' : HeapPage} {rid : RecordId} {row : Option Row} {ending : Ending}

/-- What the end of a transaction makes of a page of its own goes back to what it shows. -/
theorem Ending.turn_reverts {f f' : Except Error HeapPage} (hp : p.Sound)
    (h : ending.turn tx p f p' f') (own : ∀ u, p.dirtiedBy = some u → u = tx) :
    p'.Reverts p'.content := by
  cases ending with
  | commit =>
      cases h with
      | own _ _ => exact (hp.mark none).reverts_snapshot
      | clean _ => exact hp.reverts_snapshot
      | foreign ho hu => exact absurd (own _ ho) hu
  | abort =>
      cases h with
      | own _ reverts restored =>
          rw [restored.content]
          exact restored.reverts.mpr reverts
      | flushed _ _ reverts restored _ =>
          rw [restored.content]
          exact restored.reverts.mpr reverts
      | same _ same =>
          have reads := hp.reads_image
          rwa [same] at reads
      | foreign ho hu => exact absurd (own _ ho) hu

theorem Flushed.keeps {due : HeapPage → Prop} {f f' : Except Error HeapPage}
    (h : Flushed due p f p' f') : p.Keeps p' ∧ p'.content = p.content := by
  cases h with
  | spared _ => exact ⟨.refl p, rfl⟩
  | written _ _ => exact ⟨⟨rfl, rfl, rfl⟩, rfl⟩

theorem RolledBack.keeps {f f' : Except Error HeapPage} (h : RolledBack tx p f p' f') :
    p.Keeps p' := by
  cases h with
  | own _ _ restored => exact restored.toKeeps
  | flushed _ _ _ restored _ => exact restored.toKeeps
  | same _ _ => exact .refl p
  | foreign _ _ => exact .refl p

theorem RolledBack.clean {f f' : Except Error HeapPage} (h : RolledBack tx p f p' f')
    (own : ∀ u, p.dirtiedBy = some u → u = tx) : p'.dirtiedBy = none := by
  cases h with
  | own _ _ restored => exact restored.clean
  | flushed _ _ _ restored _ => exact restored.clean
  | same clean _ => exact clean
  | foreign ho hu => exact absurd (own _ ho) hu

/-- Pages that keep the same look the same. -/
theorem image_iff_content (hp : p.Sound) (hp' : p'.Sound) (hid : p'.id = p.id)
    (hs : p'.schema = p.schema) : p'.image = p.image ↔ p'.content = p.content :=
  ⟨hp'.content_eq_of_image hp hid hs, hp'.image_congr hp hs⟩

/-- A page that shows something else than it goes back to has been changed by a transaction that
goes on and may write to it. -/
def Anchored (events : List Event) (s : Store) : Prop :=
  ∀ q p, s.cached q = some p →
    p.Reverts p.content ∨ ∃ tx, Changed tx q events ∧ s.mode? tx q = some .exclusive

theorem Anchored.looks (h : Anchored events s) (calm : Calm tx s s')
    (going : ∀ tx ending, e.call ≠ .complete tx ending) : Anchored (events ++ [e]) s' := by
  intro q p hp
  rcases calm.cached q with same | ⟨_, read⟩
  · rcases h q p (same ▸ hp) with reverts | ⟨u, changed, locked⟩
    · exact .inl reverts
    · exact .inr ⟨u, changed.append (going u), calm.exclusive u q locked⟩
  · exact .inl (asRead_of_onFile (read p hp)).reverts

theorem Anchored.edits (h : Anchored events s)
    (edits : Edits tx s s₁ s' rid row p p') (change : e.change? = some ⟨tx, rid, row⟩)
    (going : ∀ tx ending, e.call ≠ .complete tx ending) : Anchored (events ++ [e]) s' := by
  have h₁ := h.looks edits.calm going
  intro q r hr
  rw [edits.puts.cached] at hr
  by_cases hq : q = rid.page
  · subst hq
    exact .inr ⟨tx, changed_of_change events change, edits.locked_after⟩
  · rw [if_neg hq] at hr
    rcases h₁ q r hr with reverts | ⟨u, changed, locked⟩
    · exact .inl reverts
    · refine .inr ⟨u, changed, ?_⟩
      rw [edits.mode?]
      exact locked

/-- Nothing but the marks of pages is any different. -/
def Rewritten (s s' : Store) : Prop :=
  ∀ q p', s'.cached q = some p' → ∃ p, s.cached q = some p ∧ p.Keeps p' ∧ p'.content = p.content

theorem Swept.rewritten {due : HeapPage → Prop} {pages : List PageId}
    (h : Swept (Flushed due) pages s s') : Rewritten s s' := by
  intro q p' hp'
  rcases h.cases q with ⟨_, cached, _⟩ | ⟨p, r, hp, hr, turn⟩
  · exact ⟨p', cached ▸ hp', .refl p', rfl⟩
  · obtain rfl : r = p' := Option.some.inj (hr.symm.trans hp')
    exact ⟨p, hp, turn.keeps⟩

theorem Visited.rewritten {due : HeapPage → Prop} {done : List PageId} {halt : Option PageId}
    (h : Visited T (.flush due) done halt s s') : Rewritten s s' := by
  intro q p' hp'
  rcases h.cases q with ⟨_, cached, _⟩ | ⟨p, r, hp, hr, turn⟩
  · exact ⟨p', cached ▸ hp', .refl p', rfl⟩
  · obtain rfl : r = p' := Option.some.inj (hr.symm.trans hp')
    rcases turn with ⟨_, turn⟩ | ⟨_, turn⟩
    · exact ⟨p, hp, Flushed.keeps turn⟩
    · obtain ⟨rfl, _⟩ := turn
      exact ⟨r, hp, .refl r, rfl⟩

theorem Anchored.flushes (h : Anchored events s) (rewritten : Rewritten s s')
    (locks : s'.pool.locks = s.pool.locks) (going : ∀ tx ending, e.call ≠ .complete tx ending) :
    Anchored (events ++ [e]) s' := by
  intro q p' hp'
  obtain ⟨p, hp, keeps, same⟩ := rewritten q p' hp'
  rw [same, keeps.reverts]
  rcases h q p hp with reverts | ⟨u, changed, locked⟩
  · exact .inl reverts
  · refine .inr ⟨u, changed.append (going u), ?_⟩
    simpa only [mode?, locks] using locked

/-- What a transaction that has ended well may write to goes back to what it shows. -/
def Relieved (tx : TxId) (s s' : Store) : Prop :=
  ∀ q p', s'.cached q = some p' →
    s.cached q = some p' ∧ s.mode? tx q ≠ some .exclusive ∨ p'.Reverts p'.content

theorem Ending.reverts_of_reached {f f' : Except Error HeapPage} (hs : s.pool.locks.Consistent)
    (ho : s.Owned) (hp : s.cached q = some p) (sound : p.Sound)
    (reached : ending.Reaches (s.mode? tx q)) (turn : ending.turn tx p f p' f') :
    p'.Reverts p'.content := by
  apply Ending.turn_reverts sound turn
  intro u hu
  exact (hs.alone (ho q p u hp hu) (Ending.isSome_of_reaches reached)).symm

theorem Completes.relieved (hs : s.Sound) (h : Completes tx ending s s') : Relieved tx s s' := by
  intro q p' hp'
  rcases h.cases q with ⟨hq, cached, _⟩ | ⟨p, r, hp, reached, hr, turn⟩
  · refine .inl ⟨cached ▸ hp', fun locked => ?_⟩
    rcases hq with absent | unreached
    · rw [cached, absent] at hp'
      cases hp'
    · exact unreached (locked ▸ ending.reaches_exclusive)
  · obtain rfl : r = p' := Option.some.inj (hr.symm.trans hp')
    exact .inr (Ending.reverts_of_reached hs.locks hs.owned hp (hs.pages q p hp).sound reached turn)

theorem Ended.relieved (hs : s.Intact T) (ho : s.Owned)
    (h : Ended T tx ending (ending.pages tx s) none s s') : Relieved tx s s' := by
  intro q p' hp'
  rcases h.cases q with ⟨hq, cached, _⟩ | ⟨p, r, hp, hr, ⟨hq, turn⟩ | ⟨hn, _⟩⟩
  · refine .inl ⟨cached ▸ hp', fun locked => ?_⟩
    rcases hq with ⟨unseen, _⟩ | absent
    · exact unseen ((Ending.mem_pages hs.locks).mpr (locked ▸ ending.reaches_exclusive))
    · rw [cached, absent] at hp'
      cases hp'
  · obtain rfl : r = p' := Option.some.inj (hr.symm.trans hp')
    exact .inr (Ending.reverts_of_reached hs.locks ho hp (hs.pages q p hp).sound
      ((Ending.mem_pages hs.locks).mp hq) turn)
  · cases hn

theorem Anchored.ends (h : Anchored events s) (call : e.call = .complete tx ending)
    (relieved : Relieved tx s s') (mode : ∀ u q, u ≠ tx → s'.mode? u q = s.mode? u q) :
    Anchored (events ++ [e]) s' := by
  intro q p' hp'
  rcases relieved q p' hp' with ⟨hp, unlocked⟩ | reverts
  · rcases h q p' hp with reverts | ⟨u, changed, locked⟩
    · exact .inl reverts
    · have hu : u ≠ tx := by
        rintro rfl
        exact unlocked locked
      have going (ending : Ending) : e.call ≠ .complete u ending := by
        intro hc
        rw [call] at hc
        cases hc
        exact hu rfl
      exact .inr ⟨u, changed.append going, by rw [mode u q hu, locked]⟩
  · exact .inl reverts

theorem going_of_flush (call : ¬ e.call.IsTransactional) (u : TxId) (ending : Ending) :
    e.call ≠ .complete u ending := by
  intro hc
  rw [hc] at call
  exact call trivial

theorem Anchored.step (hs : s.Sound) (h : Anchored events s) (step : Step s e s') :
    Anchored (events ++ [e]) s' := by
  cases step with
  | looks _ _ going calm _ => exact h.looks calm going
  | edits _ change going edits _ _ => exact h.edits edits change going
  | flushes _ call swept => exact h.flushes swept.rewritten swept.locks (going_of_flush call)
  | @ends tx _ call _ completes =>
      apply h.ends call (completes.relieved hs)
      intro u q hu
      rw [completes.mode, if_neg hu]

/-- The first change of a page is made to a page that goes back to what it shows. -/
theorem Anchored.reverts (h : Anchored events s)
    (edits : Edits tx s s₁ s' rid row p p') (first : ¬ Changed tx rid.page events) :
    p.Reverts p.content := by
  rcases edits.calm.cached rid.page with same | ⟨_, read⟩
  · rcases h _ p (same ▸ edits.here) with reverts | ⟨u, changed, locked⟩
    · exact reverts
    · obtain rfl : u = tx := edits.writer (edits.calm.exclusive u _ locked)
      exact absurd changed first
  · exact (asRead_of_onFile (read p edits.here)).reverts

/-- A page is changed and locked by who goes on, as long as transactions end well. -/
theorem Anchored.move (hs : s.Intact T) (h : Anchored events s) (ho : s.Owned)
    (move : Move T s e s')
    (well : ∀ tx ending, e.call = .complete tx ending → ∃ a, e.answer = .ok a) :
    Anchored (events ++ [e]) s' ∧ s'.Owned := by
  cases move with
  | looks _ _ going calm _ =>
      exact ⟨h.looks calm going, calm.owned ho⟩
  | edits _ change going edits _ _ =>
      exact ⟨h.edits edits change going, edits.owned ho⟩
  | @flushes due _ _ _ _ call _ visited =>
      exact ⟨h.flushes visited.rewritten visited.locks (going_of_flush call),
        visited.owned (Visit.regular_flush due) ho⟩
  | @ends tx ending done halt call outcome ended =>
      obtain ⟨a, answer⟩ := well tx ending call
      rw [answer] at outcome
      cases outcome with
      | all _ =>
          refine ⟨h.ends call (ended.relieved hs ho) ?_, ended.owned hs.locks ho⟩
          intro u q hu
          rw [ended.mode hs.locks, if_neg hu]

/-- The page `p` is cached that `tx` has changed since it was `p₀`, and goes back to the same. -/
structure Rests (tx : TxId) (q : PageId) (p₀ p : HeapPage) (s : Store) : Prop where
  here : s.cached q = some p
  keeps : p₀.Keeps p
  owner : ∀ u, p.dirtiedBy = some u → u = tx
  locked : s.mode? tx q = some .exclusive

theorem Rests.first (edits : Edits tx s s₁ s' rid row p p') : Rests tx rid.page p p' s' where
  here := edits.cached_self
  keeps := edits.keeps
  owner u hu := by
    rw [edits.owner] at hu
    exact (Option.some.inj hu).symm
  locked := edits.locked_after

theorem Rests.looks {p₀ : HeapPage} (h : Rests tx q p₀ p s) (calm : Calm u s s')
    (here : s'.cached q = some p) : Rests tx q p₀ p s' :=
  ⟨here, h.keeps, h.owner, calm.exclusive tx q h.locked⟩

theorem Rests.edits {p₀ r r' : HeapPage} (h : Rests tx q p₀ p s)
    (edits : Edits u s s₁ s' rid row r r') (here : s₁.cached q = some p) :
    ∃ p', Rests tx q p₀ p' s' := by
  have h₁ := h.looks edits.calm here
  have locked : s'.mode? tx q = some .exclusive := by
    rw [edits.mode?]
    exact h₁.locked
  by_cases hq : q = rid.page
  · subst hq
    obtain rfl : r = p := Option.some.inj (edits.here.symm.trans here)
    have alone : tx = u := edits.writer h₁.locked
    exact ⟨r', edits.cached_self, h₁.keeps.trans edits.keeps, alone ▸ (Rests.first edits).owner,
      locked⟩
  · exact ⟨p, (edits.cached_other hq).trans here, h₁.keeps, h₁.owner, locked⟩

theorem Rests.writes {p₀ : HeapPage} (h : Rests tx q p₀ p s)
    (locks : s'.pool.locks = s.pool.locks) (here : s'.cached q = some p') (keeps : p.Keeps p')
    (owner : p'.dirtiedBy = none ∨ p'.dirtiedBy = p.dirtiedBy) : Rests tx q p₀ p' s' where
  here := here
  keeps := h.keeps.trans keeps
  owner u hu := by
    rcases owner with clean | same
    · rw [clean] at hu
      cases hu
    · exact h.owner u (same ▸ hu)
  locked := by simpa only [mode?, locks] using h.locked

theorem Rests.stays {p₀ : HeapPage} (h : Rests tx q p₀ p s) (cached : s'.cached q = s.cached q)
    (mode : s'.mode? tx q = s.mode? tx q) : Rests tx q p₀ p s' :=
  ⟨cached.trans h.here, h.keeps, h.owner, mode.trans h.locked⟩

theorem Rests.move {p₀ : HeapPage} (hs : s.Intact T) (h : Rests tx q p₀ p s) (move : Move T s e s')
    (going : ∀ ending, e.call ≠ .complete tx ending)
    (kept : ∀ m ∈ e.call.stops s, (m.cached q).isSome) : ∃ p', Rests tx q p₀ p' s' := by
  cases move with
  | looks _ _ _ calm stays => exact ⟨p, h.looks calm (stays q p h.here kept)⟩
  | edits _ _ _ edits stays _ => exact h.edits edits (stays q p h.here kept)
  | @flushes due _ _ _ _ _ _ visited =>
      rcases visited.cases q with ⟨_, cached, _⟩ | ⟨r, p', hr, hp', turn⟩
      · exact ⟨p, h.stays cached (by simp only [mode?, visited.locks])⟩
      · obtain rfl : r = p := Option.some.inj (hr.symm.trans h.here)
        rcases turn with ⟨_, turn⟩ | ⟨_, rfl, _⟩
        · exact ⟨p', h.writes visited.locks hp' (Flushed.keeps turn).1
            ((regular_flushed due).owner turn)⟩
        · exact ⟨p', h.writes visited.locks hp' (.refl p') (.inr rfl)⟩
  | @ends u ending _ _ call outcome ended =>
      have hu : u ≠ tx := by
        rintro rfl
        exact going ending call
      have cached := (ended.unreached hs outcome (Ending.not_reaches hs.locks h.locked hu)).1
      exact ⟨p, h.stays cached (by rw [ended.mode hs.locks, if_neg hu.symm])⟩

end Store
end HeapStore
