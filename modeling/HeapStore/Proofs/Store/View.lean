import HeapStore.Proofs.Store.Step

/-!
What of a store is left when one forgets what happens to be cached: the contents of the files, and
the drafts, which are the contents of dirty pages with the transactions that have made them. As long
as nobody flushes, a cached page goes back to what its file has, and shows it if it is clean.
Looking around changes no draft and no content, storing and deleting change one draft, and the end
of a transaction takes its drafts away, into the files or not.
-/

namespace HeapStore

/-- What a page without a row keeps. -/
def Content.blank (schema : Schema) : Content where
  rows := List.replicate schema.slotsPerPage none
  spare := List.replicate (headerSize schema.slotsPerPage * 8 - schema.slotsPerPage) false

theorem HeapPage.content_empty (id : PageId) (schema : Schema) :
    (HeapPage.empty id schema).content = .blank schema := by
  simp [content, empty, Content.blank]

theorem Content.get?_blank (schema : Schema) (i : Nat) : (blank schema).get? i = none := by
  simp only [get?, blank, List.getElem?_replicate]
  split <;> rfl

namespace Store
open Std
variable {s s' s₁ : Store} {tx u : TxId} {q : PageId} {p p' : HeapPage} {rid : RecordId}
  {row : Option Row} {c : Content} {ending : Ending}

/-- The content of the file in the place of `q`. -/
def stored (s : Store) (q : PageId) : Except Error Content :=
  (s.onFile q).map HeapPage.content

/-- The content of `q` that is in the cache only, and the transaction that has made it. -/
def draft (s : Store) (q : PageId) : Option (TxId × Content) :=
  (s.cached q).bind fun p => p.dirtiedBy.map fun tx => (tx, p.content)

/-- What whoever gets `q` finds on it. -/
def shown (s : Store) (q : PageId) : Except Error Content :=
  match s.draft q with
  | some (_, c) => .ok c
  | none => s.stored q

/-- A cached page goes back to what its file has, and shows it if it is clean. -/
def Settled (s : Store) : Prop :=
  ∀ q p, s.cached q = some p → ∃ c, s.stored q = .ok c ∧ p.Reverts c ∧
    (p.dirtiedBy = none → p.content = c)

theorem stored_ok : s.stored q = .ok c ↔ ∃ f, s.onFile q = .ok f ∧ f.content = c := by
  unfold stored
  cases s.onFile q with
  | error e => simp [Except.map]
  | ok f => simp [Except.map]

theorem stored_error {e : Error} : s.stored q = .error e ↔ s.onFile q = .error e := by
  unfold stored
  cases s.onFile q with
  | error e' => simp [Except.map]
  | ok f => simp [Except.map]

/-- Files that end at the same place have the same number of pages. -/
theorem numPages_congr {table : TableId} {e : Entry} (hs : s.Sound) (hs' : s'.Sound)
    (he : s.catalog.find table = .ok e) (he' : s'.catalog.find table = .ok e)
    (out : ∀ n, s.stored ⟨table, n⟩ = .error (PageId.missing ⟨table, n⟩) ↔
      s'.stored ⟨table, n⟩ = .error (PageId.missing ⟨table, n⟩)) :
    e.file.numPages s.disk = e.file.numPages s'.disk := by
  have le (n : Nat) : e.file.numPages s.disk ≤ n ↔ e.file.numPages s'.disk ≤ n := by
    rw [← onFile_eq_missing hs.plain hs.reliable.read he,
      ← onFile_eq_missing hs'.plain hs'.reliable.read he', ← stored_error, ← stored_error, out]
  exact Nat.le_antisymm ((le _).mpr (Nat.le_refl _)) ((le _).mp (Nat.le_refl _))

theorem draft_eq_some :
    s.draft q = some (tx, c) ↔
      ∃ p, s.cached q = some p ∧ p.dirtiedBy = some tx ∧ p.content = c := by
  simp only [draft, Option.bind_eq_some_iff, Option.map_eq_some_iff, Prod.mk.injEq]
  constructor
  · rintro ⟨p, hp, u, ho, rfl, hc⟩
    exact ⟨p, hp, ho, hc⟩
  · rintro ⟨p, hp, ho, hc⟩
    exact ⟨p, hp, tx, ho, rfl, hc⟩

theorem draft_of_cached (h : s.cached q = some p) :
    s.draft q = p.dirtiedBy.map fun tx => (tx, p.content) := by
  simp [draft, h]

theorem draft_eq_none :
    s.draft q = none ↔ ∀ p, s.cached q = some p → p.dirtiedBy = none := by
  simp [draft, Option.bind_eq_none_iff]

theorem shown_of_draft (h : s.draft q = some (tx, c)) : s.shown q = .ok c := by
  simp only [shown, h]

theorem shown_of_no_draft (h : s.draft q = none) : s.shown q = s.stored q := by
  simp only [shown, h]

/-- Who has a draft may write. -/
theorem Sound.locked (hs : s.Sound) (h : s.draft q = some (tx, c)) :
    s.mode? tx q = some .exclusive := by
  obtain ⟨p, hp, ho, _⟩ := draft_eq_some.mp h
  exact (hs.pages q p hp).locked tx ho

/-- Who may write to a page is alone with it. -/
theorem Sound.alone (hs : s.Sound) (hx : s.mode? tx q = some .exclusive)
    (hu : (s.mode? u q).isSome) : u = tx :=
  hs.locks.alone hx hu

theorem Settled.shown (h : s.Settled) (hp : s.cached q = some p) : s.shown q = .ok p.content := by
  obtain ⟨c, hc, _, same⟩ := h q p hp
  simp only [Store.shown, draft_of_cached hp]
  cases ho : p.dirtiedBy with
  | some u => rfl
  | none => simp only [Option.map_none, hc, same ho]

theorem Calm.draft (hs : s.Sound) (h : Calm tx s s') (q : PageId) : s'.draft q = s.draft q := by
  cases hd : s.draft q with
  | some d =>
      obtain ⟨u, c⟩ := d
      obtain ⟨p, hp, ho, hc⟩ := draft_eq_some.mp hd
      exact draft_eq_some.mpr ⟨p, h.dirty_stays hp ho, ho, hc⟩
  | none =>
      apply draft_eq_none.mpr
      intro p hp
      rcases h.stayed_or_read hs hp with ⟨stayed, _⟩ | ⟨read, _⟩
      · exact draft_eq_none.mp hd p stayed
      · exact (asRead_of_onFile read).clean

/-- Where there was no page there may be a blank one now. -/
theorem Calm.stored (h : Calm tx s s') (q : PageId) :
    s'.stored q = s.stored q ∨
      s.stored q = .error (.pageOutOfRange q) ∧ ∃ schema, s'.stored q = .ok (.blank schema) := by
  rcases h.file q with same | ⟨out, schema, grown⟩
  · left
    simp only [Store.stored, same]
  · right
    refine ⟨stored_error.mpr out, schema, ?_⟩
    exact stored_ok.mpr ⟨_, grown, HeapPage.content_empty q schema⟩

theorem Calm.settled (hs : s.Sound) (h : Calm tx s s') (ht : s.Settled) : s'.Settled := by
  intro q p hp
  rcases h.stayed_or_read hs hp with ⟨stayed, file⟩ | ⟨read, _⟩
  · have same : s'.stored q = s.stored q := by simp only [Store.stored, file]
    rw [same]
    exact ht q p stayed
  · have new := asRead_of_onFile read
    exact ⟨p.content, stored_ok.mpr ⟨p, read, rfl⟩, new.reverts, fun _ => rfl⟩

/-- A request is answered by the locks and by what is shown, if there is room in the cache. -/
theorem Fetched.answer {a : Access} {r : Except Error HeapPage} (ht : s.Settled)
    (h : Fetched tx q a s r s') :
    (r = .error .evictionImpossible ∧ ∃ q' d, s.draft q' = some d) ∨
      (s.pool.locks.acquire? tx q a.mode = none ∧ r = .error (.lockTimeout tx q) ∧ s' = s) ∨
        s.pool.locks.acquire? tx q a.mode = some s'.pool.locks ∧
          r.map HeapPage.content = s.shown q := by
  have shown (absent : s.cached q = none) : s.shown q = s.stored q := by
    apply shown_of_no_draft
    simp [Store.draft, absent]
  cases h with
  | refused h => exact .inr (.inl ⟨h, rfl, rfl⟩)
  | hit granted here _ => exact .inr (.inr ⟨granted.locks, (ht.shown here).symm⟩)
  | unread granted absent unreadable _ =>
      refine .inr (.inr ⟨granted.locks, ?_⟩)
      rw [shown absent, stored_error.mpr unreadable]
      rfl
  | crowded _ _ dirty _ =>
      obtain ⟨q', p, hp, hd⟩ := dirty
      obtain ⟨u, hu⟩ := Option.isSome_iff_exists.mp hd
      exact .inl ⟨rfl, q', _, draft_eq_some.mpr ⟨p, hp, hu, rfl⟩⟩
  | miss granted absent read _ _ =>
      refine .inr (.inr ⟨granted.locks, ?_⟩)
      rw [shown absent, stored_ok.mpr ⟨_, read, rfl⟩]
      rfl

theorem Edits.draft (h : Edits tx s s₁ s' rid row p p') (q : PageId) :
    s'.draft q = if q = rid.page then some (tx, p.content.set rid.slot row) else s₁.draft q := by
  by_cases hq : q = rid.page
  · rw [if_pos hq]
    apply draft_eq_some.mpr
    exact ⟨p', hq ▸ h.cached_self, h.owner, h.content⟩
  · rw [if_neg hq]
    simp only [Store.draft, h.cached_other hq]

theorem Edits.stored (h : Edits tx s s₁ s' rid row p p') (q : PageId) :
    s'.stored q = s₁.stored q := by
  simp only [Store.stored, h.onFile]

/-- A page is changed by one transaction at a time. -/
theorem Edits.alone (hs : s.Sound) (h : Edits tx s s₁ s' rid row p p')
    (hd : s₁.draft rid.page = some (u, c)) : u = tx :=
  h.writer ((h.calm.sound hs).locked hd)

theorem Edits.settled (hs : s.Sound) (h : Edits tx s s₁ s' rid row p p') (ht : s.Settled) :
    s'.Settled := by
  have ht₁ := h.calm.settled hs ht
  intro q r hr
  rw [h.stored]
  rw [h.puts.cached] at hr
  by_cases hq : q = rid.page
  · rw [if_pos hq] at hr
    cases hr
    obtain ⟨c, hc, reverts, _⟩ := ht₁ rid.page p h.here
    rw [hq]
    refine ⟨c, hc, h.keeps.reverts.mpr reverts, ?_⟩
    intro clean
    rw [h.owner] at clean
    cases clean
  · rw [if_neg hq] at hr
    exact ht₁ q r hr

theorem Written.stored (h : Written p (s.onFile q)) : s.stored q = .ok p.content := by
  obtain ⟨f, hf, _, hc⟩ := h
  exact stored_ok.mpr ⟨f, hf, hc⟩

/-- What the end of a transaction makes of a page that it reaches, in terms of contents. -/
theorem Ending.turn_settled {f f' : Except Error HeapPage} (hp : p.Sound)
    (h : ending.turn tx p f p' f') (hf : f.map HeapPage.content = .ok c) (hr : p.Reverts c)
    (hc : p.dirtiedBy = none → p.content = c) :
    ∃ c', f'.map HeapPage.content = .ok c' ∧ p'.Reverts c' ∧
      (p'.dirtiedBy = none → p'.content = c') ∧
      (p'.dirtiedBy.map fun u => (u, p'.content)) =
        ((p.dirtiedBy.map fun u => (u, p.content)).filter fun d => d.1 ≠ tx) ∧
      c' = if ending = .commit ∧ p.dirtiedBy = some tx then p.content else c := by
  have written {r : HeapPage} {g : Except Error HeapPage} (w : Written r g) :
      g.map HeapPage.content = .ok r.content := by
    obtain ⟨f, rfl, _, hc⟩ := w
    rw [← hc]
    rfl
  cases ending with
  | commit =>
      cases h with
      | own ho w =>
          exact ⟨_, written w, (hp.mark none).reverts_snapshot, fun _ => rfl,
            by simp [ho, HeapPage.snapshot, HeapPage.mark, Option.filter_some], by simp [ho]⟩
      | clean ho =>
          refine ⟨c, hf, ?_, fun _ => hc ho, by simp [ho, HeapPage.snapshot], by simp [ho]⟩
          rw [← hc ho]
          exact hp.reverts_snapshot
      | foreign ho hu =>
          exact ⟨c, hf, hr, hc, by simp [ho, hu, Option.filter_some], by simp [ho, hu]⟩
  | abort =>
      cases h with
      | own ho reverts restored =>
          obtain rfl := reverts.unique hr
          exact ⟨_, hf, restored.reverts.mpr reverts, fun _ => restored.content,
            by simp [ho, restored.clean, Option.filter_some], by simp⟩
      | flushed ho _ reverts restored w =>
          obtain rfl := reverts.unique hr
          refine ⟨_, ?_, restored.reverts.mpr reverts, fun _ => restored.content,
            by simp [ho, restored.clean], by simp⟩
          rw [written w, restored.content]
      | same ho _ => exact ⟨c, hf, hr, hc, by simp [ho], by simp⟩
      | foreign ho hu => exact ⟨c, hf, hr, hc, by simp [ho, hu, Option.filter_some], by simp⟩

/-- A page that is dirty by `tx` is reached by the end of `tx`. -/
theorem Ending.reaches_of_draft (hs : s.Sound) (h : s.draft q = some (tx, c)) :
    ending.Reaches (s.mode? tx q) := by
  rw [hs.locked h]
  exact ending.reaches_exclusive

theorem Completes.view (hs : s.Sound) (ht : s.Settled) (h : Completes tx ending s s') (q : PageId) :
    (∀ p, s'.cached q = some p → ∃ c, s'.stored q = .ok c ∧ p.Reverts c ∧
      (p.dirtiedBy = none → p.content = c)) ∧
    s'.draft q = (s.draft q).filter (fun d => d.1 ≠ tx) ∧
    s'.stored q =
      match s.draft q with
      | some (u, c) => if ending = .commit ∧ u = tx then .ok c else s.stored q
      | none => s.stored q := by
  rcases h.cases q with ⟨hq, cached, file⟩ | ⟨p, p', hp, _, hp', turn⟩
  · have stored : s'.stored q = s.stored q := by simp only [Store.stored, file]
    have draft : s'.draft q = s.draft q := by simp only [Store.draft, cached]
    have foreign {d : TxId × Content} (hd : s.draft q = some d) : d.1 ≠ tx := by
      rintro rfl
      obtain ⟨p, hp, _⟩ := draft_eq_some.mp hd
      rcases hq with hnone | hr
      · rw [hp] at hnone
        cases hnone
      · exact hr (Ending.reaches_of_draft hs hd)
    rw [cached, stored, draft]
    refine ⟨ht q, ?_, ?_⟩
    · cases hd : s.draft q with
      | none => rfl
      | some d => simp [foreign hd, Option.filter_some]
    · cases hd : s.draft q with
      | none => rfl
      | some d => simp [foreign hd]
  · obtain ⟨c, hc, hr, same⟩ := ht q p hp
    obtain ⟨c', hc', hr', same', hd, rfl⟩ :=
      Ending.turn_settled (hs.pages q p hp).sound turn hc hr same
    refine ⟨?_, ?_, ?_⟩
    · intro r h'
      rw [hp'] at h'
      cases h'
      exact ⟨_, hc', hr', same'⟩
    · rw [draft_of_cached hp', draft_of_cached hp]
      exact hd
    · rw [draft_of_cached hp]
      refine Eq.trans hc' ?_
      cases ho : p.dirtiedBy with
      | none => simp [hc]
      | some u =>
          simp only [Option.map_some, Option.some.injEq]
          split <;> simp_all

theorem Completes.settled (hs : s.Sound) (ht : s.Settled) (h : Completes tx ending s s') :
    s'.Settled :=
  fun q => (h.view hs ht q).1

/-- The drafts of a transaction go when it ends. -/
theorem Completes.draft (hs : s.Sound) (ht : s.Settled) (h : Completes tx ending s s')
    (q : PageId) : s'.draft q = (s.draft q).filter fun d => d.1 ≠ tx :=
  (h.view hs ht q).2.1

theorem Completes.draft_iff (hs : s.Sound) (ht : s.Settled) (h : Completes tx ending s s') :
    s'.draft q = some (u, c) ↔ s.draft q = some (u, c) ∧ u ≠ tx := by
  rw [h.draft hs ht, Option.filter_eq_some_iff]
  simp

/-- A commit puts them into the files, and nothing else is written to any file. -/
theorem Completes.stored (hs : s.Sound) (ht : s.Settled) (h : Completes tx ending s s')
    (q : PageId) :
    s'.stored q =
      match s.draft q with
      | some (u, c) => if ending = .commit ∧ u = tx then .ok c else s.stored q
      | none => s.stored q :=
  (h.view hs ht q).2.2

/-- A run without flushes keeps clean pages as their files have them. -/
theorem Step.settled {e : Event} (hs : s.Sound) (ht : s.Settled) (hc : e.call.IsTransactional)
    (h : Step s e s') : s'.Settled := by
  cases h with
  | looks _ _ _ calm _ => exact calm.settled hs ht
  | edits _ _ _ edits _ _ => exact edits.settled hs ht
  | flushes _ call _ => exact absurd hc call
  | ends _ _ completes => exact completes.settled hs ht

end Store
end HeapStore
