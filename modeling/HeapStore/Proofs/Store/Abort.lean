import HeapStore.Proofs.Store.Changed
import HeapStore.Proofs.Store.Opened

/-!
What an abort undoes. A page that the transaction has changed and that has stayed in the cache goes
back to what it was before the first change, whatever was flushed in between. Its file goes back
with it if the page is clean when the transaction is given up, and stays as it is if the page is
dirty; so a flush that is followed by another change leaves in the file what is given up.
-/

namespace HeapStore
namespace Store
open HeapPage
variable {s s' s₁ : Store} {e : Event} {events : List Event} {tx u : TxId} {q : PageId}
  {p p' : HeapPage} {c : Content} {ending : Ending}

/-- The page `p` is cached that `tx` has changed, and goes back to what `p₀` shows. If it is clean,
its file has what it shows. -/
structure Pends (tx : TxId) (q : PageId) (p₀ p : HeapPage) (s : Store) : Prop
    extends Rests tx q p₀ p s where
  reverts : p₀.Reverts p₀.content
  written : p.dirtiedBy = none → s.stored q = .ok p.content

/-- The first change of a page is made to a page that goes back to what it shows. -/
theorem Pends.first {rid : RecordId} {row : Option Row} (h : Anchored events s)
    (edits : Edits tx s s₁ s' rid row p p') (first : ¬ Changed tx rid.page events) :
    Pends tx rid.page p p' s' where
  toRests := .first edits
  reverts := h.reverts edits first
  written clean := by
    rw [edits.owner] at clean
    cases clean

theorem Pends.looks {p₀ : HeapPage} (h : Pends tx q p₀ p s) (calm : Calm u s s')
    (here : s'.cached q = some p) : Pends tx q p₀ p s' where
  toRests := h.toRests.looks calm here
  reverts := h.reverts
  written clean := by
    obtain ⟨f, hf, hc⟩ := stored_ok.mp (h.written clean)
    exact stored_ok.mpr ⟨f, calm.onFile_ok hf, hc⟩

theorem Pends.edits {p₀ r r' : HeapPage} {rid : RecordId} {row : Option Row}
    (h : Pends tx q p₀ p s) (edits : Edits u s s₁ s' rid row r r') (here : s₁.cached q = some p) :
    ∃ p', Pends tx q p₀ p' s' := by
  obtain ⟨p', rests⟩ := h.toRests.edits edits here
  refine ⟨p', rests, h.reverts, ?_⟩
  intro clean
  have here' := rests.here
  rw [edits.puts.cached] at here'
  by_cases hq : q = rid.page
  · rw [if_pos hq] at here'
    cases here'
    rw [edits.owner] at clean
    cases clean
  · rw [if_neg hq, here] at here'
    cases here'
    rw [edits.stored]
    exact (h.looks edits.calm here).written clean

theorem Pends.flushes {p₀ : HeapPage} {due : HeapPage → Prop} {pages : List PageId}
    (h : Pends tx q p₀ p s) (swept : Swept (Flushed due) pages s s') :
    ∃ p', Pends tx q p₀ p' s' := by
  by_cases hq : q ∈ pages
  · obtain ⟨p', hp', turn⟩ := swept.turn q hq p h.here
    have rests := h.toRests.writes swept.locks hp' turn.keeps.1 ((regular_flushed due).owner turn)
    refine ⟨p', rests, h.reverts, ?_⟩
    generalize hf : s.onFile q = f at turn
    generalize hf' : s'.onFile q = f' at turn
    cases turn with
    | spared _ =>
        intro clean
        have := h.written clean
        simpa only [Store.stored, hf, hf'] using this
    | written _ w =>
        intro _
        rw [← hf'] at w
        exact w.stored
  · obtain ⟨cached, file⟩ := swept.others q (.inl hq)
    refine ⟨p, h.toRests.stays cached (by simp only [mode?, swept.locks]), h.reverts, ?_⟩
    simpa only [Store.stored, file] using h.written

/-- Another transaction that ends has no lock on the page. -/
theorem Pends.ends {p₀ : HeapPage} (hs : s.Sound) (h : Pends tx q p₀ p s) (hu : u ≠ tx)
    (completes : Completes u ending s s') : Pends tx q p₀ p s' := by
  obtain ⟨cached, file⟩ := completes.others q (.inr (Ending.not_reaches hs.locks h.locked hu))
  refine ⟨h.toRests.stays cached (by rw [completes.mode, if_neg hu.symm]), h.reverts, ?_⟩
  simpa only [Store.stored, file] using h.written

theorem Pends.step {p₀ : HeapPage} (hs : s.Sound) (h : Pends tx q p₀ p s) (step : Step s e s')
    (going : ∀ ending, e.call ≠ .complete tx ending)
    (kept : ∀ m ∈ e.call.stops s, (m.cached q).isSome) : ∃ p', Pends tx q p₀ p' s' := by
  cases step with
  | looks _ _ _ calm stays => exact ⟨p, h.looks calm (stays q p h.here kept)⟩
  | edits _ _ _ edits stays _ => exact h.edits edits (stays q p h.here kept)
  | flushes _ _ swept => exact h.flushes swept
  | @ends u ending call _ completes =>
      have hu : u ≠ tx := by
        rintro rfl
        exact going ending call
      exact ⟨p, h.ends hs hu completes⟩

theorem Pends.run {p₀ : HeapPage} {calls : List Call} (hs : s.Sound) (h : Pends tx q p₀ p s)
    (orderly : ∀ c ∈ calls, c.IsOrderly) (io : ∀ e ∈ (run calls s).1, ¬ e.IoFailed)
    (going : ∀ ending, Call.complete tx ending ∉ calls)
    (kept : ∀ m ∈ runStops calls s, (m.cached q).isSome) :
    (run calls s).2.Sound ∧ ∃ p', Pends tx q p₀ p' (run calls s).2 := by
  induction calls generalizing s p with
  | nil => exact ⟨hs, p, h⟩
  | cons c calls ih =>
      rw [run_cons] at io ⊢
      have step := (step_of_perform hs (orderly c (List.mem_cons_self ..))).resolve_left
        (io _ (List.mem_cons_self ..))
      obtain ⟨p', h'⟩ := h.step hs step
        (fun ending hc => going ending (hc ▸ List.mem_cons_self ..))
        (fun m hm => kept m (List.mem_append_left _ hm))
      exact ih (step.sound hs) h' (fun c hc => orderly c (List.mem_cons_of_mem _ hc))
        (fun e he => io e (List.mem_cons_of_mem _ he))
        (fun ending hc => going ending (List.mem_cons_of_mem _ hc))
        (fun m hm => kept m (List.mem_append_right _ hm))

/-- A page that is given up shows what it was to go back to. The file shows it too if the page was
clean, and else is left alone. -/
theorem Pends.abort {p₀ : HeapPage} (hs : s.Sound) (h : Pends tx q p₀ p s)
    (completes : Completes tx .abort s s') :
    ∃ p', s'.cached q = some p' ∧ p'.schema = p₀.schema ∧ p'.content = p₀.content ∧
      (p.dirtiedBy = none → s'.stored q = .ok p₀.content) ∧
      (p.dirtiedBy ≠ none → s'.onFile q = s.onFile q) := by
  have reached : Ending.abort.Reaches (s.mode? tx q) := h.locked
  obtain ⟨p', hp', turn⟩ := completes.turn q p h.here reached
  have keeps := RolledBack.keeps turn
  have content : p'.content = p₀.content :=
    (Ending.turn_reverts (hs.pages q p h.here).sound turn h.owner).unique
      (keeps.reverts.mpr (h.keeps.reverts.mpr h.reverts))
  refine ⟨p', hp', keeps.schema.trans h.keeps.schema, content, ?_⟩
  have written := h.written
  rw [← content]
  simp only [Store.stored] at written ⊢
  generalize s.onFile q = f at turn written ⊢
  generalize s'.onFile q = f' at turn ⊢
  cases turn with
  | own ho _ _ =>
      refine ⟨?_, fun _ => rfl⟩
      intro clean
      rw [ho] at clean
      cases clean
  | flushed ho _ _ _ w =>
      refine ⟨?_, fun dirty => absurd ho dirty⟩
      intro _
      obtain ⟨g, rfl, _, hg⟩ := w
      exact congrArg Except.ok hg
  | same ho _ => exact ⟨written, fun dirty => absurd ho dirty⟩
  | foreign ho hu => exact absurd (h.owner _ ho) hu

theorem Opened.anchored {config : Config} (h : Opened config s) : Anchored [] s := by
  intro q p hp
  rw [h.cached] at hp
  cases hp

theorem run_anchored {config : Config} (h : Opened config s) {calls : List Call}
    (orderly : ∀ c ∈ calls, c.IsOrderly) (io : ∀ e ∈ (run calls s).1, ¬ e.IoFailed) :
    (run calls s).2.Sound ∧ Anchored (run calls s).1 (run calls s).2 := by
  exact run_history (L := []) (fun _ hc => hc) (fun _ hs anchored _ step => anchored.step hs step)
    h.sound h.anchored orderly io

theorem Pends.abort_images {p₀ : HeapPage} (hs : s.Sound) (h : Pends tx q p₀ p s)
    (hp₀ : p₀.Sound) (hid : p₀.id = q) (completes : Completes tx .abort s s') :
    ∃ p' f, s'.cached q = some p' ∧ s'.onFile q = .ok f ∧ p'.image = p₀.image ∧
      (f.image = p₀.image ↔
        (∃ p, s.cached q = some p ∧ p.dirtiedBy = none) ∨
          ∃ f, s.onFile q = .ok f ∧ f.image = p₀.image) := by
  obtain ⟨p', hp', schema, content, written, alone⟩ := h.abort hs completes
  have backed := completes.sound.pages q p' hp'
  obtain ⟨f, hf, hfs⟩ := backed.file
  have read := asRead_of_onFile hf
  have cached_image : p'.image = p₀.image :=
    (image_iff_content hp₀ backed.sound ((id_of_cached completes.sound.cache hp').trans hid.symm)
      schema).mpr content
  have file_image : f.image = p₀.image ↔ f.content = p₀.content :=
    image_iff_content hp₀ read.sound (read.id.trans hid.symm) (hfs.trans schema)
  refine ⟨p', f, hp', hf, cached_image, ?_⟩
  by_cases clean : p.dirtiedBy = none
  · have same : f.content = p₀.content := by
      have := written clean
      rw [stored_ok.mpr ⟨f, hf, rfl⟩] at this
      exact Except.ok.inj this
    exact ⟨fun _ => .inl ⟨p, h.here, clean⟩, fun _ => file_image.mpr same⟩
  · rw [alone clean] at hf
    constructor
    · exact fun same => .inr ⟨f, hf, same⟩
    · rintro (⟨p₂, hp₂, clean₂⟩ | ⟨f₂, hf₂, same⟩)
      · rw [h.here] at hp₂
        cases hp₂
        exact absurd clean₂ clean
      · rw [hf] at hf₂
        cases hf₂
        exact same

/-- An abort takes a page that has stayed in the cache back to what it was before the first change,
and its file too, exactly if the page is clean when the transaction is given up or the file shows
that already. -/
theorem abort_restores {config : Config} {s s₀ s₁ s₂ s₃ : Store} {before between : List Call}
    {c : Call} {events events' : List Event} {answer answer' : Except Error Answer} {tx : TxId}
    {rid : RecordId} {row : Option Row} (h : Opened config s)
    (h₀ : run before s = (events, s₀)) (h₁ : c.perform s₀ = (answer, s₁))
    (h₂ : run between s₁ = (events', s₂))
    (h₃ : (Call.complete tx .abort).perform s₂ = (answer', s₃))
    (orderly : ∀ d ∈ before ++ c :: between, d.IsOrderly)
    (io : ∀ e ∈ events ++ ⟨c, answer⟩ :: events' ++ [⟨.complete tx .abort, answer'⟩], ¬ e.IoFailed)
    (change : Event.change? ⟨c, answer⟩ = some ⟨tx, rid, row⟩)
    (first : ¬ Changed tx rid.page events) (going : ∀ ending, Call.complete tx ending ∉ between)
    (kept : ∀ m ∈ runStops between s₁, (m.cached rid.page).isSome) :
    ∃ m p₀ p f, (c.stops s₀).getLast? = some m ∧ m.cached rid.page = some p₀ ∧
      s₃.cached rid.page = some p ∧ s₃.onFile rid.page = .ok f ∧ p.image = p₀.image ∧
      (f.image = p₀.image ↔
        (∃ p₂, s₂.cached rid.page = some p₂ ∧ p₂.dirtiedBy = none) ∨
          ∃ f₂, s₂.onFile rid.page = .ok f₂ ∧ f₂.image = p₀.image) := by
  have anchored := run_anchored h (fun d hd => orderly d (List.mem_append_left _ hd))
    (by rw [h₀]; exact fun e he => io e (by simp [he]))
  rw [h₀] at anchored
  obtain ⟨sound₀, anchored⟩ := anchored
  have step := (step_of_perform sound₀ (orderly c (by simp))).resolve_left
    (by rw [h₁]; exact io _ (by simp))
  rw [h₁] at step
  have sound₁ := step.sound sound₀
  cases step with
  | looks _ nothing _ _ _ =>
      rw [change] at nothing
      cases nothing
  | flushes nothing _ _ =>
      rw [change] at nothing
      cases nothing
  | ends call _ _ =>
      obtain rfl : c = _ := call
      cases change
  | @edits tx' rid' row' m p₀ p₁ _ change' _ edits _ last =>
      rw [change] at change'
      cases change'
      have pends := Pends.first anchored edits first
      obtain ⟨sound₂, p₂, pends₂⟩ := pends.run sound₁
        (fun d hd => orderly d (by simp [hd]))
        (by rw [h₂]; exact fun e he => io e (by simp [he])) going kept
      rw [h₂] at sound₂ pends₂
      have ended : (Call.complete tx .abort).perform s₂ =
          (((complete tx .abort s₂).1.map fun _ => .done), (complete tx .abort s₂).2) :=
        perform_map
      rcases complete_cases sound₂ tx .abort with ⟨cause, s', hc⟩ | ⟨s', hc, completes⟩
      · have answered := io ⟨.complete tx .abort, answer'⟩ (by simp)
        rw [h₃, hc] at ended
        cases ended
        exact absurd trivial answered
      · rw [h₃, hc] at ended
        cases ended
        have backed := (edits.calm.sound sound₀).pages _ p₀ edits.here
        obtain ⟨p, f, hp, hf, image, file⟩ := pends₂.abort_images sound₂ backed.sound
          (id_of_cached edits.calm.cache edits.here) completes
        exact ⟨m, p₀, p, f, last, edits.here, hp, hf, image, file⟩

theorem abort_restores_flushed_page :
    let s₀ := sample [] 1 (by decide)
    let s₁ := (sampleInsert.perform s₀).2
    let s₂ := (run [.flushPage samplePage] s₁).2
    let s₃ := ((Call.complete ⟨1⟩ .abort).perform s₂).2
    ∃ p f, s₃.cached samplePage = some p ∧ s₃.onFile samplePage = .ok f ∧ p.image = f.image := by
  intro s₀ s₁ s₂ s₃
  have opened : Opened (sampleConfig 1) s₀ := opened_sample (by decide) (by decide)
  have h₀ : run [] s₀ = ([], s₀) := rfl
  have h₁ : sampleInsert.perform s₀ = ((sampleInsert.perform s₀).1, s₁) := (Prod.eta _).symm
  have h₂ : run [.flushPage samplePage] s₁ = ((run [.flushPage samplePage] s₁).1, s₂) :=
    (Prod.eta _).symm
  have h₃ : (Call.complete ⟨1⟩ .abort).perform s₂ =
      (((Call.complete ⟨1⟩ .abort).perform s₂).1, s₃) := (Prod.eta _).symm
  have io : ∀ e ∈ ([] : List Event) ++ ⟨sampleInsert, (sampleInsert.perform s₀).1⟩ ::
        (run [.flushPage samplePage] s₁).1 ++
      [⟨.complete ⟨1⟩ .abort, ((Call.complete ⟨1⟩ .abort).perform s₂).1⟩], ¬ e.IoFailed := by
    decide +kernel
  have change : Event.change? ⟨sampleInsert, (sampleInsert.perform s₀).1⟩ =
      some ⟨⟨1⟩, ⟨samplePage, 0⟩, some [some (.string "a")]⟩ := by
    decide +kernel
  have clean : (s₂.cached samplePage).map HeapPage.dirtiedBy = some none := by
    decide +kernel
  have restored := abort_restores opened h₀ h₁ h₂ h₃ (by simp [Call.IsOrderly, sampleInsert]) io
    change (not_changed_nil _ _) (by simp) (by simp [runStops, Call.stops])
  obtain ⟨_, _, p, f, _, _, hp, hf, image, file⟩ := restored
  obtain ⟨p₂, hp₂, clean₂⟩ := Option.map_eq_some_iff.mp clean
  exact ⟨p, f, hp, hf, image.trans (file.mpr (.inl ⟨p₂, hp₂, clean₂⟩)).symm⟩

/-- The page is changed once more after it has been flushed, and is dirty when it is given up. -/
def resumedCalls : List Call :=
  [sampleInsert, .flushPage samplePage, .insert ⟨1⟩ (.file 0) (sampleRow "b"),
    .complete ⟨1⟩ .abort]

/-- So the first change stays in the file, though the page was cached all the time. -/
theorem abort_leaves_flushed_change :
    (∀ e ∈ (run resumedCalls (sample [] 1 (by decide))).1, ¬ e.IoFailed) ∧
      (∀ m ∈ runStops resumedCalls (sample [] 1 (by decide)), (m.cached samplePage).isSome) ∧
      ((run resumedCalls (sample [] 1 (by decide))).2.onFile samplePage).toOption.map HeapPage.image ≠
        ((sampleInsert.stops (sample [] 1 (by decide))).getLast?.bind (·.cached samplePage)).map
          HeapPage.image := by
  decide +kernel

end Store
end HeapStore
