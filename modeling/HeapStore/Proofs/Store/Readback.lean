import HeapStore.Proofs.Page.Recall
import HeapStore.Proofs.Store.Opened

/-!
What is read of a committed row. The file has it with its strings cut, and a page that is read from
the file or goes back shows it so; but a page that has stayed in the cache since the row was stored
shows it in full.
-/

namespace HeapStore

/-- `tx` has stored `t` at `rid` and goes on, and nobody has deleted the row. -/
def Storing (tx : TxId) (rid : RecordId) (t : Tuple) : List Event → Prop :=
  Since (fun _ e => (∃ table, e.call = .insert tx table t) ∧
      e.change? = some ⟨tx, rid, some t.row⟩) fun d =>
    (∀ ending, d.call ≠ .complete tx ending) ∧ ∀ u, d.change? ≠ some ⟨u, rid, none⟩

/-- A transaction that has stored `t` at `rid` has committed, and nobody has deleted the row. -/
def Lasting (rid : RecordId) (t : Tuple) : List Event → Prop :=
  Since (fun before e => ∃ tx, Storing tx rid t before ∧ e.call = .complete tx .commit) fun d =>
    ∀ u, d.change? ≠ some ⟨u, rid, none⟩

namespace Store
open HeapPage
variable {s s' s₁ : Store} {e : Event} {events : List Event} {tx u : TxId} {q : PageId}
  {rid rid' : RecordId} {row : Option Row} {p p' f : HeapPage} {i : Nat} {t : Tuple}
  {ending : Ending}

/-- A row that has been stored is in the page as it was given. -/
theorem placed_of_insert {T : Tables} {table : TableId} {answer : Except Error Answer}
    (hs : s.Intact T) (h : (Call.insert tx table t).perform s = (answer, s'))
    (change : Event.change? ⟨.insert tx table t, answer⟩ = some ⟨tx, rid, row⟩) :
    ∃ p, s'.cached rid.page = some p ∧ p.dirtiedBy = some tx ∧
      p.get? rid.slot = some (t.located (some rid)) := by
  obtain ⟨r, s'', changes, performed⟩ := changes_of_insert hs tx table t
  rw [h] at performed
  obtain ⟨rfl, rfl⟩ := Prod.mk.inj performed
  cases changes with
  | failed _ _ => cases change
  | @changed _ _ _ _ p' edits placed _ _ =>
      cases change
      exact ⟨p', edits.cached_self, edits.owner, placed⟩

/-- A change of a page does not touch a row of it that it does not delete. -/
theorem Edits.has (h : Edits u s s₁ s' rid' row p p') (has : p.Has rid.slot t)
    (page : rid.page = rid'.page) (undeleted : ¬ (rid' = rid ∧ row = none)) :
    p'.Has rid.slot t := by
  obtain ⟨v, hv, alike⟩ := has
  by_cases slot : rid.slot = rid'.slot
  · obtain rfl : rid' = rid := RecordId.ext page.symm slot.symm
    have free := h.free fun none => undeleted ⟨rfl, none⟩
    rw [hv] at free
    cases free
  · exact ⟨v, (h.kept _ slot).trans hv, alike⟩

theorem Edits.bears (h : Edits u s s₁ s' rid' row p p') (bears : p.Bears rid.slot t)
    (page : rid.page = rid'.page) (undeleted : ¬ (rid' = rid ∧ row = none)) :
    p'.Bears rid.slot t :=
  bears.imp (fun has => h.has has page undeleted) (fun has => h.has has page undeleted)

theorem recalls_of_onFile (hd : s.disk.Readable) (hf : s.onFile q = .ok f) (has : f.Has i t) :
    f.Recalls i t := by
  obtain ⟨e, he⟩ := find_of_onFile hf
  simp only [onFile, he, bind, Except.bind] at hf
  exact recalls_of_decode (decode_of_readPage hd hf).2 has

/-- The row is in a page that `tx` has changed and that has not been written. -/
def Drafted (tx : TxId) (rid : RecordId) (t : Tuple) (s : Store) : Prop :=
  ∃ p, s.cached rid.page = some p ∧ p.dirtiedBy = some tx ∧ p.Has rid.slot t

theorem Drafted.looks (h : Drafted tx rid t s) (calm : Calm u s s') : Drafted tx rid t s' := by
  obtain ⟨p, hp, ho, has⟩ := h
  exact ⟨p, calm.dirty_stays hp ho, ho, has⟩

theorem Drafted.edits (hs : s.Sound) (h : Drafted tx rid t s)
    (edits : Edits u s s₁ s' rid' row p p') (undeleted : ¬ (rid' = rid ∧ row = none)) :
    Drafted tx rid t s' := by
  obtain ⟨r, hr, ho, has⟩ := h.looks edits.calm
  by_cases page : rid.page = rid'.page
  · obtain rfl : r = p := Option.some.inj (hr.symm.trans (page ▸ edits.here))
    have locked := (edits.calm.sound hs).owned _ r tx hr ho
    have alone : tx = u := edits.writer (page ▸ locked)
    exact ⟨p', page ▸ edits.cached_self, alone ▸ edits.owner, edits.has has page undeleted⟩
  · exact ⟨r, (edits.cached_other page).trans hr, ho, has⟩

/-- Another transaction that ends does not reach the page. -/
theorem Drafted.ends (hs : s.Sound) (h : Drafted tx rid t s) (hu : u ≠ tx)
    (completes : Completes u ending s s') : Drafted tx rid t s' := by
  obtain ⟨p, hp, ho, has⟩ := h
  have locked := hs.owned _ p tx hp ho
  have unreached : ¬ ending.Reaches (s.mode? u rid.page) :=
    Ending.not_reaches hs.locks locked hu
  exact ⟨p, (completes.others _ (.inr unreached)).1.trans hp, ho, has⟩

/-- The file has the row with its strings cut. A page in the cache may have it in full, but goes back
to the same as the file has. -/
structure Lodged (rid : RecordId) (t : Tuple) (s : Store) : Prop where
  file : ∃ f, s.onFile rid.page = .ok f ∧ f.Has rid.slot t.kept
  cached : ∀ p, s.cached rid.page = some p → p.Bears rid.slot t ∧ p.Recalls rid.slot t.kept

theorem Written.has {file : Except Error HeapPage} (h : Written p file) (hp : p.Sound)
    (bears : p.Bears i t) : ∃ f, file = .ok f ∧ f.Has i t.kept := by
  obtain ⟨f, hf, decode, _⟩ := h
  exact ⟨f, hf, hp.bears_of_image bears decode⟩

theorem Drafted.commit (hs : s.Sound) (h : Drafted tx rid t s)
    (completes : Completes tx .commit s s') : Lodged rid t s' := by
  obtain ⟨p, hp, ho, has⟩ := h
  have sound := (hs.pages _ p hp).sound
  have reached : Ending.commit.Reaches (s.mode? tx rid.page) := by
    rw [hs.owned _ p tx hp ho]
    rfl
  obtain ⟨p', hp', turn⟩ := completes.turn _ p hp reached
  generalize hf : s'.onFile rid.page = file at turn
  cases turn with
  | own _ w =>
      refine ⟨hf ▸ w.has sound (.inl has), ?_⟩
      intro r hr
      obtain rfl : (p.mark none).snapshot = r := Option.some.inj (hp'.symm.trans hr)
      exact ⟨.inl has, (sound.mark none).recalls_snapshot (.inl has)⟩
  | clean clean =>
      rw [ho] at clean
      cases clean
  | foreign foreign hu =>
      rw [ho] at foreign
      cases foreign
      exact absurd rfl hu

theorem Lodged.looks (hs : s.Sound) (h : Lodged rid t s) (calm : Calm u s s') :
    Lodged rid t s' := by
  obtain ⟨f, hf, has⟩ := h.file
  have file := calm.onFile_ok hf
  refine ⟨⟨f, file, has⟩, ?_⟩
  intro p hp
  rcases calm.stayed_or_read hs hp with ⟨stayed, _⟩ | ⟨read, _⟩
  · exact h.cached p stayed
  · obtain rfl : f = p := Except.ok.inj (file.symm.trans read)
    exact ⟨.inr has, recalls_of_onFile (calm.readable hs.reliable.read) file has⟩

theorem Lodged.edits (hs : s.Sound) (h : Lodged rid t s) (edits : Edits u s s₁ s' rid' row p p')
    (undeleted : ¬ (rid' = rid ∧ row = none)) : Lodged rid t s' := by
  have h₁ := h.looks hs edits.calm
  refine ⟨by rw [edits.onFile]; exact h₁.file, ?_⟩
  intro r hr
  rw [edits.puts.cached] at hr
  by_cases page : rid.page = rid'.page
  · rw [if_pos page] at hr
    cases hr
    obtain ⟨bears, recalls⟩ := h₁.cached p (page ▸ edits.here)
    exact ⟨edits.bears bears page undeleted, edits.keeps.recalls.mpr recalls⟩
  · rw [if_neg page] at hr
    exact h₁.cached r hr

/-- The end of a transaction writes the page, or takes it back, and in either case the row has its
strings cut there. -/
theorem Ending.turn_bears {file file' : Except Error HeapPage} (hp : p.Sound)
    (h : ending.turn u p file p' file') (lodged : ∃ f, file = .ok f ∧ f.Has i t.kept)
    (bears : p.Bears i t) (recalls : p.Recalls i t.kept) :
    (∃ f, file' = .ok f ∧ f.Has i t.kept) ∧ p'.Bears i t ∧ p'.Recalls i t.kept := by
  have back {r : HeapPage} {c : Content} (restored : p.Restored c r) :
      r.Bears i t ∧ r.Recalls i t.kept :=
    ⟨.inr (recalls.has restored.same), restored.toKeeps.recalls.mpr recalls⟩
  cases ending with
  | commit =>
      cases h with
      | own _ w => exact ⟨w.has hp bears, bears, (hp.mark none).recalls_snapshot bears⟩
      | clean _ => exact ⟨lodged, bears, hp.recalls_snapshot bears⟩
      | foreign _ _ => exact ⟨lodged, bears, recalls⟩
  | abort =>
      cases h with
      | own _ _ restored => exact ⟨lodged, back restored⟩
      | flushed _ _ _ restored w => exact ⟨w.has restored.sound (back restored).1, back restored⟩
      | same _ _ => exact ⟨lodged, bears, recalls⟩
      | foreign _ _ => exact ⟨lodged, bears, recalls⟩

theorem Lodged.ends (hs : s.Sound) (h : Lodged rid t s) (completes : Completes u ending s s') :
    Lodged rid t s' := by
  rcases completes.cases rid.page with ⟨_, cached, file⟩ | ⟨p, p', hp, _, hp', turn⟩
  · exact ⟨by rw [file]; exact h.file, fun r hr => h.cached r (cached ▸ hr)⟩
  · obtain ⟨bears, recalls⟩ := h.cached p hp
    obtain ⟨file, now⟩ := Ending.turn_bears (hs.pages _ p hp).sound turn h.file bears recalls
    refine ⟨file, fun r hr => ?_⟩
    obtain rfl : p' = r := Option.some.inj (hp'.symm.trans hr)
    exact now

/-- The rows that are being stored, and those that are there to last. -/
structure Holds (events : List Event) (s : Store) : Prop where
  drafted : ∀ {tx rid t}, Storing tx rid t events → Drafted tx rid t s
  lodged : ∀ {rid t}, Lasting rid t events → Lodged rid t s

theorem Drafted.step (hs : s.Sound) (h : Drafted tx rid t s) (hc : e.call.IsTransactional)
    (step : Step s e s') (going : ∀ ending, e.call ≠ .complete tx ending)
    (undeleted : ∀ u, e.change? ≠ some ⟨u, rid, none⟩) : Drafted tx rid t s' := by
  cases step with
  | looks _ _ _ calm _ => exact h.looks calm
  | edits _ change _ edits _ _ =>
      apply h.edits hs edits
      rintro ⟨rfl, rfl⟩
      exact undeleted _ change
  | flushes _ call _ => exact absurd hc call
  | ends call _ completes =>
      refine h.ends hs ?_ completes
      rintro rfl
      exact going _ call

theorem Lodged.step (hs : s.Sound) (h : Lodged rid t s) (hc : e.call.IsTransactional)
    (step : Step s e s') (undeleted : ∀ u, e.change? ≠ some ⟨u, rid, none⟩) : Lodged rid t s' := by
  cases step with
  | looks _ _ _ calm _ => exact h.looks hs calm
  | edits _ change _ edits _ _ =>
      apply h.edits hs edits
      rintro ⟨rfl, rfl⟩
      exact undeleted _ change
  | flushes _ call _ => exact absurd hc call
  | ends _ _ completes => exact h.ends hs completes

theorem Step.completes (h : Step s e s') (call : e.call = .complete tx ending) :
    Completes tx ending s s' := by
  cases h with
  | looks _ _ going _ _ => exact absurd call (going tx ending)
  | edits _ _ going _ _ _ => exact absurd call (going tx ending)
  | flushes _ flush _ =>
      rw [call] at flush
      exact absurd trivial flush
  | ends call' _ completes =>
      rw [call] at call'
      cases call'
      exact completes

theorem Holds.step (hs : s.Sound) (h : Holds events s) (hc : e.call.IsTransactional)
    (performed : e.call.perform s = (e.answer, s')) (step : Step s e s') :
    Holds (events ++ [e]) s' where
  drafted storing := by
    rcases storing.cases with ⟨⟨table, call⟩, change⟩ | ⟨before, going, undeleted⟩
    · obtain ⟨c, answer⟩ := e
      obtain rfl : c = _ := call
      obtain ⟨p, hp, ho, placed⟩ := placed_of_insert hs.intact performed change
      exact ⟨p, hp, ho, _, placed, Tuple.alike_iff.mpr ⟨rfl, rfl⟩⟩
    · exact (h.drafted before).step hs hc step going undeleted
  lodged lasting := by
    rcases lasting.cases with ⟨tx, storing, call⟩ | ⟨before, undeleted⟩
    · exact (h.drafted storing).commit hs (step.completes call)
    · exact (h.lodged before).step hs hc step undeleted

theorem Holds.run (hs : s.Sound) (h : Holds events s) {calls : List Call}
    (hc : ∀ c ∈ calls, c.IsTransactional) (io : ∀ e ∈ (run calls s).1, ¬ e.IoFailed) :
    (run calls s).2.Sound ∧ Holds (events ++ (run calls s).1) (run calls s).2 :=
  run_history orderly_of_transactional (fun hc hs h performed step => h.step hs hc performed step)
    hs h hc io

theorem Opened.holds {config : Config} (_ : Opened config s) : Holds [] s :=
  ⟨fun h => (not_since_nil h).elim, fun h => (not_since_nil h).elim⟩

/-- What is found in the place of `rid`, and whether its page was read from the file for that: by a
request for the page, also through a pool that is set up then. -/
inductive Reads (s : Store) (rid : RecordId) : Bool → Option Tuple → Prop
  | got {tx : TxId} {a : Access} {p : HeapPage} (h : (fetch tx rid.page a s).1 = .ok p) :
      Reads s rid (s.cached rid.page).isNone (p.get? rid.slot)
  | anew {config : Config} {tx : TxId} {a : Access} {p : HeapPage} {s' : Store}
      (pool : s.replacePool? config = some s') (h : (fetch tx rid.page a s').1 = .ok p) :
      Reads s rid true (p.get? rid.slot)

theorem Lodged.reads (hs : s.Sound) (h : Lodged rid t s) {fresh : Bool} {o : Option Tuple}
    (reads : Reads s rid fresh o) :
    ∃ v, o = some v ∧ (v.alike t ∨ v.alike t.kept) ∧ (fresh → v.alike t.kept) := by
  obtain ⟨f, hf, v, hv, alike⟩ := h.file
  cases reads with
  | @got tx a p hp =>
      have fetched := fetched hs.intact tx rid.page a
      rw [hp] at fetched
      generalize (fetch tx rid.page a s).2 = s' at fetched
      cases fetched with
      | hit _ here _ =>
          rcases (h.cached p here).1 with ⟨w, hw, whole⟩ | ⟨w, hw, cut⟩
          · exact ⟨w, hw, .inl whole, by simp [here]⟩
          · exact ⟨w, hw, .inr cut, fun _ => cut⟩
      | miss _ _ read _ _ =>
          obtain rfl : f = p := Except.ok.inj (hf.symm.trans read)
          exact ⟨v, hv, .inr alike, fun _ => alike⟩
  | @anew config tx a p s' pool hp =>
      obtain ⟨opened, file⟩ := opened_of_replacePool? hs pool
      have read := opened.fetch tx rid.page a
      rw [hp, file, hf] at read
      obtain rfl : p = f := Except.ok.inj read
      exact ⟨v, hv, .inr alike, fun _ => alike⟩

/-- Any two reads of a committed row give it in full or with its strings cut, and cut if the page is
read from the file; they agree exactly if both give it in full or neither does, and so they do if no
string is too long for a page. -/
theorem committed_row_reads {config : Config} {s s₁ s₂ : Store} {calls₁ calls₂ : List Call}
    {events₁ events₂ : List Event} {rid : RecordId} {t : Tuple} (h : Opened config s)
    (h₁ : run calls₁ s = (events₁, s₁)) (h₂ : run calls₂ s₁ = (events₂, s₂))
    (hc : ∀ c ∈ calls₁ ++ calls₂, c.IsTransactional) (io : ∀ e ∈ events₁ ++ events₂, ¬ e.IoFailed)
    (lasting : Lasting rid t events₁) (undeleted : ∀ e ∈ events₂, ∀ u, e.change? ≠ some ⟨u, rid, none⟩)
    {fresh₁ fresh₂ : Bool} {o₁ o₂ : Option Tuple} (reads₁ : Reads s₁ rid fresh₁ o₁)
    (reads₂ : Reads s₂ rid fresh₂ o₂) :
    ∃ v₁ v₂, o₁ = some v₁ ∧ o₂ = some v₂ ∧
      (v₁.alike t ∨ v₁.alike t.kept) ∧ (fresh₁ → v₁.alike t.kept) ∧
      (v₂.alike t ∨ v₂.alike t.kept) ∧ (fresh₂ → v₂.alike t.kept) ∧
      (v₁.alike v₂ ↔ (v₁.alike t ↔ v₂.alike t)) ∧
      ((∀ text, some (.string text) ∈ t.values → Utf8.size text.toList ≤ stringRoom) →
        v₁.alike v₂) := by
  obtain ⟨sound₁, holds₁⟩ := h.holds.run h.sound (fun c hc₁ => hc c (List.mem_append_left _ hc₁))
    (by rw [h₁]; exact fun e he => io e (List.mem_append_left _ he))
  rw [h₁, List.nil_append] at holds₁
  rw [h₁] at sound₁
  obtain ⟨sound₂, holds₂⟩ := holds₁.run sound₁ (fun c hc₂ => hc c (List.mem_append_right _ hc₂))
    (by rw [h₂]; exact fun e he => io e (List.mem_append_right _ he))
  rw [h₂] at sound₂ holds₂
  obtain ⟨v₁, rfl, read₁, cut₁⟩ := (holds₁.lodged lasting).reads sound₁ reads₁
  obtain ⟨v₂, rfl, read₂, cut₂⟩ := (holds₂.lodged (lasting.append undeleted)).reads sound₂ reads₂
  have agree := Tuple.alike_readings_iff read₁ read₂
  refine ⟨v₁, v₂, rfl, rfl, read₁, cut₁, read₂, cut₂, agree, ?_⟩
  intro short
  have whole := Tuple.kept_alike_iff.mpr short
  have full {v : Tuple} (read : v.alike t ∨ v.alike t.kept) : v.alike t :=
    read.elim id fun cut => Tuple.alike_trans cut whole
  exact agree.mpr ⟨fun _ => full read₂, fun _ => full read₁⟩

/-- A row with a string too long for a page. -/
def longRow : Tuple :=
  sampleRow (String.ofList (List.replicate 129 'x'))

def storedCalls (t : Tuple) : List Call :=
  [.insert ⟨1⟩ (.file 0) t, .complete ⟨1⟩ .commit]

/-- Another transaction changes the page and is given up. -/
def droppedCalls : List Call :=
  [.insert ⟨2⟩ (.file 0) (sampleRow "b"), .complete ⟨2⟩ .abort]

theorem reads_before_and_after_abort :
    let s₁ := (run (storedCalls (sampleRow "a")) (sample [] 1 (by decide))).2
    let s₂ := (run droppedCalls s₁).2
    ∃ p₁ p₂ v₁ v₂, (fetch ⟨3⟩ samplePage .readOnly s₁).1 = .ok p₁ ∧ p₁.get? 0 = some v₁ ∧
      (fetch ⟨3⟩ samplePage .readOnly s₂).1 = .ok p₂ ∧ p₂.get? 0 = some v₂ ∧ v₁.alike v₂ := by
  intro s₁ s₂
  let s := sample [] 1 (by decide)
  let events₁ := (run (storedCalls (sampleRow "a")) s).1
  let events₂ := (run droppedCalls s₁).1
  have opened : Opened (sampleConfig 1) s := opened_sample (by decide) (by decide)
  obtain ⟨change, io, stored, ok₁, ok₂⟩ :
      Event.change? ⟨sampleInsert, (sampleInsert.perform s).1⟩ =
          some ⟨⟨1⟩, ⟨samplePage, 0⟩, some (sampleRow "a").row⟩ ∧
        (∀ e ∈ events₁ ++ events₂, ¬ e.IoFailed) ∧
        (∀ e ∈ events₂, e.change?.all fun c => c.row.isSome) ∧
        (fetch ⟨3⟩ samplePage .readOnly s₁).1.isOk ∧ (fetch ⟨3⟩ samplePage .readOnly s₂).1.isOk := by
    decide +kernel
  have lasting : Lasting ⟨samplePage, 0⟩ (sampleRow "a") events₁ := by
    refine ⟨[⟨sampleInsert, (sampleInsert.perform s).1⟩],
      ⟨.complete ⟨1⟩ .commit, ((Call.complete ⟨1⟩ .commit).perform (sampleInsert.perform s).2).1⟩,
      [], rfl, ⟨⟨1⟩, ?_, rfl⟩, fun _ hd => absurd hd List.not_mem_nil⟩
    exact ⟨[], _, [], rfl, ⟨⟨.file 0, rfl⟩, change⟩, fun _ hd => absurd hd List.not_mem_nil⟩
  have undeleted : ∀ e ∈ events₂, ∀ u, e.change? ≠ some ⟨u, ⟨samplePage, 0⟩, none⟩ := by
    intro e he u change
    have := stored e he
    rw [change] at this
    cases this
  obtain ⟨p₁, hp₁⟩ := exists_of_isOk ok₁
  obtain ⟨p₂, hp₂⟩ := exists_of_isOk ok₂
  obtain ⟨v₁, v₂, hv₁, hv₂, _, _, _, _, _, same⟩ := committed_row_reads opened (Prod.eta _).symm
    (Prod.eta _).symm (by simp [storedCalls, droppedCalls, Call.IsTransactional]) io lasting undeleted
    (.got hp₁) (.got hp₂)
  refine ⟨p₁, p₂, v₁, v₂, hp₁, hv₁, hp₂, hv₂, same ?_⟩
  intro text h
  simp only [sampleRow, List.mem_singleton, Option.some.injEq, Value.string.injEq] at h
  subst h
  decide

/-- A long row is read in full from the page in which it was stored, and cut when the page has gone
back, though it was committed and is not touched in between. -/
theorem abort_cuts_committed_row :
    let r₁ := run (storedCalls longRow) (sample [] 1 (by decide))
    let r₂ := run droppedCalls r₁.2
    (∀ e ∈ r₁.1 ++ r₂.1, e.answer.isOk) ∧
      (r₁.1 ++ r₂.1).map (fun e => e.change?.map Change.rid) =
        [some ⟨samplePage, 0⟩, none, some ⟨samplePage, 1⟩, none] ∧
      ((fetch ⟨3⟩ samplePage .readOnly r₁.2).1.toOption.bind (·.get? 0)).map Tuple.values =
        some longRow.values ∧
      ((fetch ⟨3⟩ samplePage .readOnly r₂.2).1.toOption.bind (·.get? 0)).map Tuple.values ≠
        some longRow.values := by
  decide +kernel

end Store
end HeapStore
