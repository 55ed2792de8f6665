import HeapStore.Proofs.Store.View

/-!
Two stores that nobody can tell apart by getting, storing and deleting rows and by ending
transactions: they have the same locks and files of the same content, and the same drafts. Which
clean pages are cached, which bytes the files have and which a page goes back to may differ. Calls
keep two stores alike, step by step, until one of them finds no room in its cache or fails for the
medium.
-/

namespace HeapStore
open Std

/-- Errors that depend on the room in the cache, or on the medium. -/
def Error.IsStrain : Error → Prop
  | evictionImpossible | io _ => True
  | _ => False

instance : DecidablePred Error.IsStrain := fun e => by
  unfold Error.IsStrain
  split <;> infer_instance

namespace Store
variable {α β : Type} {catalog : Catalog} {s s' s₁ s₂ t₁ t₂ : Store} {tx : TxId} {q : PageId}
  {a : Access} {p p₁ p₂ : HeapPage}

structure Alike (catalog : Catalog) (s₁ s₂ : Store) : Prop where
  sound : s₁.Sound ∧ s₂.Sound
  settled : s₁.Settled ∧ s₂.Settled
  catalog : s₁.catalog = catalog ∧ s₂.catalog = catalog
  locks : s₁.pool.locks = s₂.pool.locks
  stored : ∀ q, s₁.stored q = s₂.stored q
  draft : ∀ q, s₁.draft q = s₂.draft q

namespace Alike

theorem shown (h : Alike catalog s₁ s₂) (q : PageId) : s₁.shown q = s₂.shown q := by
  simp only [Store.shown, h.draft, h.stored]

theorem mode? (h : Alike catalog s₁ s₂) (tx : TxId) (q : PageId) :
    s₁.mode? tx q = s₂.mode? tx q := by
  simp only [Store.mode?, h.locks]

theorem numPages (h : Alike catalog s₁ s₂) {table : TableId} {e : Entry}
    (he : catalog.find table = .ok e) :
    e.file.numPages s₁.disk = e.file.numPages s₂.disk := by
  apply numPages_congr h.sound.1 h.sound.2 (h.catalog.1 ▸ he) (h.catalog.2 ▸ he)
  intro n
  rw [h.stored]

end Alike

/-- A page has the schema of its table. -/
theorem Sound.schema (hs : s.Sound) (hp : s.cached q = some p) :
    ∃ e, s.catalog.find q.table = .ok e ∧ p.schema = e.file.schema := by
  obtain ⟨e, he⟩ := hs.registered hp
  refine ⟨e, he, (hs.intact.pages q p hp).schema.trans ?_⟩
  rw [hs.intact.tables.file he]

/-- What pages have in common that are cached under the same id. -/
structure Twins (p₁ p₂ : HeapPage) : Prop where
  id : p₁.id = p₂.id
  schema : p₁.schema = p₂.schema
  content : p₁.content = p₂.content
  owner : p₁.dirtiedBy = p₂.dirtiedBy

theorem Alike.twins (h : Alike catalog s₁ s₂) (hp₁ : s₁.cached q = some p₁)
    (hp₂ : s₂.cached q = some p₂) : Twins p₁ p₂ where
  id := (id_of_cached h.sound.1.cache hp₁).trans (id_of_cached h.sound.2.cache hp₂).symm
  schema := by
    obtain ⟨e₁, he₁, schema₁⟩ := h.sound.1.schema hp₁
    obtain ⟨e₂, he₂, schema₂⟩ := h.sound.2.schema hp₂
    rw [h.catalog.1] at he₁
    rw [h.catalog.2, he₁] at he₂
    cases he₂
    rw [schema₁, schema₂]
  content := by
    have shown := h.shown q
    rw [h.settled.1.shown hp₁, h.settled.2.shown hp₂] at shown
    exact Except.ok.inj shown
  owner := by
    have draft := h.draft q
    rw [draft_of_cached hp₁, draft_of_cached hp₂] at draft
    cases ho₁ : p₁.dirtiedBy with
    | none =>
        rw [ho₁] at draft
        exact (Option.map_eq_none_iff.mp draft.symm).symm
    | some u =>
        rw [ho₁] at draft
        obtain ⟨u', ho₂, heq⟩ := Option.map_eq_some_iff.mp draft.symm
        rw [ho₂, (Prod.mk.inj heq).1]

/-- Stores stay alike while one only looks around. -/
theorem Alike.of_calm (h : Alike catalog s₁ s₂) (calm₁ : Calm tx s₁ t₁) (calm₂ : Calm tx s₂ t₂)
    (locks : t₁.pool.locks = t₂.pool.locks) (stored : ∀ q, t₁.stored q = t₂.stored q) :
    Alike catalog t₁ t₂ where
  sound := ⟨calm₁.sound h.sound.1, calm₂.sound h.sound.2⟩
  settled := ⟨calm₁.settled h.sound.1 h.settled.1, calm₂.settled h.sound.2 h.settled.2⟩
  catalog := ⟨calm₁.catalog.trans h.catalog.1, calm₂.catalog.trans h.catalog.2⟩
  locks := locks
  stored := stored
  draft q := by
    rw [calm₁.draft h.sound.1, calm₂.draft h.sound.2, h.draft]

/-- The same slot is changed to the same row. -/
theorem Alike.of_edits {rid : RecordId} {row : Option Row} {p₁' p₂' : HeapPage}
    (h : Alike catalog s₁ s₂) (edits₁ : Edits tx s₁ s₁ t₁ rid row p₁ p₁')
    (edits₂ : Edits tx s₂ s₂ t₂ rid row p₂ p₂') : Alike catalog t₁ t₂ where
  sound := ⟨edits₁.sound_after h.sound.1, edits₂.sound_after h.sound.2⟩
  settled := ⟨edits₁.settled h.sound.1 h.settled.1, edits₂.settled h.sound.2 h.settled.2⟩
  catalog := ⟨edits₁.puts.catalog.trans h.catalog.1, edits₂.puts.catalog.trans h.catalog.2⟩
  locks := by rw [edits₁.puts.locks, edits₂.puts.locks, h.locks]
  stored q := by rw [edits₁.stored, edits₂.stored, h.stored]
  draft q := by
    rw [edits₁.draft, edits₂.draft, h.draft, (h.twins edits₁.here edits₂.here).content]

/-- A transaction ends in the same way. -/
theorem Alike.of_completes {ending : Ending} (h : Alike catalog s₁ s₂)
    (done₁ : Completes tx ending s₁ t₁) (done₂ : Completes tx ending s₂ t₂) :
    Alike catalog t₁ t₂ where
  sound := ⟨done₁.sound, done₂.sound⟩
  settled := ⟨done₁.settled h.sound.1 h.settled.1, done₂.settled h.sound.2 h.settled.2⟩
  catalog := ⟨done₁.catalog.trans h.catalog.1, done₂.catalog.trans h.catalog.2⟩
  locks := by rw [done₁.locks, done₂.locks, h.locks]
  stored q := by
    rw [done₁.stored h.sound.1 h.settled.1, done₂.stored h.sound.2 h.settled.2, h.draft, h.stored]
  draft q := by
    rw [done₁.draft h.sound.1 h.settled.1, done₂.draft h.sound.2 h.settled.2, h.draft]

/-- The outcomes of a call on two stores. If they are not the same, one of them is an error that
tells of the cache or of the medium; `V` is what the answers have in common. -/
inductive Agree (catalog : Catalog) (V : α → Store → α → Store → Prop) :
    Except Error α × Store → Except Error α × Store → Prop
  | strained (e : Error) {o₁ o₂ : Except Error α × Store} (strain : e.IsStrain)
      (h : o₁.1 = .error e ∨ o₂.1 = .error e) : Agree catalog V o₁ o₂
  | failed (e : Error) {s₁ s₂ : Store} (alike : Alike catalog s₁ s₂) :
      Agree catalog V (.error e, s₁) (.error e, s₂)
  | done {a₁ a₂ : α} {s₁ s₂ : Store} (alike : Alike catalog s₁ s₂) (v : V a₁ s₁ a₂ s₂) :
      Agree catalog V (.ok a₁, s₁) (.ok a₂, s₂)

theorem Agree.bind {V : α → Store → α → Store → Prop} {W : β → Store → β → Store → Prop}
    {x₁ x₂ : StoreM α} {f₁ f₂ : α → StoreM β} (h : Agree catalog V (x₁ s₁) (x₂ s₂))
    (hf : ∀ a₁ t₁ a₂ t₂, Alike catalog t₁ t₂ → V a₁ t₁ a₂ t₂ →
      Agree catalog W (f₁ a₁ t₁) (f₂ a₂ t₂)) :
    Agree catalog W ((x₁ >>= f₁) s₁) ((x₂ >>= f₂) s₂) := by
  rw [bind_apply, bind_apply]
  generalize x₁ s₁ = o₁ at h
  generalize x₂ s₂ = o₂ at h
  cases h with
  | strained e strain h =>
      refine .strained e strain ?_
      obtain ⟨r₁, t₁⟩ := o₁
      obtain ⟨r₂, t₂⟩ := o₂
      rcases h with rfl | rfl
      · exact .inl rfl
      · exact .inr rfl
  | failed e alike => exact .failed e alike
  | done alike v => exact hf _ _ _ _ alike v

theorem Agree.imp {V W : α → Store → α → Store → Prop} {o₁ o₂ : Except Error α × Store}
    (h : Agree catalog V o₁ o₂) (himp : ∀ a₁ t₁ a₂ t₂, V a₁ t₁ a₂ t₂ → W a₁ t₁ a₂ t₂) :
    Agree catalog W o₁ o₂ := by
  cases h with
  | strained e strain h => exact .strained e strain h
  | failed e alike => exact .failed e alike
  | done alike v => exact .done alike (himp _ _ _ _ v)

/-- Results of which `f` sees no difference. -/
theorem agree_of_map (h : Alike catalog s₁ s₂) {r₁ r₂ : Except Error α} {f : α → β}
    (same : r₁.map f = r₂.map f) :
    Agree catalog (fun a₁ t₁ a₂ t₂ => (r₁ = .ok a₁ ∧ t₁ = s₁) ∧ (r₂ = .ok a₂ ∧ t₂ = s₂) ∧
      f a₁ = f a₂) (r₁, s₁) (r₂, s₂) := by
  cases r₁ with
  | error e =>
      cases r₂ with
      | error e' =>
          cases same
          exact .failed e h
      | ok a₂ => cases same
  | ok a₁ =>
      cases r₂ with
      | error e => cases same
      | ok a₂ => exact .done h ⟨⟨rfl, rfl⟩, ⟨rfl, rfl⟩, Except.ok.inj same⟩

/-- The catalog, and what it has been asked for, are the same. -/
theorem agree_lookup (h : Alike catalog s₁ s₂) (table : TableId) :
    Agree catalog (fun e₁ _ e₂ _ => e₁ = e₂ ∧ catalog.find table = .ok e₁)
      (lookup table s₁) (lookup table s₂) := by
  rw [lookup_apply, lookup_apply, h.catalog.1, h.catalog.2]
  cases he : catalog.find table with
  | error e => exact .failed e h
  | ok e => exact .done h ⟨rfl, rfl⟩

theorem agree_ensure (h : Alike catalog s₁ s₂) (c : Prop) [Decidable c] (e : Error) :
    Agree catalog (fun _ _ _ _ => True) (ensure c e s₁) (ensure c e s₂) := by
  unfold ensure
  split
  · exact .done h trivial
  · exact .failed e h

theorem agree_fetch (h : Alike catalog s₁ s₂) (tx : TxId) (q : PageId) (a : Access) :
    Agree catalog (fun p₁ t₁ p₂ t₂ => Serves tx q a s₁ p₁ t₁ ∧ Serves tx q a s₂ p₂ t₂)
      (fetch tx q a s₁) (fetch tx q a s₂) := by
  have hf₁ := fetched h.sound.1.intact tx q a
  have hf₂ := fetched h.sound.2.intact tx q a
  generalize fetch tx q a s₁ = o₁ at hf₁ ⊢
  generalize fetch tx q a s₂ = o₂ at hf₂ ⊢
  obtain ⟨r₁, t₁⟩ := o₁
  obtain ⟨r₂, t₂⟩ := o₂
  rcases hf₁.answer h.settled.1 with ⟨rfl, _⟩ | ⟨refused₁, rfl, rfl⟩ | ⟨granted₁, answer₁⟩
  · exact .strained .evictionImpossible trivial (.inl rfl)
  all_goals
    rcases hf₂.answer h.settled.2 with ⟨rfl, _⟩ | ⟨refused₂, rfl, rfl⟩ | ⟨granted₂, answer₂⟩
  · exact .strained .evictionImpossible trivial (.inr rfl)
  · exact .failed _ h
  · rw [h.locks, granted₂] at refused₁
    cases refused₁
  · exact .strained .evictionImpossible trivial (.inr rfl)
  · rw [h.locks, refused₂] at granted₁
    cases granted₁
  · have locks : t₁.pool.locks = t₂.pool.locks := by
      rw [h.locks, granted₂] at granted₁
      exact (Option.some.inj granted₁).symm
    have alike : Alike catalog t₁ t₂ := by
      apply h.of_calm (hf₁.calm h.sound.1.intact) (hf₂.calm h.sound.2.intact) locks
      intro q
      simp only [stored, hf₁.onFile, hf₂.onFile]
      exact h.stored q
    have same : r₁.map HeapPage.content = r₂.map HeapPage.content := by
      rw [answer₁, answer₂, h.shown]
    apply (agree_of_map alike same).imp
    rintro p₁ _ p₂ _ ⟨⟨rfl, rfl⟩, ⟨rfl, rfl⟩, _⟩
    exact ⟨hf₁.serves h.sound.1.intact, hf₂.serves h.sound.2.intact⟩

end Store
end HeapStore
