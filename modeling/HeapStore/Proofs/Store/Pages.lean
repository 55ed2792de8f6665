import HeapStore.Proofs.Store.Visits

/-!
Flushing, committing and going back, page by page. Each does its work on the pages that it finds in
the cache, one after the other, and the work on one page leaves every other page alone; so what the
whole comes to can be said of each page by itself. A page that cannot be written, because its table
is missing or the medium refuses it, puts an end to the work: the pages before it have had their
turns, and those behind it are left alone.
-/

namespace HeapStore.Store
open Std
variable {T : Tables} {s s' s₁ s₂ : Store} {tx u : TxId} {q : PageId} {p p' : HeapPage}

/-- The file has the page that is read from the image of `p`, and keeps the same. -/
def Written (p : HeapPage) (file : Except Error HeapPage) : Prop :=
  ∃ f, file = .ok f ∧ HeapPage.decode p.id p.schema p.image = .ok f ∧ f.content = p.content

/-- A cached page and the page of the file, before and after. -/
abbrev Turn :=
  HeapPage → Except Error HeapPage → HeapPage → Except Error HeapPage → Prop

/-- What happens to a page that is written to its file if that is `due`. -/
inductive Flushed (due : HeapPage → Prop) : Turn
  | spared {p : HeapPage} {f : Except Error HeapPage} (h : ¬ due p) : Flushed due p f p f
  | written {p : HeapPage} {f f' : Except Error HeapPage} (h : due p) (w : Written p f') :
      Flushed due p f (p.mark none) f'

/-- What happens to a page that `tx` commits. -/
inductive Committed (tx : TxId) : Turn
  | own {p : HeapPage} {f f' : Except Error HeapPage} (h : p.dirtiedBy = some tx)
      (w : Written p f') : Committed tx p f (p.mark none).snapshot f'
  | clean {p : HeapPage} {f : Except Error HeapPage} (h : p.dirtiedBy = none) :
      Committed tx p f p.snapshot f
  | foreign {p : HeapPage} {f : Except Error HeapPage} {u : TxId} (h : p.dirtiedBy = some u)
      (hu : u ≠ tx) : Committed tx p f p f

/-- What happens to a page that `tx` gives up. -/
inductive RolledBack (tx : TxId) : Turn
  | own {p p' : HeapPage} {f : Except Error HeapPage} {c : Content} (h : p.dirtiedBy = some tx)
      (reverts : p.Reverts c) (restored : p.Restored c p') : RolledBack tx p f p' f
  | flushed {p p' : HeapPage} {f f' : Except Error HeapPage} {c : Content}
      (h : p.dirtiedBy = none) (changed : p.image ≠ p.beforeImage) (reverts : p.Reverts c)
      (restored : p.Restored c p') (w : Written p' f') : RolledBack tx p f p' f'
  | same {p : HeapPage} {f : Except Error HeapPage} (h : p.dirtiedBy = none)
      (same : p.image = p.beforeImage) : RolledBack tx p f p f
  | foreign {p : HeapPage} {f : Except Error HeapPage} {u : TxId} (h : p.dirtiedBy = some u)
      (hu : u ≠ tx) : RolledBack tx p f p f

/-- What happens to a page that is left alone, because it could not be written. -/
def Left : Turn :=
  fun p f p' f' => p' = p ∧ f' = f

/-- What happens to a page that is given up, but could not be written. -/
def Unreturned : Turn :=
  fun p f p' f' => f' = f ∧ ∃ c, p.Reverts c ∧ p.Restored c p'

/-- What is done to each page on a visit. A page that is `due` has to be written; if that fails its
turn is `halt` instead. -/
structure Visit where
  due : HeapPage → Prop
  turn : Turn
  halt : Turn

namespace Visit

def flush (due : HeapPage → Prop) : Visit :=
  ⟨due, Flushed due, Left⟩

def commit (tx : TxId) : Visit :=
  ⟨fun p => p.dirtiedBy = some tx, Committed tx, Left⟩

def rollback (tx : TxId) : Visit :=
  ⟨fun p => p.dirtiedBy = none ∧ p.image ≠ p.beforeImage, RolledBack tx, Unreturned⟩

end Visit

/-- What a turn of one page never changes. -/
structure Regular (E : Turn) : Prop where
  schema : ∀ {p f p' f'}, E p f p' f' → p'.schema = p.schema
  sound : ∀ {p f p' f'}, E p f p' f' → p.Sound → p'.Sound
  reverts : ∀ {p f p' f'}, E p f p' f' → p.Sound → (∃ c, p.Reverts c) → ∃ c, p'.Reverts c
  owner : ∀ {p f p' f'}, E p f p' f' → p'.dirtiedBy = none ∨ p'.dirtiedBy = p.dirtiedBy
  file : ∀ {p f p' f'}, E p f p' f' → f' = f ∨ Written p' f'

theorem Written.mark {file : Except Error HeapPage} (h : Written p file) (owner : Option TxId) :
    Written (p.mark owner) file :=
  h

theorem Written.snapshot {file : Except Error HeapPage} (h : Written p file) :
    Written p.snapshot file :=
  h

theorem regular_flushed (due : HeapPage → Prop) : Regular (Flushed due) where
  schema h := by cases h <;> rfl
  sound h hp := by
    cases h with
    | spared _ => exact hp
    | written _ _ => exact hp.mark none
  reverts h _ hr := by cases h <;> exact hr
  owner h := by
    cases h with
    | spared _ => exact .inr rfl
    | written _ _ => exact .inl rfl
  file h := by
    cases h with
    | spared _ => exact .inl rfl
    | written _ w => exact .inr (w.mark none)

theorem regular_committed (tx : TxId) : Regular (Committed tx) where
  schema h := by cases h <;> rfl
  sound h hp := by
    cases h with
    | own _ _ => exact (hp.mark none).snapshot
    | clean _ => exact hp.snapshot
    | foreign _ _ => exact hp
  reverts h hp hr := by
    cases h with
    | own _ _ => exact ⟨_, (hp.mark none).reverts_snapshot⟩
    | clean _ => exact ⟨_, hp.reverts_snapshot⟩
    | foreign _ _ => exact hr
  owner h := by
    cases h with
    | own _ _ => exact .inl rfl
    | clean _ => exact .inr rfl
    | foreign _ _ => exact .inr rfl
  file h := by
    cases h with
    | own _ w => exact .inr (w.mark none).snapshot
    | clean _ => exact .inl rfl
    | foreign _ _ => exact .inl rfl

theorem regular_rolledBack (tx : TxId) : Regular (RolledBack tx) where
  schema h := by
    cases h with
    | own _ _ restored => exact restored.schema
    | flushed _ _ _ restored _ => exact restored.schema
    | same _ _ => rfl
    | foreign _ _ => rfl
  sound h hp := by
    cases h with
    | own _ _ restored => exact restored.sound
    | flushed _ _ _ restored _ => exact restored.sound
    | same _ _ => exact hp
    | foreign _ _ => exact hp
  reverts h _ hr := by
    cases h with
    | own _ reverts restored => exact ⟨_, restored.reverts.mpr reverts⟩
    | flushed _ _ reverts restored _ => exact ⟨_, restored.reverts.mpr reverts⟩
    | same _ _ => exact hr
    | foreign _ _ => exact hr
  owner h := by
    cases h with
    | own _ _ restored => exact .inl restored.clean
    | flushed _ _ _ restored _ => exact .inl restored.clean
    | same _ _ => exact .inr rfl
    | foreign _ _ => exact .inr rfl
  file h := by
    cases h with
    | own _ _ _ => exact .inl rfl
    | flushed _ _ _ _ w => exact .inr w
    | same _ _ => exact .inl rfl
    | foreign _ _ => exact .inl rfl

theorem regular_left : Regular Left where
  schema h := by rw [h.1]
  sound h hp := by rwa [h.1]
  reverts h _ hr := by rwa [h.1]
  owner h := .inr (by rw [h.1])
  file h := .inl h.2

theorem regular_unreturned : Regular Unreturned where
  schema h := by
    obtain ⟨_, _, _, restored⟩ := h
    exact restored.schema
  sound h _ := by
    obtain ⟨_, _, _, restored⟩ := h
    exact restored.sound
  reverts h _ _ := by
    obtain ⟨_, c, reverts, restored⟩ := h
    exact ⟨c, restored.reverts.mpr reverts⟩
  owner h := by
    obtain ⟨_, _, _, restored⟩ := h
    exact .inl restored.clean
  file h := .inl h.1

structure Visit.Regular (V : Visit) : Prop where
  turn : Store.Regular V.turn
  halt : Store.Regular V.halt

theorem Visit.regular_flush (due : HeapPage → Prop) : (flush due).Regular :=
  ⟨regular_flushed due, regular_left⟩

theorem Visit.regular_commit (tx : TxId) : (commit tx).Regular :=
  ⟨regular_committed tx, regular_left⟩

theorem Visit.regular_rollback (tx : TxId) : (rollback tx).Regular :=
  ⟨regular_rolledBack tx, regular_unreturned⟩

/-- A page takes its turn, and nothing else is different. -/
structure Takes (T : Tables) (E : Turn) (q : PageId) (p : HeapPage) (s s' : Store) : Prop where
  catalog : s'.catalog = s.catalog
  faults : s'.disk.faults = s.disk.faults
  locks : s'.pool.locks = s.pool.locks
  cache : s'.pool.cache.Consistent
  ids : s'.pool.cache.ids = s.pool.cache.ids
  turn : ∃ p', s'.cached q = some p' ∧ E p (T.page s q) p' (T.page s' q)
  others : ∀ q', q' ≠ q → s'.cached q' = s.cached q' ∧ T.page s' q' = T.page s q'

theorem Takes.intact {E : Turn} (hE : Regular E) (hs : s.Intact T) (hp : s.cached q = some p)
    (h : Takes T E q p s s') : s'.Intact T where
  tables := h.catalog ▸ hs.tables
  readable := by
    rw [Disk.Readable, h.faults]
    exact hs.readable
  locks := h.locks ▸ hs.locks
  cache := h.cache
  pages q' r hr := by
    by_cases hq : q' = q
    · subst hq
      obtain ⟨p', hp', turn⟩ := h.turn
      rw [hp'] at hr
      cases hr
      have old := hs.pages q' p hp
      refine ⟨hE.sound turn old.sound, (hE.schema turn).trans old.schema, ?_,
        hE.reverts turn old.sound old.reverts⟩
      rcases hE.file turn with same | ⟨f, hf, _⟩
      · rw [same]
        exact old.file
      · exact ⟨f, hf⟩
    · obtain ⟨cached, file⟩ := h.others q' hq
      rw [cached] at hr
      have old := hs.pages q' r hr
      refine ⟨old.sound, old.schema, ?_, old.reverts⟩
      rw [file]
      exact old.file

theorem refusal_of_cached {e : Error} (hs : s.Intact T) (hp : s.cached q = some p)
    (id : p'.id = p.id) (failed : s.writing p' = .error e) : Refusal s q e := by
  rw [← id_of_cached hs.cache hp, ← id]
  exact refusal_of_writing hs.tables.plain failed

/-- A page that is written in the place of a cached one reaches its file. -/
theorem written_of_cached {disk : Disk TableId} (hs : s.Intact T) (hp : s.cached q = some p)
    (id : p'.id = p.id) (schema : p'.schema = p.schema) (sound : p'.Sound)
    (wrote : s.writing p' = .ok disk) :
    ¬ s.Refuses q ∧ disk.faults = s.disk.faults ∧ Written p' (T.page { s with disk } q) ∧
      ∀ q', q' ≠ q → T.page { s with disk } q' = T.page s q' := by
  have kept := hs.pages q p hp
  have hid : p'.id = q := id.trans (id_of_cached hs.cache hp)
  obtain ⟨f, hf⟩ := kept.file
  obtain ⟨inRange, decode⟩ := decode_of_readPage hs.readable hf
  have free := free_of_writing hs.tables.plain wrote
  obtain ⟨e, found, wrote⟩ := writing_ok wrote
  rw [hid] at free found
  rw [hs.tables.file found] at wrote
  obtain ⟨_, wrote⟩ := HeapFile.writePage_ok wrote
  rw [hid] at wrote
  have read := wrote.readPage hs.readable (Nat.le_of_lt inRange)
  obtain ⟨g, hg, content⟩ := HeapPage.decode_of_reads sound.reads_image
  refine ⟨free, wrote.faults, ⟨g, ?_, hg, content⟩, ?_⟩
  · have own : q = ⟨(T.file q.table).table, q.number⟩ := by rw [T.table_file]
    rw [Tables.page, read, if_pos ⟨rfl, own⟩, ← kept.schema, ← schema]
    exact hid ▸ hg
  · intro q' hq
    rw [Tables.page, read, if_neg]
    · rfl
    · rintro ⟨_, rfl⟩
      exact hq (by rw [T.table_file])

/-- Putting a page in place after a write, or without one. -/
theorem takes_of_put {E : Turn} {disk : Disk TableId} (hs : s.Intact T) (hp : s.cached q = some p)
    (hid : p'.id = p.id) (faults : disk.faults = s.disk.faults)
    (others : ∀ q', q' ≠ q → T.page { s with disk } q' = T.page s q')
    (turn : E p (T.page s q) p' (T.page { s with disk } q)) :
    Takes T E q p s (put p' { s with disk }).2 where
  catalog := rfl
  faults := faults
  locks := rfl
  cache := hs.cache.update p'
  ids := Cache.ids_update _ _
  turn := by
    refine ⟨p', ?_, turn⟩
    show (s.pool.cache.update p').find? q = _
    have here : s.pool.cache.find? q = some p := hp
    rw [Cache.find?_update, if_pos (id_of_cached hs.cache hp ▸ hid.symm), here]
    rfl
  others q' hq := by
    refine ⟨?_, others q' hq⟩
    show (s.pool.cache.update p').find? q' = _
    rw [Cache.find?_update, if_neg (by rw [hid, id_of_cached hs.cache hp]; exact hq)]
    rfl

theorem takes_of_put_unwritten {E : Turn} (hs : s.Intact T) (hp : s.cached q = some p)
    (hid : p'.id = p.id) (turn : E p (T.page s q) p' (T.page s q)) :
    Takes T E q p s (put p' s).2 :=
  takes_of_put hs hp hid rfl (fun _ _ => rfl) turn

theorem takes_refl {E : Turn} (hs : s.Intact T) (hp : s.cached q = some p)
    (turn : E p (T.page s q) p (T.page s q)) : Takes T E q p s s :=
  ⟨rfl, rfl, rfl, hs.cache, rfl, ⟨p, hp, turn⟩, fun _ _ => ⟨rfl, rfl⟩⟩

/-- `visit` gives every cached page its turn, unless the page is due and cannot be written. -/
def Gives (T : Tables) (visit : HeapPage → StoreM Unit) (V : Visit) : Prop :=
  ∀ {s q p}, s.Intact T → s.cached q = some p →
    (¬ (V.due p ∧ s.Refuses q) ∧ ∃ s', visit p s = (.ok (), s') ∧ Takes T V.turn q p s s') ∨
      V.due p ∧ ∃ e s', Refusal s q e ∧ visit p s = (.error e, s') ∧ Takes T V.halt q p s s'

theorem gives_writeBack : Gives T writeBack (.flush (·.isDirty)) := by
  intro s q p hs hp
  have ends := writesBack p s
  generalize writeBack p s = outcome at ends ⊢
  obtain ⟨r, s'⟩ := outcome
  cases ends with
  | spared clean =>
      have spared : ¬ p.isDirty := by simp [isDirty_eq_false.mpr clean]
      exact .inl ⟨fun h => spared h.1, _, rfl, takes_refl hs hp (.spared spared)⟩
  | refused dirty failed =>
      exact .inr ⟨dirty, _, _, refusal_of_cached hs hp rfl failed, rfl,
        takes_refl hs hp ⟨rfl, rfl⟩⟩
  | written dirty wrote =>
      obtain ⟨free, faults, written, others⟩ :=
        written_of_cached hs hp rfl rfl (hs.pages q p hp).sound wrote
      exact .inl ⟨fun h => free h.2, _, rfl, takes_of_put hs hp rfl faults others
        (.written dirty written)⟩

theorem Flushed.of_due {due due' : HeapPage → Prop} {f f' : Except Error HeapPage}
    (h : Flushed due p f p' f') (hd : due p) (hd' : due' p) : Flushed due' p f p' f' := by
  cases h with
  | spared not => exact absurd hd not
  | written _ w => exact .written hd' w

theorem gives_writeBack_of (tx : TxId) :
    Gives T (fun p => if p.dirtiedBy = some tx then writeBack p else pure ())
      (.flush (·.dirtiedBy = some tx)) := by
  intro s q p hs hp
  by_cases hd : p.dirtiedBy = some tx
  · have dirty : p.isDirty := by simp [HeapPage.isDirty, hd]
    simp only [if_pos hd]
    rcases gives_writeBack hs hp with ⟨free, s', hw, takes⟩ | ⟨_, failed⟩
    · obtain ⟨p', hp', turn⟩ := takes.turn
      exact .inl ⟨fun h => free ⟨dirty, h.2⟩, s', hw,
        { takes with turn := ⟨p', hp', turn.of_due dirty hd⟩ }⟩
    · exact .inr ⟨hd, failed⟩
  · simp only [if_neg hd]
    exact .inl ⟨fun h => hd h.1, s, rfl, takes_refl hs hp (.spared hd)⟩

theorem gives_commitPage (tx : TxId) : Gives T (commitPage tx) (.commit tx) := by
  intro s q p hs hp
  have ends := commitsPage tx p s
  generalize commitPage tx p s = outcome at ends ⊢
  obtain ⟨r, s'⟩ := outcome
  cases ends with
  | refused own failed =>
      exact .inr ⟨own, _, _, refusal_of_cached hs hp rfl failed, rfl, takes_refl hs hp ⟨rfl, rfl⟩⟩
  | own own wrote =>
      obtain ⟨free, faults, written, others⟩ :=
        written_of_cached hs hp rfl rfl (hs.pages q p hp).sound wrote
      exact .inl ⟨fun h => free h.2, _, rfl, takes_of_put hs hp rfl faults others (.own own written)⟩
  | clean clean =>
      refine .inl ⟨fun h => ?_, _, rfl, takes_of_put_unwritten hs hp rfl (.clean clean)⟩
      cases clean.symm.trans h.1
  | foreign owner other =>
      refine .inl ⟨fun h => ?_, _, rfl, takes_of_put_unwritten hs hp rfl (.foreign owner other)⟩
      cases owner.symm.trans h.1
      exact other rfl

theorem gives_rollbackPage (tx : TxId) : Gives T (rollbackPage tx) (.rollback tx) := by
  intro s q p hs hp
  obtain ⟨c, reverts⟩ := (hs.pages q p hp).reverts
  obtain ⟨p', back, restored⟩ := HeapPage.restore_of_reverts reverts
  have ends := rollsBackPage tx p s
  generalize rollbackPage tx p s = outcome at ends ⊢
  obtain ⟨r, s'⟩ := outcome
  have dirty {u : TxId} (owner : p.dirtiedBy = some u) :
      ¬ ((Visit.rollback tx).due p ∧ s.Refuses q) := by
    rintro ⟨⟨clean, _⟩, _⟩
    cases owner.symm.trans clean
  cases ends with
  | unrestored _ failed => cases back.symm.trans failed
  | own own back' =>
      cases back.symm.trans back'
      exact .inl ⟨dirty own, _, rfl,
        takes_of_put_unwritten hs hp restored.id (.own own reverts restored)⟩
  | refused clean changed back' failed =>
      cases back.symm.trans back'
      exact .inr ⟨⟨clean, changed⟩, _, _, refusal_of_cached hs hp restored.id failed, rfl,
        takes_of_put_unwritten hs hp restored.id ⟨rfl, c, reverts, restored⟩⟩
  | flushed clean changed back' wrote =>
      cases back.symm.trans back'
      obtain ⟨free, faults, written, others⟩ :=
        written_of_cached hs hp restored.id restored.schema restored.sound wrote
      exact .inl ⟨fun h => free h.2, _, rfl, takes_of_put hs hp restored.id faults others
        (.flushed clean changed reverts restored written)⟩
  | same clean same =>
      exact .inl ⟨fun h => h.1.2 same, _, rfl, takes_refl hs hp (.same clean same)⟩
  | foreign owner other =>
      exact .inl ⟨dirty owner, _, rfl, takes_refl hs hp (.foreign owner other)⟩

/-- The pages `done` have had their turns, as far as they are cached, and `halt` could not be
written if it is a page. -/
structure Visited (T : Tables) (V : Visit) (done : List PageId) (halt : Option PageId)
    (s s' : Store) : Prop where
  intact : s'.Intact T
  catalog : s'.catalog = s.catalog
  faults : s'.disk.faults = s.disk.faults
  locks : s'.pool.locks = s.pool.locks
  ids : s'.pool.cache.ids = s.pool.cache.ids
  turn : ∀ q ∈ done, ∀ p, s.cached q = some p → ¬ (V.due p ∧ s.Refuses q) ∧
    ∃ p', s'.cached q = some p' ∧ V.turn p (T.page s q) p' (T.page s' q)
  halted : ∀ q, halt = some q → ∃ p, s.cached q = some p ∧ (V.due p ∧ s.Refuses q) ∧
    ∃ p', s'.cached q = some p' ∧ V.halt p (T.page s q) p' (T.page s' q)
  others : ∀ q, q ∉ done ∧ halt ≠ some q ∨ s.cached q = none →
    s'.cached q = s.cached q ∧ T.page s' q = T.page s q

/-- A page is left alone, or it is cached and has had its turn, or it could not be written. -/
theorem Visited.cases {V : Visit} {done : List PageId} {halt : Option PageId}
    (h : Visited T V done halt s s') (q : PageId) :
    ((q ∉ done ∧ halt ≠ some q ∨ s.cached q = none) ∧ s'.cached q = s.cached q ∧
      T.page s' q = T.page s q) ∨
      ∃ p p', s.cached q = some p ∧ s'.cached q = some p' ∧
        (q ∈ done ∧ V.turn p (T.page s q) p' (T.page s' q) ∨
          halt = some q ∧ V.halt p (T.page s q) p' (T.page s' q)) := by
  by_cases hq : q ∉ done ∧ halt ≠ some q ∨ s.cached q = none
  · exact .inl ⟨hq, h.others q hq⟩
  · right
    obtain ⟨p, hp⟩ := Option.ne_none_iff_exists'.mp (not_or.mp hq).2
    by_cases hd : q ∈ done
    · obtain ⟨_, p', hp', turn⟩ := h.turn q hd p hp
      exact ⟨p, p', hp, hp', .inl ⟨hd, turn⟩⟩
    · have stuck : halt = some q := by
        apply Classical.not_not.mp
        intro ne
        exact (not_or.mp hq).1 ⟨hd, ne⟩
      obtain ⟨p₀, hp₀, _, p', hp', turn⟩ := h.halted q stuck
      exact ⟨p₀, p', hp₀, hp', .inr ⟨stuck, turn⟩⟩

theorem Visited.nil {V : Visit} (hs : s.Intact T) : Visited T V [] none s s :=
  ⟨hs, rfl, rfl, rfl, rfl, fun _ hq => absurd hq List.not_mem_nil,
    fun _ hq => (nomatch hq), fun _ _ => ⟨rfl, rfl⟩⟩

/-- A page could not be written, and nothing has been done to any other. -/
theorem Takes.halt {V : Visit} (hV : V.Regular) (hs : s.Intact T) (hp : s.cached q = some p)
    (stuck : V.due p ∧ s.Refuses q) (h : Takes T V.halt q p s s') :
    Visited T V [] (some q) s s' where
  intact := h.intact hV.halt hs hp
  catalog := h.catalog
  faults := h.faults
  locks := h.locks
  ids := h.ids
  turn _ hq := absurd hq List.not_mem_nil
  halted q' hq' := by
    cases hq'
    exact ⟨p, hp, stuck, h.turn⟩
  others q' hq' := by
    apply h.others
    rintro rfl
    rcases hq' with ⟨_, hne⟩ | hnone
    · exact hne rfl
    · rw [hp] at hnone
      cases hnone

theorem Takes.visit {V : Visit} {done : List PageId} {halt : Option PageId} (hq : q ∉ done)
    (hn : halt ≠ some q) (hp : s.cached q = some p) (free : ¬ (V.due p ∧ s.Refuses q))
    (h₁ : Takes T V.turn q p s s₁) (h₂ : Visited T V done halt s₁ s₂) :
    Visited T V (q :: done) halt s s₂ where
  intact := h₂.intact
  catalog := h₂.catalog.trans h₁.catalog
  faults := h₂.faults.trans h₁.faults
  locks := h₂.locks.trans h₁.locks
  ids := h₂.ids.trans h₁.ids
  turn q' hq' r hr := by
    by_cases heq : q' = q
    · subst heq
      rw [hp] at hr
      cases hr
      obtain ⟨cached, file⟩ := h₂.others q' (.inl ⟨hq, hn⟩)
      rw [cached, file]
      exact ⟨free, h₁.turn⟩
    · have hmem : q' ∈ done := (List.mem_cons.mp hq').resolve_left heq
      obtain ⟨cached, file⟩ := h₁.others q' heq
      rw [← cached] at hr
      rw [← file, ← refuses_congr h₁.catalog h₁.faults]
      exact h₂.turn q' hmem r hr
  halted q' hq' := by
    have heq : q' ≠ q := by
      rintro rfl
      exact hn hq'
    obtain ⟨cached, file⟩ := h₁.others q' heq
    rw [← file, ← cached, ← refuses_congr h₁.catalog h₁.faults]
    exact h₂.halted q' hq'
  others q' hq' := by
    have heq : q' ≠ q := by
      rintro rfl
      rcases hq' with ⟨hmem, _⟩ | hnone
      · exact hmem (List.mem_cons_self ..)
      · rw [hp] at hnone
        cases hnone
    obtain ⟨cached, file⟩ := h₁.others q' heq
    have rest : q' ∉ done ∧ halt ≠ some q' ∨ s₁.cached q' = none := by
      rcases hq' with ⟨hmem, hne⟩ | hnone
      · exact .inl ⟨fun h => hmem (List.mem_cons_of_mem _ h), hne⟩
      · exact .inr (cached.trans hnone)
    obtain ⟨cached', file'⟩ := h₂.others q' rest
    exact ⟨cached'.trans cached, file'.trans file⟩

theorem Visited.skip {V : Visit} {done : List PageId} {halt : Option PageId}
    (hp : s.cached q = none) (h : Visited T V done halt s s') :
    Visited T V (q :: done) halt s s' where
  intact := h.intact
  catalog := h.catalog
  faults := h.faults
  locks := h.locks
  ids := h.ids
  turn q' hq' p h' := by
    have heq : q' ≠ q := by
      rintro rfl
      rw [hp] at h'
      cases h'
    exact h.turn q' ((List.mem_cons.mp hq').resolve_left heq) p h'
  halted := h.halted
  others q' hq' := by
    apply h.others q'
    rcases hq' with ⟨hmem, hne⟩ | hnone
    · exact .inl ⟨fun h => hmem (List.mem_cons_of_mem _ h), hne⟩
    · exact .inr hnone

/-- How far a visit to `pages` has come, and what is answered then: all of them have been seen to, or
`halt` could not be written and the pages behind it have not been seen to. -/
inductive Outcome {α : Type} (s : Store) (pages : List PageId) :
    List PageId → Option PageId → Except Error α → Prop
  | all (a : α) : Outcome s pages pages none (.ok a)
  | upTo {done rest : List PageId} {q : PageId} {e : Error} (split : pages = done ++ q :: rest)
      (refusal : Refusal s q e) : Outcome s pages done (some q) (.error e)

theorem Outcome.map {α β : Type} {pages done : List PageId} {halt : Option PageId}
    {r : Except Error α} (h : Outcome s pages done halt r) (f : α → β) :
    Outcome s pages done halt (r.map f) := by
  cases h with
  | all a => exact .all (f a)
  | upTo split refusal => exact .upTo split refusal

/-- One page more has been seen to at the beginning. -/
theorem Outcome.cons {α : Type} {pages done : List PageId} {halt : Option PageId}
    {r : Except Error α} (h : Outcome s₁ pages done halt r)
    (same : ∀ {q e}, Refusal s₁ q e → Refusal s q e) :
    Outcome s (q :: pages) (q :: done) halt r := by
  cases h with
  | all a => exact .all a
  | upTo split refusal => exact .upTo (by rw [split]; rfl) (same refusal)

/-- Only pages in the list are seen to. -/
theorem Outcome.mem {α : Type} {pages done : List PageId} {halt : Option PageId}
    {r : Except Error α} (h : Outcome s pages done halt r) (hq : q ∈ done ∨ halt = some q) :
    q ∈ pages := by
  cases h with
  | all _ =>
      rcases hq with hq | hn
      · exact hq
      · cases hn
  | upTo split _ =>
      rw [split, List.mem_append, List.mem_cons]
      rcases hq with hq | ⟨⟨⟩⟩
      · exact .inl hq
      · exact .inr (.inl rfl)

/-- How far a visit comes: up to the first page that is in the way. -/
theorem Outcome.seen_iff {α : Type} {pages done : List PageId} {halt : Option PageId}
    {r : Except Error α} {S : PageId → Prop} (h : Outcome s pages done halt r)
    (ascending : pages.Pairwise fun p q => compare p q = .lt)
    (free : ∀ q ∈ done, ¬ S q) (stuck : ∀ q, halt = some q → S q) (listed : ∀ q, S q → q ∈ pages)
    (hq : q ∈ pages) : (q ∈ done ∨ halt = some q) ↔ ¬ ∃ q', compare q' q = .lt ∧ S q' := by
  cases h with
  | all _ => exact ⟨fun _ ⟨q', _, hS⟩ => free q' (listed q' hS) hS, fun _ => .inl hq⟩
  | @upTo _ rest q₀ _ split _ =>
      subst split
      obtain ⟨_, behind, before⟩ := List.pairwise_append.mp ascending
      have after := (List.pairwise_cons.mp behind).1
      constructor
      · rintro seen ⟨q', lt, hS⟩
        have late : q' ∈ q₀ :: rest :=
          (List.mem_append.mp (listed q' hS)).resolve_left fun hd => free q' hd hS
        rcases seen with hd | ⟨⟨⟩⟩
        · exact OrientedCmp.not_lt_of_lt (before q hd q' late) lt
        · rcases List.mem_cons.mp late with rfl | hr
          · exact OrientedCmp.not_lt_of_lt lt lt
          · exact OrientedCmp.not_lt_of_lt (after q' hr) lt
      · intro free
        rcases List.mem_append.mp hq with hd | hl
        · exact .inl hd
        · rcases List.mem_cons.mp hl with rfl | hr
          · exact .inr rfl
          · exact absurd ⟨q₀, after q hr, stuck q₀ rfl⟩ free

/-- All is well exactly if no page is in the way. -/
theorem Outcome.ok_iff {α : Type} {pages done : List PageId} {halt : Option PageId}
    {r : Except Error α} {S : PageId → Prop} (h : Outcome s pages done halt r)
    (free : ∀ q ∈ done, ¬ S q) (stuck : ∀ q, halt = some q → S q)
    (listed : ∀ q, S q → q ∈ pages) : (∃ a, r = .ok a) ↔ ∀ q, ¬ S q := by
  cases h with
  | all a => exact ⟨fun _ q hS => free q (listed q hS) hS, fun _ => ⟨a, rfl⟩⟩
  | upTo _ _ =>
      constructor
      · rintro ⟨_, ⟨⟩⟩
      · exact fun h => absurd (stuck _ rfl) (h _)

/-- Pages are visited one after the other. -/
def Sweeps (T : Tables) (V : Visit) (pages : List PageId) (s : Store)
    (r : Except Error Unit × Store) : Prop :=
  ∃ done halt, Outcome s pages done halt r.1 ∧ Visited T V done halt s r.2

theorem sweep {visit : HeapPage → StoreM Unit} {V : Visit} (hV : V.Regular) (hv : Gives T visit V)
    (hs : s.Intact T) {pages : List PageId} (hn : pages.Nodup) :
    Sweeps T V pages s (pages.forM (fun q => withCached q visit) s) := by
  induction pages generalizing s with
  | nil => exact ⟨[], none, .all (), .nil hs⟩
  | cons q pages ih =>
      obtain ⟨hq, hn⟩ := List.nodup_cons.mp hn
      show Sweeps T V (q :: pages) s
        ((withCached q visit >>= fun _ => pages.forM fun q => withCached q visit) s)
      rw [bind_apply, withCached_apply]
      cases hp : s.cached q with
      | none =>
          obtain ⟨done, halt, outcome, visited⟩ := ih hs hn
          refine ⟨q :: done, halt, ?_, visited.skip hp⟩
          exact outcome.cons (fun h => h)
      | some p =>
          simp only
          rcases hv hs hp with ⟨free, s₁, h, takes⟩ | ⟨due, e, s', refusal, h, takes⟩
          · rw [h]
            obtain ⟨done, halt, outcome, visited⟩ := ih (takes.intact hV.turn hs hp) hn
            refine ⟨q :: done, halt, ?_, takes.visit (fun h => hq (outcome.mem (.inl h)))
              (fun h => hq (outcome.mem (.inr h))) hp free visited⟩
            exact outcome.cons (Refusal.congr takes.catalog takes.faults).mp
          · rw [h]
            exact ⟨[], some q, .upTo rfl refusal, takes.halt hV hs hp ⟨due, e, refusal⟩⟩

theorem forM_if (c : PageId → Prop) [DecidablePred c] (g : PageId → StoreM Unit)
    (pages : List PageId) :
    (pages.forM fun q => if c q then g q else pure ()) = (pages.filter c).forM g := by
  induction pages with
  | nil => rfl
  | cons q pages ih =>
      have cons (g : PageId → StoreM Unit) (pages : List PageId) :
          (q :: pages).forM g = g q >>= fun _ => pages.forM g := rfl
      rw [cons, ih, List.filter_cons]
      by_cases hq : c q
      · rw [if_pos hq, if_pos (decide_eq_true hq), cons]
      · rw [if_neg hq, if_neg (by simpa using hq), pure_bind]

theorem sweeps_flushPage (hs : s.Intact T) (q : PageId) :
    Sweeps T (.flush (·.isDirty)) [q] s (flushPage q s) := by
  have single : [q].Nodup := by simp
  have h := sweep (Visit.regular_flush _) gives_writeBack hs single
  have one : [q].forM (fun q => withCached q writeBack) = flushPage q := by
    simp [flushPage]
  rwa [one] at h

theorem sweeps_flushAll (hs : s.Intact T) :
    Sweeps T (.flush (·.isDirty)) s.pool.cache.ids s (flushAll s) :=
  sweep (Visit.regular_flush _) gives_writeBack hs hs.cache.nodup

theorem sweeps_flushTx (hs : s.Intact T) (tx : TxId) :
    Sweeps T (.flush (·.dirtiedBy = some tx)) (s.pool.locks.pagesOf tx) s (flushTx tx s) :=
  sweep (Visit.regular_flush _) (gives_writeBack_of tx) hs (LockTable.nodup_pagesOf _ tx)

theorem sweeps_commit (hs : s.Intact T) (tx : TxId) :
    Sweeps T (.commit tx) (s.pool.locks.pagesOf tx) s (commit tx s) :=
  sweep (Visit.regular_commit tx) (gives_commitPage tx) hs (LockTable.nodup_pagesOf _ tx)

theorem sweeps_rollback (hs : s.Intact T) (tx : TxId) :
    Sweeps T (.rollback tx)
      ((s.pool.locks.pagesOf tx).filter fun q => s.mode? tx q = some .exclusive) s
      (rollback tx s) := by
  have h := sweep (Visit.regular_rollback tx) (gives_rollbackPage tx) hs
    ((LockTable.nodup_pagesOf s.pool.locks tx).filter
      fun q => s.pool.locks.mode? tx q = some .exclusive)
  rw [← forM_if] at h
  exact h

/-- The pages listed have had their turns, as far as they are cached. -/
structure Swept (E : Turn) (pages : List PageId) (s s' : Store) : Prop where
  sound : s'.Sound
  catalog : s'.catalog = s.catalog
  locks : s'.pool.locks = s.pool.locks
  ids : s'.pool.cache.ids = s.pool.cache.ids
  turn : ∀ q ∈ pages, ∀ p, s.cached q = some p →
    ∃ p', s'.cached q = some p' ∧ E p (s.onFile q) p' (s'.onFile q)
  others : ∀ q, q ∉ pages ∨ s.cached q = none →
    s'.cached q = s.cached q ∧ s'.onFile q = s.onFile q

/-- A page is left alone, or it is cached and has had its turn. -/
theorem Swept.cases {E : Turn} {pages : List PageId} (h : Swept E pages s s') (q : PageId) :
    ((q ∉ pages ∨ s.cached q = none) ∧ s'.cached q = s.cached q ∧ s'.onFile q = s.onFile q) ∨
      ∃ p p', s.cached q = some p ∧ s'.cached q = some p' ∧
        E p (s.onFile q) p' (s'.onFile q) := by
  by_cases hq : q ∉ pages ∨ s.cached q = none
  · exact .inl ⟨hq, h.others q hq⟩
  · simp only [not_or, Classical.not_not] at hq
    obtain ⟨p, hp⟩ := Option.ne_none_iff_exists'.mp hq.2
    obtain ⟨p', hp', turn⟩ := h.turn q hq.1 p hp
    exact .inr ⟨p, p', hp, hp', turn⟩

theorem Visited.owned {V : Visit} {done : List PageId} {halt : Option PageId} (hV : V.Regular)
    (h : Visited T V done halt s s') (ho : s.Owned) : s'.Owned := by
  intro q r u hr hu
  rw [Store.mode?, h.locks]
  rcases h.cases q with ⟨_, cached, _⟩ | ⟨p, p', hp, hp', turn⟩
  · exact ho q r u (cached ▸ hr) hu
  · obtain rfl : p' = r := Option.some.inj (hp'.symm.trans hr)
    have owner : p'.dirtiedBy = none ∨ p'.dirtiedBy = p.dirtiedBy := by
      rcases turn with ⟨_, turn⟩ | ⟨_, turn⟩
      · exact hV.turn.owner turn
      · exact hV.halt.owner turn
    rcases owner with clean | same
    · rw [clean] at hu
      cases hu
    · exact ho q p u hp (same ▸ hu)

theorem Visited.reliable {V : Visit} {done : List PageId} {halt : Option PageId}
    (h : Visited T V done halt s s') (hd : s.disk.Reliable) : s'.disk.Reliable :=
  ⟨by rw [h.faults]; exact hd.read, by rw [h.faults]; exact hd.write⟩

theorem Visited.registered {V : Visit} {done : List PageId} {halt : Option PageId}
    (h : Visited T V done halt s s') (hs : s.Sound) (hp : s'.cached q = some p) :
    ∃ e, s'.catalog.find q.table = .ok e := by
  rw [h.catalog]
  rcases h.cases q with ⟨_, cached, _⟩ | ⟨_, _, hp₀, _⟩
  · exact hs.registered (cached ▸ hp)
  · exact hs.registered hp₀

/-- Pages of tables that are registered are looked at in the files that the catalog names. -/
theorem onFile_congr (ht : T.Hold s.catalog) (hc : s'.catalog = s.catalog)
    (h : T.page s' q = T.page s q) : s'.onFile q = s.onFile q := by
  cases he : s.catalog.find q.table with
  | error e => simp only [onFile, hc, he, bind, Except.bind]
  | ok e => rw [onFile_eq_page ht he, onFile_eq_page (hc ▸ ht) (hc ▸ he), h]

theorem Visited.swept {V : Visit} {pages : List PageId} (hs : s.Sound) (hV : V.Regular)
    (h : Visited (.ofCatalog s.catalog) V pages none s s') : Swept V.turn pages s s' := by
  have ht := Tables.hold_ofCatalog hs.plain
  have ht' : (Tables.ofCatalog s.catalog).Hold s'.catalog := by rwa [h.catalog]
  refine ⟨?_, h.catalog, h.locks, h.ids, ?_, ?_⟩
  · exact h.intact.sound (h.reliable hs.reliable) (fun q p => h.registered hs) (h.owned hV hs.owned)
  · intro q hq p hp
    obtain ⟨e, he⟩ := hs.registered hp
    rw [onFile_eq_page ht he, onFile_eq_page ht' (h.catalog ▸ he)]
    exact (h.turn q hq p hp).2
  · intro q hq
    obtain ⟨cached, page⟩ := h.others q (hq.imp_left fun hq => ⟨hq, fun h => nomatch h⟩)
    exact ⟨cached, onFile_congr ht h.catalog page⟩

/-- In a sound store only the medium can refuse a page that is cached. -/
theorem Refusal.io {e : Error} (hs : s.Sound) (hp : s.cached q = some p) (h : Refusal s q e) :
    ∃ cause, e = .io cause :=
  h.of_medium (hs.registered hp) (hs.addressable hp)

end HeapStore.Store
