import HeapStore.Proofs.Act
import HeapStore.Proofs.Page.Canonical
import HeapStore.Proofs.Store.Reachable

/-!
The end of a transaction that has only read. An abort takes a clean page for one that has been
flushed if it would not be written as it was read. So it leaves the files alone exactly if they have
every page that the transaction may write to in the form in which pages are written.
-/

namespace HeapStore
open Store

/-- A page that has just been read goes back to itself. -/
theorem HeapPage.restore_of_decode {id : PageId} {schema : Schema} {data : List UInt8}
    {p : HeapPage} (h : decode id schema data = .ok p) : p.restore = .ok p := by
  obtain ⟨content, read, h⟩ := bind_ok_iff.mp h
  cases h
  simp only [restore, read, bind, Except.bind]

/-- A page that has never been written is in the form in which it is written. -/
theorem HeapPage.canonical_zeros (schema : Schema) : Canonical schema (Bytes.zeros pageSize) where
  free i hi _ := by
    have fit := Schema.slotOffset_add_width_le hi
    rw [Schema.slotBytes, Bytes.zeros, List.drop_replicate, List.take_replicate,
      Nat.min_eq_left (by omega), Bytes.zeros]
  rest := List.drop_replicate
  tidy i hi used := by
    have byte : (Bytes.zeros pageSize).getD (i / 8) 0 = 0 := Bytes.byteAt_zeros pageSize (i / 8)
    rw [slotBit, byte, UInt8.toNat_zero, Nat.zero_testBit] at used
    cases used

/-- What a page is read from is all in the bytes of the file. -/
theorem HeapFile.readPage_congr {f : HeapFile} {d d' : Disk TableId} (hd : d.Readable)
    (hd' : d'.Readable) (same : ∀ file, d'.content file = d.content file) (q : PageId) :
    f.readPage d' q = f.readPage d q := by
  have pages : f.numPages d' = f.numPages d := by
    rw [numPages, Disk.length, same, numPages, Disk.length]
  rw [readPage_eq hd', readPage_eq hd, pages, blockAt, same, blockAt]

variable {s s' : Store} {a : Act} {acts : List Act} {tx : TxId} {q : PageId} {p : HeapPage}

theorem Act.gathers (reads : a.IsReading) (s : Store) : Gathers s (a.perform s).2 := by
  cases a with
  | scan sc request => exact gathering.request (fun q => gathers_fetch sc.tx q .readOnly) request s
  | insertInto f tx t => exact reads.elim
  | deleteFrom f tx rid => exact reads.elim
  | call c =>
      cases c with
      | get tx q access =>
          rw [perform, Call.perform, map_apply]
          exact gathers_fetch tx q access s
      | _ => exact reads.elim

namespace Store

theorem undergo_gathers (reads : ∀ a ∈ acts, a.IsReading) (s : Store) :
    Gathers s (undergo acts s).2 := by
  induction acts generalizing s with
  | nil => exact gathering.refl s
  | cons a acts ih =>
      have first := a.gathers (reads a (List.mem_cons_self ..)) s
      exact gathering.trans first (ih (fun a ha => reads a (List.mem_cons_of_mem _ ha)) _)

theorem undergo_sound (reads : ∀ a ∈ acts, a.IsReading) (hs : s.Sound) :
    (undergo acts s).2.Sound := by
  induction acts generalizing s with
  | nil => exact hs
  | cons a acts ih =>
      obtain ⟨_, peeks⟩ := a.peeks hs (reads a (List.mem_cons_self ..))
      exact ih (fun a ha => reads a (List.mem_cons_of_mem _ ha)) (peeks.calm.sound hs)

/-- Every cached page is as its file has it. -/
def Mirrored (s : Store) : Prop :=
  ∀ q p, s.cached q = some p → s.onFile q = .ok p

theorem Gathers.mirrored (h : Gathers s s') (plain : s.catalog.Plain) (mirrored : s.Mirrored) :
    s'.Mirrored := by
  obtain ⟨catalog, disk, cached⟩ := h plain
  intro q p here
  rcases cached q with same | came
  · simpa only [onFile, catalog, disk] using mirrored q p (same ▸ here)
  · exact came p here

theorem Mirrored.decode (mirrored : s.Mirrored) (here : s.cached q = some p) :
    ∃ e, s.catalog.find q.table = .ok e ∧
      HeapPage.decode q e.file.schema (e.file.blockAt s.disk q.number) = .ok p := by
  have read := mirrored q p here
  obtain ⟨e, entry⟩ := find_of_onFile read
  simp only [onFile, entry, bind, Except.bind] at read
  rw [HeapFile.readPage_apply] at read
  split at read
  next =>
    split at read
    · cases read
    · exact ⟨e, entry, read⟩
  next => cases read

/-- The files have every cached page that `tx` may write to in the form in which it is written. -/
def Neat (tx : TxId) (s : Store) : Prop :=
  ∀ q e, s.catalog.find q.table = .ok e → (s.cached q).isSome → s.mode? tx q = some .exclusive →
    HeapPage.Canonical e.file.schema (e.file.blockAt s.disk q.number)

theorem forM_of_idle {α : Type} {f : α → StoreM Unit} {as : List α}
    (idle : ∀ a ∈ as, f a s = (.ok (), s)) : as.forM f s = (.ok (), s) := by
  induction as with
  | nil => rfl
  | cons a as ih =>
      show (f a >>= fun _ => as.forM f) s = _
      rw [bind_apply, idle a (List.mem_cons_self ..)]
      exact ih fun b hb => idle b (List.mem_cons_of_mem _ hb)

/-- A page that would be written as it was read is left alone. -/
theorem rollbackPage_idle (clean : p.dirtiedBy = none) (same : p.image = p.beforeImage) (tx : TxId)
    (s : Store) : rollbackPage tx p s = (.ok (), s) := by
  have ends := rollsBackPage tx p s
  generalize rollbackPage tx p s = outcome at ends ⊢
  obtain ⟨r, s'⟩ := outcome
  cases ends with
  | unrestored due _ =>
      rcases due with own | ⟨_, changed⟩
      · cases clean.symm.trans own
      · exact absurd same changed
  | own own _ => cases clean.symm.trans own
  | refused _ changed _ _ | flushed _ changed _ _ => exact absurd same changed
  | same _ _ | foreign _ _ => rfl

theorem Mirrored.abort (mirrored : s.Mirrored) (neat : s.Neat tx) :
    complete tx .abort s = (.ok (), { s with pool.locks := s.pool.locks.releaseAll tx }) := by
  have idle : rollback tx s = (.ok (), s) := by
    rw [rollback, bind_apply, get_apply]
    apply forM_of_idle
    intro q _
    split
    next locked =>
      rw [withCached_apply]
      cases here : s.cached q with
      | none => rfl
      | some p =>
          obtain ⟨e, entry, decoded⟩ := mirrored.decode here
          obtain ⟨_, _, _, clean, before⟩ := HeapPage.decode_ok decoded
          have canonical := neat q e entry (by rw [here]; rfl) locked
          exact rollbackPage_idle clean
            (before ▸ (HeapPage.image_eq_iff decoded).mpr canonical) tx s
    next => rfl
  simp only [complete, idle]

theorem Mirrored.neat (mirrored : s.Mirrored) (sound : s.Sound)
    (ended : (complete tx .abort s).1 = .ok ())
    (same : ∀ file, (complete tx .abort s).2.disk.content file = s.disk.content file) :
    s.Neat tx := by
  intro q e entry cached locked
  obtain ⟨p, here⟩ := Option.isSome_iff_exists.mp cached
  obtain ⟨e', entry', decoded⟩ := mirrored.decode here
  obtain rfl := Except.ok.inj (entry.symm.trans entry')
  obtain ⟨_, _, _, clean, before⟩ := HeapPage.decode_ok decoded
  rw [← HeapPage.image_eq_iff decoded]
  rcases complete_cases sound tx .abort with ⟨_, s', failed⟩ | ⟨s', done, completes⟩
  · rw [failed] at ended
    cases ended
  · rw [done] at same
    obtain ⟨p', _, turn⟩ := completes.turn q p here locked
    have read := mirrored q p here
    have again : s'.onFile q = .ok p := by
      rw [← read]
      simp only [onFile, completes.catalog, entry, bind, Except.bind]
      exact HeapFile.readPage_congr sound.reliable.read completes.sound.reliable.read same q
    rw [again, read] at turn
    replace turn : RolledBack tx p (.ok p) p' (.ok p) := turn
    cases turn with
    | own dirty _ _ => exact absurd dirty (ne_some_of_clean tx clean)
    | foreign dirty _ => exact absurd dirty (ne_some_of_clean _ clean)
    | same _ image => exact image.trans before
    | flushed _ changed _ restored written =>
        obtain rfl : p = p' :=
          Except.ok.inj ((HeapPage.restore_of_decode decoded).symm.trans restored.same)
        obtain ⟨f, file, reread, _⟩ := written
        obtain rfl := Except.ok.inj file
        exact absurd (HeapPage.decode_ok reread).2.2.2.2.symm changed

/-- Whoever has only read, and is given up, leaves the files as they were, and lets go of the locks,
if every page that was locked for writing and is cached is in its file in the form in which it is
written. On a medium that does not fail there is no other way for the files to stay as they were. -/
theorem reader_leaves_files {config : Config} (new : Pool.new? config = some s.pool)
    (plain : s.catalog.Plain) (reads : ∀ a ∈ acts, a.IsReading)
    (after : (undergo acts s).2 = s') :
    s'.catalog = s.catalog ∧ s'.disk = s.disk ∧
      (s'.Neat tx →
        complete tx .abort s' =
          (.ok (), { s' with pool.locks := s'.pool.locks.releaseAll tx })) ∧
      (s.disk.Reliable → (complete tx .abort s').1 = .ok () →
        (∀ file, (complete tx .abort s').2.disk.content file = s.disk.content file) →
          s'.Neat tx) := by
  have gathers : Gathers s s' := after ▸ undergo_gathers reads s
  obtain ⟨catalog, disk, _⟩ := gathers plain
  have mirrored : s'.Mirrored := gathers.mirrored plain fun q p here => by
    rw [cached_of_new new] at here
    cases here
  refine ⟨catalog, disk, mirrored.abort, fun reliable ended same => ?_⟩
  have opened : Opened config s := ⟨new, plain, reliable⟩
  exact mirrored.neat (after ▸ undergo_sound reads opened.sound) ended (disk ▸ same)

theorem partial_page_left_alone :
    let s := sample (Bytes.zeros 1) 1 (by decide)
    let s' := (undergo [.call (.get ⟨1⟩ samplePage .readWrite)] s).2
    (s'.cached samplePage).isSome ∧ s'.mode? ⟨1⟩ samplePage = some .exclusive ∧
      complete ⟨1⟩ .abort s' =
        (.ok (), { s' with pool.locks := s'.pool.locks.releaseAll ⟨1⟩ }) := by
  intro s s'
  obtain ⟨here, locked⟩ : (s'.cached samplePage).isSome ∧
      s'.mode? ⟨1⟩ samplePage = some .exclusive := by
    decide +kernel
  have opened : Opened (sampleConfig 1) s := opened_sample (by decide) (by decide)
  have content (file : FileId TableId) : ∃ k, s.disk.content file = [] ++ Bytes.zeros k := by
    have fits : (Bytes.zeros 1).length ≤ Disk.maxLength := by decide
    simp only [s, sample, Disk.content_replace _ _ _ fits]
    split
    · exact ⟨1, rfl⟩
    · exact ⟨0, rfl⟩
  have after : (undergo [.call (.get ⟨1⟩ samplePage .readWrite)] s).2 = s' := rfl
  clear_value s s'
  obtain ⟨_, disk, alone, _⟩ := reader_leaves_files opened.pool opened.plain
    (by simp [Act.IsReading]) after
  refine ⟨here, locked, alone fun q e _ _ _ => ?_⟩
  obtain ⟨k, zeros⟩ := content e.file.id
  rw [HeapFile.blockAt, disk, zeros, Bytes.block_append_zeros, Bytes.block_of_length_le (by simp)]
  exact HeapPage.canonical_zeros _

/-- An empty page, but for a byte in its first slot. -/
def strayByte : List UInt8 :=
  Bytes.resize [0, 0, 0, 0, 255] pageSize

/-- Such a page is written when a transaction is given up that has only got it. -/
theorem stray_byte_wiped :
    let s := sample strayByte 1 (by decide)
    let ended := complete ⟨1⟩ .abort (undergo [.call (.get ⟨1⟩ samplePage .readWrite)] s).2
    Opened (sampleConfig 1) s ∧ (s.onFile samplePage).isOk ∧ ended.1 = .ok () ∧
      ended.2.disk.content sampleEntry.file.id ≠ s.disk.content sampleEntry.file.id :=
  ⟨opened_sample (by decide) (by decide), by decide +kernel⟩

end Store
end HeapStore
