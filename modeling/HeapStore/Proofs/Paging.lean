import HeapStore.Proofs.Growth
import HeapStore.Proofs.Page.RoundTrip
import HeapStore.Proofs.Store.Basic

/-!
A heap file, of whatever length, is an array of pages. To write a page in any place changes that
page and no other; if the place is past the end, the pages in between are empty. What is written is
read again by the types that it was written with.
-/

namespace HeapStore
open Std Bytes

namespace HeapFile
variable {f g : HeapFile} {d d' : Disk TableId} {p p' : HeapPage} {n m : Nat} {data : List UInt8}

/-- The file read as an array: as many pages as there are whole ones in it, and one more if there is
a rest, which is read with zeros after it. Far beyond them not even the offset can be computed. -/
structure Paged (f : HeapFile) (d : Disk TableId) : Prop where
  pages : ∀ n, n < f.numPages d ↔ n * pageSize < (d.content f.id).length
  beyond : ∀ n, PageId.Addressable ⟨f.table, n⟩ →
    (f.readPage d ⟨f.table, n⟩ = .error (.pageOutOfRange ⟨f.table, n⟩) ↔ f.numPages d ≤ n)
  overflow : ∀ n, ¬ PageId.Addressable ⟨f.table, n⟩ →
    f.readPage d ⟨f.table, n⟩ = .error (.overflow ⟨f.table, n⟩)
  within : ∀ n < f.numPages d, f.readPage d ⟨f.table, n⟩ =
    HeapPage.decode ⟨f.table, n⟩ f.schema (resize ((d.content f.id).drop (n * pageSize)) pageSize)

theorem paged (readable : d.Readable) (f : HeapFile) : f.Paged d where
  pages := lt_numPages_iff f d
  beyond n addressable := by
    rw [readPage_eq readable, PageId.missing_of_addressable addressable]
    by_cases inside : n < f.numPages d
    · rw [if_pos ⟨rfl, inside⟩]
      constructor
      · intro missing
        obtain ⟨_, corrupted⟩ := HeapPage.decode_error missing
        cases corrupted
      · exact fun outside => absurd inside (Nat.not_lt_of_le outside)
    · rw [if_neg fun h => inside h.2]
      exact ⟨fun _ => Nat.le_of_not_lt inside, fun _ => rfl⟩
  overflow n far := by
    rw [readPage_of_outside fun h => far (addressable_of_inside h.2), PageId.missing, if_neg far]
  within n inside := by
    rw [readPage_eq readable, if_pos ⟨rfl, inside⟩]
    rfl

/-- A page that has been skipped between the end of the file and the block that is written. -/
theorem Wrote.readPage_skipped (h : f.Wrote n data d d') (readable : d.Readable)
    (same : g.id = f.id) (outside : f.numPages d ≤ m) (below : m < n) :
    g.readPage d' ⟨f.table, m⟩ = .ok (.empty ⟨f.table, m⟩ g.schema) := by
  have table : f.table = g.table := congrArg FileId.name same.symm
  have inside : m < max (f.numPages d) (n + 1) := by omega
  rw [readPage_eq (h.readable readable), numPages_congr same, blockAt_congr same, h.numPages,
    h.blockAt, if_pos ⟨table, inside⟩, if_neg (Nat.ne_of_lt below), blockAt_of_le outside,
    HeapPage.decode_zeros]

/-- What a write that has gone well leaves: a clean page, and a file in which it is in its place. -/
structure Takes (f : HeapFile) (d : Disk TableId) (p p' : HeapPage) (d' : Disk TableId) :
    Prop where
  clean : p' = p.mark none
  numPages : f.numPages d' = max (f.numPages d) (p.id.number + 1)
  readback : p.id.table = f.table → ∀ g : HeapFile, g.id = f.id → g.schema.types = p.schema.types →
    ∃ q, g.readPage d' p.id = .ok q ∧ q.image = p.image
  others : ∀ (g : HeapFile) (q : PageId), q.number < g.numPages d →
    g.id ≠ f.id ∨ q.number ≠ p.id.number → g.readPage d' q = g.readPage d q
  skipped : ∀ n, f.numPages d ≤ n → n < p.id.number → ∀ g : HeapFile, g.id = f.id →
    g.readPage d' ⟨f.table, n⟩ = .ok (.empty ⟨f.table, n⟩ g.schema)

theorem takes (readable : d.Readable) (sound : p.Sound) (written : f.writePage d p = .ok (p', d')) :
    f.Takes d p p' d' := by
  obtain ⟨clean, wrote⟩ := writePage_ok written
  constructor
  case clean => exact clean
  case numPages => exact wrote.numPages
  case readback =>
    intro table g same types
    obtain ⟨q, read, image, _⟩ := sound.reload types
    have here : p.id = ⟨f.table, p.id.number⟩ := by rw [← table]
    refine ⟨q, ?_, image⟩
    rw [wrote.readPage_of readable g p.id fun _ _ below => absurd below (Nat.lt_irrefl _),
      if_pos ⟨same, here⟩]
    exact read
  case others =>
    intro g q inside other
    have near : g.id = f.id → q.table = f.table → q.number < p.id.number →
        q.number < f.numPages d := fun same _ _ => numPages_congr same d ▸ inside
    rw [wrote.readPage_of readable g q near, if_neg]
    rintro ⟨same, rfl⟩
    exact other.elim (· same) (· rfl)
  case skipped =>
    exact fun n outside below g same => wrote.readPage_skipped readable same outside below

structure Appends (f : HeapFile) (d d' : Disk TableId) : Prop where
  numPages : f.numPages d' = f.numPages d + 1
  empty : ∀ g : HeapFile, g.id = f.id → g.readPage d' ⟨f.table, f.numPages d⟩ =
    .ok (.empty ⟨f.table, f.numPages d⟩ g.schema)
  others : ∀ (g : HeapFile) (q : PageId), g.id ≠ f.id ∨ q ≠ ⟨f.table, f.numPages d⟩ →
    g.readPage d' q = g.readPage d q

theorem appends (readable : d.Readable) (appended : f.appendPage d = .ok d') : f.Appends d d' := by
  have read := readPage_appended readable appended
  constructor
  case numPages => exact numPages_appendPage appended
  case empty =>
    intro g same
    rw [read, if_pos ⟨same, rfl⟩]
  case others =>
    intro g q other
    rw [read, if_neg]
    rintro ⟨same, here⟩
    exact other.elim (· same) (· here)

/-- Whatever bytes a file has, it is read as an array of pages. A page, whatever has been done to it
since it was empty or read, is written in its place, and it is read again by its own types; an empty
page is added after the last one; and no other page is read in any other way than before. If the
medium does not take the page, nothing changes at all, and a cached page stays as dirty as it was. -/
theorem file_is_array_of_pages {id : PageId} {schema : Schema} {p₀ : HeapPage}
    (readable : d.Readable)
    (origin : p₀ = .empty id schema ∨ ∃ data, HeapPage.decode id schema data = .ok p₀)
    (edits : List PageEdit) (f : HeapFile) :
    let p := p₀.edited edits
    p.id = id ∧ p.schema = schema ∧ f.Paged d ∧
      ((∃ e, f.writePage d p = .error e) ↔ Refuses d ⟨f.table, id.number⟩) ∧
      (∀ p' d', f.writePage d p = .ok (p', d') → f.Takes d p p' d') ∧
      (∀ e, f.writePage d p = .error e → ∀ s : Store, s.disk = d →
        (do Store.put (← Store.writeDirect f p) : StoreM Unit) s = (.error e, s)) ∧
      ((∃ e, f.appendPage d = .error e) ↔ Refuses d ⟨f.table, f.numPages d⟩) ∧
      ∀ d', f.appendPage d = .ok d' → f.Appends d d' := by
  intro p
  have formed : p.Formed id schema := HeapPage.formed_edited origin edits
  clear_value p
  obtain ⟨rfl, rfl, sound, _⟩ := formed
  refine ⟨rfl, rfl, paged readable f, writePage_eq_error_iff,
    fun _ _ written => takes readable sound written, ?_, appendPage_eq_error,
    fun _ appended => appends readable appended⟩
  rintro e failed s rfl
  rw [Store.bind_apply, Store.writeDirect_apply, failed]

/-- A file of one page and ten bytes more. -/
def cutShort : Disk TableId :=
  ({} : Disk TableId).replace ⟨.file 1, 0⟩ (List.replicate 4106 1)

/-- Two pages are there, the one that is cut short among them, and one is skipped. -/
theorem page_written_past_cut_page :
    let f : HeapFile := ⟨.file 1, 0, HeapPage.overfullRow.schema⟩
    let p := (HeapPage.empty ⟨.file 1, 3⟩ HeapPage.overfullRow.schema).edited HeapPage.overfullEdits
    cutShort.Readable ∧ f.numPages cutShort = 2 ∧ f.Paged cutShort ∧
      ∃ p' d', f.writePage cutShort p = .ok (p', d') ∧ f.Takes cutShort p p' d' ∧
        f.numPages d' = 4 := by
  intro f p
  have readable : cutShort.Readable := fun _ _ => rfl
  have two : f.numPages cutShort = 2 := by decide +kernel
  obtain ⟨place, _, paged, refused, took, _⟩ :=
    file_is_array_of_pages readable (.inl rfl) HeapPage.overfullEdits f
  refine ⟨readable, two, paged, ?_⟩
  cases written : f.writePage cutShort p with
  | error e => exact absurd (refused.mp ⟨e, written⟩) (by unfold Refuses; decide +kernel)
  | ok result =>
      have takes := took _ _ written
      exact ⟨_, _, rfl, takes, takes.numPages.trans (by rw [two, place]; rfl)⟩

/-- A row of the one number 7. -/
def sevenRow : Tuple where
  schema := ⟨[⟨.int, some "number"⟩], List.cons_ne_nil _ _⟩
  values := [some (.int 7)]
  fits := ⟨fun _ h => by cases h; rfl, trivial⟩

/-- Files do not tell the types of their pages: a page of numbers is not read by a handle for
strings, though it can be written by it. -/
theorem page_misread_by_other_types :
    let f : HeapFile := ⟨.file 0, 0, ⟨[⟨.string, none⟩], List.cons_ne_nil _ _⟩⟩
    let p := (HeapPage.empty ⟨.file 0, 0⟩ sevenRow.schema).edited
      [.insert sevenRow, .mark (some ⟨1⟩)]
    p.id.table = f.table ∧ ∃ p' d' q, f.writePage {} p = .ok (p', d') ∧
      f.readPage d' p.id = .ok q ∧ q.image ≠ p.image := by
  intro f p
  have apart : (((f.writePage {} p).bind fun written => f.readPage written.2 p.id).map
      fun q => decide (q.image = p.image)).toOption = some false := by
    decide +kernel
  cases written : f.writePage {} p with
  | error e =>
      rw [written] at apart
      cases apart
  | ok result =>
      obtain ⟨p', d'⟩ := result
      rw [written] at apart
      cases read : f.readPage d' p.id with
      | error e =>
          simp only [Except.bind, read] at apart
          cases apart
      | ok q =>
          simp only [Except.bind, read] at apart
          exact ⟨rfl, p', d', q, rfl, read, of_decide_eq_false (Option.some.inj apart)⟩

end HeapFile
end HeapStore
