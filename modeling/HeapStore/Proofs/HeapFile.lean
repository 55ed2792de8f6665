import HeapStore.HeapFile
import HeapStore.Proofs.Page.Image

/-!
A heap file is an array of blocks of the size of a page: reading decodes one block, writing
replaces one and appending adds a block of zeros. Each leaves every other block as it was, also
in a file that ends in the middle of one. Nothing is said of a medium that fails.
-/

namespace HeapStore
open Std Bytes

namespace Disk
variable {κ : Type} [Ord κ] [TransOrd κ]

/-- The medium gives back what it has taken, though it may refuse to take more. -/
def Readable (d : Disk κ) : Prop :=
  ∀ name offset, d.faults.read name offset = false

/-- The medium fails nowhere. -/
structure Reliable (d : Disk κ) : Prop where
  read : ∀ name offset, d.faults.read name offset = false
  write : ∀ name offset, d.faults.write name offset = false

theorem length_content_le (d : Disk κ) (file : FileId κ) : (d.content file).length ≤ maxLength := by
  unfold content
  split
  next bs _ => exact bs.property
  next => exact Nat.zero_le _

theorem content_replace [LawfulEqOrd κ] [DecidableEq κ] (d : Disk κ) (file file' : FileId κ)
    {bs : List UInt8} (fits : bs.length ≤ maxLength) :
    (d.replace file bs).content file' = if file' = file then bs else d.content file' := by
  simp only [content, replace, dif_pos fits, ExtTreeMap.getElem?_insert, Std.compare_eq_iff_eq]
  by_cases h : file = file'
  · simp [h]
  · simp [h, Ne.symm h]

/-- What a write that has gone well does. -/
structure Written [DecidableEq κ] (file : FileId κ) (offset : Nat) (data : List UInt8)
    (d d' : Disk κ) : Prop where
  room : offset + data.length ≤ maxLength
  frame : d' = { d with contents := d'.contents }
  content : ∀ file', d'.content file' =
    if file' = file then writeAt (d.content file) offset data else d.content file'

theorem written_of_write [LawfulEqOrd κ] [DecidableEq κ] {d d' : Disk κ} {file : FileId κ}
    {offset : Nat} {data : List UInt8} (some : data ≠ [])
    (h : d.write file offset data = .ok d') : Written file offset data d d' := by
  rw [write, if_neg some] at h
  split at h
  next => cases h
  next accepted =>
    cases h
    have room : offset + data.length ≤ maxLength := by omega
    refine ⟨room, rfl, fun file' => content_replace d file file' ?_⟩
    rw [length_writeAt some]
    exact Nat.max_le.mpr ⟨d.length_content_le file, room⟩

theorem Written.faults [DecidableEq κ] {d d' : Disk κ} {file : FileId κ} {offset : Nat}
    {data : List UInt8} (h : Written file offset data d d') : d'.faults = d.faults := by
  rw [h.frame]

/-- Whatever is written, no file gets shorter. -/
theorem length_le_of_write [LawfulEqOrd κ] [DecidableEq κ] {d d' : Disk κ} {file : FileId κ}
    {offset : Nat} {data : List UInt8} (h : d.write file offset data = .ok d') (file' : FileId κ) :
    d.length file' ≤ d'.length file' := by
  by_cases none : data = []
  · rw [write, if_pos none] at h
    cases h
    exact Nat.le_refl _
  · rw [length, length, (written_of_write none h).content]
    split
    next same =>
      rw [same, length_writeAt none]
      exact Nat.le_max_left ..
    next => exact Nat.le_refl _

end Disk

namespace PageId
variable {page : PageId}

/-- A machine word can tell where the page starts. -/
def Addressable (page : PageId) : Prop :=
  page.offset < wordSize

instance (page : PageId) : Decidable page.Addressable :=
  inferInstanceAs (Decidable (page.offset < wordSize))

theorem addressable_iff : page.Addressable ↔ page.number < 1 <<< 52 := by
  have words : wordSize = (1 <<< 52) * 4096 := by decide
  rw [Addressable, offset, words, show pageSize = 4096 from rfl]
  omega

theorem offset?_of_addressable (h : page.Addressable) : page.offset? = some page.offset :=
  if_pos h

theorem offset?_of_not_addressable (h : ¬ page.Addressable) : page.offset? = none :=
  if_neg h

example : offset? ⟨.num 0, 1 <<< 52 - 1⟩ = some (1 <<< 64 - 4096) ∧
    offset? ⟨.num 0, 1 <<< 52⟩ = none := by
  decide

/-- Where overflow is not checked, the product wraps around. As long as there is no overflow this
makes no difference. -/
theorem offset?_eq_wrapped (h : page.Addressable) :
    page.offset? = some (page.number * pageSize % wordSize) :=
  (offset?_of_addressable h).trans (congrArg some (Nat.mod_eq_of_lt h).symm)

/-- No file comes up to a page that is not addressable. -/
theorem addressable_of_offset_le (h : page.offset ≤ Disk.maxLength) : page.Addressable :=
  Nat.lt_of_le_of_lt h (by decide)

/-- What is said to a request for a page that is not there. -/
def missing (page : PageId) : Error :=
  if page.Addressable then .pageOutOfRange page else .overflow page

theorem missing_of_addressable (h : page.Addressable) : page.missing = .pageOutOfRange page :=
  if_pos h

end PageId

/-- Why there is no page to be had from a file. -/
inductive Unread (q : PageId) : Error → Prop
  | missing : Unread q (.unknownTable q.table)
  | outOfRange : Unread q (.pageOutOfRange q)
  | overflow (far : ¬ q.Addressable) : Unread q (.overflow q)
  | corrupted (cause : Corruption) : Unread q (.corrupted q cause)
  | medium (cause : IoError) : Unread q (.io cause)

namespace HeapFile
variable {f g : HeapFile} {d d' : Disk TableId} {p p' : HeapPage} {page : PageId}

/-- The bytes of page `n`. -/
def blockAt (f : HeapFile) (d : Disk TableId) (n : Nat) : List UInt8 :=
  block (d.content f.id) pageSize n

@[simp] theorem length_blockAt (f : HeapFile) (d : Disk TableId) (n : Nat) :
    (f.blockAt d n).length = pageSize :=
  length_block _ _ _

theorem numPages_congr (same : g.id = f.id) (d : Disk TableId) : g.numPages d = f.numPages d := by
  rw [numPages, same, numPages]

theorem blockAt_congr (same : g.id = f.id) (d : Disk TableId) (n : Nat) :
    g.blockAt d n = f.blockAt d n := by
  rw [blockAt, same, blockAt]

theorem lt_numPages_iff (f : HeapFile) (d : Disk TableId) (n : Nat) :
    n < f.numPages d ↔ n * pageSize < d.length f.id := by
  have hp : pageSize = 4096 := rfl
  unfold numPages
  rw [hp]
  omega

/-- Every page that is there is addressable. -/
theorem addressable_of_inside (inside : page.number < f.numPages d) : page.Addressable := by
  apply PageId.addressable_of_offset_le
  exact Nat.le_trans (Nat.le_of_lt ((lt_numPages_iff f d page.number).mp inside))
    (d.length_content_le f.id)

theorem readPage_of_inside (table : page.table = f.table) (inside : page.number < f.numPages d) :
    f.readPage d page =
      if d.faults.read f.table page.offset then .error (.io .refused)
      else HeapPage.decode page f.schema (f.blockAt d page.number) := by
  have hlt : page.offset < d.length f.id := (lt_numPages_iff f d page.number).mp inside
  have hp : 0 < pageSize := by decide
  have name : f.id.name = f.table := rfl
  have length : d.length f.id = (d.content f.id).length := rfl
  have hmin : page.offset + min (d.length f.id - page.offset) pageSize ≤
      (d.content f.id).length := by
    omega
  simp only [readPage, PageId.offset?_of_addressable (addressable_of_inside inside)]
  rw [if_neg (by simp [table, hlt]), Disk.read, if_neg (by omega), name, readAt?, if_pos hmin]
  cases d.faults.read f.table page.offset with
  | true => rfl
  | false =>
    simp only [Bool.false_eq_true, if_false]
    congr 1
    apply eq_of_byteAt
    · simp
    · intro i hi
      rw [length_resize] at hi
      rw [byteAt_resize, if_pos hi, byteAt_take, byteAt_drop, blockAt, byteAt_block, if_pos hi]
      split
      · rfl
      · rw [byteAt_of_length_le]
        have : page.offset = page.number * pageSize := rfl
        omega

theorem readPage_of_outside (outside : ¬ (page.table = f.table ∧ page.number < f.numPages d)) :
    f.readPage d page = .error page.missing := by
  by_cases addressable : page.Addressable
  · simp only [readPage, PageId.offset?_of_addressable addressable]
    rw [PageId.missing, if_pos addressable, if_pos]
    by_cases table : page.table = f.table
    · have beyond := fun hlt => outside ⟨table, (lt_numPages_iff f d page.number).mpr hlt⟩
      exact .inr (Nat.le_of_not_lt beyond)
    · exact .inl table
  · rw [readPage, PageId.offset?_of_not_addressable addressable, PageId.missing,
      if_neg addressable]

theorem readPage_apply (f : HeapFile) (d : Disk TableId) (page : PageId) :
    f.readPage d page =
      if page.table = f.table ∧ page.number < f.numPages d then
        if d.faults.read f.table page.offset then .error (.io .refused)
        else HeapPage.decode page f.schema (f.blockAt d page.number)
      else .error page.missing := by
  split
  next inside => exact readPage_of_inside inside.1 inside.2
  next outside => exact readPage_of_outside outside

theorem readPage_eq (hd : d.Readable) (f : HeapFile) (page : PageId) :
    f.readPage d page =
      if page.table = f.table ∧ page.number < f.numPages d then
        HeapPage.decode page f.schema (f.blockAt d page.number)
      else .error page.missing := by
  simp only [readPage_apply, hd f.table page.offset, Bool.false_eq_true, if_false]

theorem unread {e : Error} (h : f.readPage d page = .error e) : Unread page e := by
  rw [readPage_apply] at h
  split at h
  · split at h
    · cases h
      exact .medium _
    · obtain ⟨cause, rfl⟩ := HeapPage.decode_error h
      exact .corrupted cause
  · cases h
    unfold PageId.missing
    split
    next => exact .outOfRange
    next far => exact .overflow far

/-- A page that can be read has been decoded from some bytes, on whatever medium. -/
theorem decode_of_readPage_ok (h : f.readPage d page = .ok p) :
    ∃ data, HeapPage.decode page f.schema data = .ok p := by
  rw [readPage_apply] at h
  split at h
  · split at h
    · cases h
    · exact ⟨_, h⟩
  · cases h

/-- Only a page that is there can be read. -/
theorem inside_of_readPage_ok (h : f.readPage d page = .ok p) :
    page.table = f.table ∧ page.number < f.numPages d := by
  rw [readPage_apply] at h
  split at h
  next inside => exact inside
  next => cases h

/-- What a write of block `n` does to the files. -/
structure Wrote (f : HeapFile) (n : Nat) (data : List UInt8) (d d' : Disk TableId) : Prop where
  faults : d'.faults = d.faults
  numPages : f.numPages d' = max (f.numPages d) (n + 1)
  blockAt : ∀ m, f.blockAt d' m = if m = n then data else f.blockAt d m
  other : ∀ g : HeapFile, g.id ≠ f.id →
    g.numPages d' = g.numPages d ∧ ∀ m, g.blockAt d' m = g.blockAt d m

theorem wrote_of_write {n : Nat} {data : List UInt8} (hl : data.length = pageSize)
    (h : d.write f.id (n * pageSize) data = .ok d') : f.Wrote n data d d' := by
  have hp : pageSize = 4096 := rfl
  have hne : data ≠ [] := by
    intro hnil
    rw [hnil] at hl
    exact absurd hl (by decide)
  have written := Disk.written_of_write hne h
  refine ⟨written.faults, ?_, ?_, ?_⟩
  · simp only [numPages, Disk.length, written.content, if_true, length_writeAt hne, hl]
    rw [hp]
    omega
  · intro m
    simp only [HeapFile.blockAt, written.content, if_true]
    split
    next hm => rw [hm, block_writeAt_same n hl]
    next hm => rw [block_writeAt_of_ne hl hm]
  · intro g hg
    simp only [numPages, HeapFile.blockAt, Disk.length, written.content, if_neg hg]
    exact ⟨trivial, fun _ => trivial⟩

theorem write_of_writeBlock {data : List UInt8} (h : f.writeBlock d page data = .ok d') :
    d.write f.id page.offset data = .ok d' := by
  unfold writeBlock at h
  split at h
  next => cases h
  next offset found =>
    have here : page.offset = offset := by
      rw [PageId.offset?] at found
      split at found
      · exact Option.some.inj found
      · cases found
    split at h
    next => cases h
    next written =>
      cases h
      rw [here]
      exact written

theorem write_of_writePage {written : HeapPage × Disk TableId}
    (h : f.writePage d p = .ok written) :
    d.write f.id p.id.offset p.image = .ok written.2 := by
  unfold writePage at h
  split at h
  next => cases h
  next taken =>
    cases h
    exact write_of_writeBlock taken

theorem write_of_appendPage (h : f.appendPage d = .ok d') :
    d.write f.id (f.numPages d * pageSize) (zeros pageSize) = .ok d' := by
  have written := write_of_writeBlock h
  rwa [PageId.offset] at written

theorem writePage_ok (h : f.writePage d p = .ok (p', d')) :
    p' = p.mark none ∧ f.Wrote p.id.number p.image d d' := by
  unfold writePage at h
  split at h
  next => cases h
  next taken =>
    cases h
    exact ⟨rfl, wrote_of_write p.length_image (write_of_writeBlock taken)⟩

theorem appendPage_ok (h : f.appendPage d = .ok d') :
    f.Wrote (f.numPages d) (zeros pageSize) d d' :=
  wrote_of_write (length_zeros _) (write_of_appendPage h)

/-- The medium does not take a page in the place of `page`. -/
def Refuses (d : Disk TableId) (page : PageId) : Prop :=
  d.faults.write page.table page.offset = true ∨ Disk.maxLength < page.offset + pageSize

/-- What is not addressable is further on than a file can come, so it is refused, too. -/
theorem refuses_of_not_addressable (h : ¬ page.Addressable) : Refuses d page := by
  refine .inr (Nat.lt_of_not_le fun room => h (PageId.addressable_of_offset_le ?_))
  exact Nat.le_trans (Nat.le_add_right ..) room

/-- A write fails exactly if the medium does not take the page, in the file that it is written to. -/
theorem writeBlock_eq_error_iff {data : List UInt8} (hl : data.length = pageSize) :
    (∃ e, f.writeBlock d page data = .error e) ↔ Refuses d ⟨f.table, page.number⟩ := by
  have bytes : data ≠ [] := by
    intro none
    rw [none] at hl
    exact absurd hl (by decide)
  by_cases addressable : page.Addressable
  · rw [writeBlock, PageId.offset?_of_addressable addressable]
    simp only [Disk.write, if_neg bytes, hl]
    by_cases refused : d.faults.write f.id.name page.offset = true ∨
        Disk.maxLength < page.offset + pageSize
    · rw [if_pos refused]
      exact ⟨fun _ => refused, fun _ => ⟨_, rfl⟩⟩
    · rw [if_neg refused]
      constructor
      · rintro ⟨_, ⟨⟩⟩
      · exact fun h => absurd h refused
  · rw [writeBlock, PageId.offset?_of_not_addressable addressable]
    exact ⟨fun _ => refuses_of_not_addressable addressable, fun _ => ⟨_, rfl⟩⟩

theorem writePage_eq_error_iff :
    (∃ e, f.writePage d p = .error e) ↔ Refuses d ⟨f.table, p.id.number⟩ := by
  rw [← writeBlock_eq_error_iff p.length_image, writePage]
  cases f.writeBlock d p.id p.image with
  | error e => exact ⟨fun _ => ⟨e, rfl⟩, fun _ => ⟨_, rfl⟩⟩
  | ok _ => constructor <;> rintro ⟨_, ⟨⟩⟩

theorem writePage_eq_error (h : p.id.table = f.table) :
    (∃ e, f.writePage d p = .error e) ↔ Refuses d p.id := by
  rw [writePage_eq_error_iff, ← h]

theorem appendPage_eq_error :
    (∃ e, f.appendPage d = .error e) ↔ Refuses d ⟨f.table, f.numPages d⟩ :=
  writeBlock_eq_error_iff (length_zeros pageSize)

/-- Why a page is not written. -/
inductive Unwritten (page : PageId) : Error → Prop
  | medium (cause : IoError) : Unwritten page (.io cause)
  | overflow (h : ¬ page.Addressable) : Unwritten page (.overflow page)

theorem writeBlock_error {data : List UInt8} {e : Error}
    (h : f.writeBlock d page data = .error e) : Unwritten page e := by
  by_cases addressable : page.Addressable
  · rw [writeBlock, PageId.offset?_of_addressable addressable] at h
    simp only at h
    split at h
    next cause _ =>
      cases h
      exact .medium cause
    next => cases h
  · rw [writeBlock, PageId.offset?_of_not_addressable addressable] at h
    cases h
    exact .overflow addressable

theorem writePage_error {e : Error} (h : f.writePage d p = .error e) : Unwritten p.id e := by
  unfold writePage at h
  split at h
  next failed =>
    cases h
    exact writeBlock_error failed
  next => cases h

/-- The page after the last one is addressable, too. -/
theorem addressable_numPages (f : HeapFile) (d : Disk TableId) :
    PageId.Addressable ⟨f.table, f.numPages d⟩ := by
  have fits := d.length_content_le f.id
  rw [show Disk.maxLength = 1 <<< 63 - 1 by decide] at fits
  rw [PageId.addressable_iff, numPages, Disk.length, show pageSize = 4096 from rfl]
  show ((d.content f.id).length + (4096 - 1)) / 4096 < 1 <<< 52
  omega

theorem appendPage_error {e : Error} (h : f.appendPage d = .error e) : ∃ cause, e = .io cause := by
  cases writeBlock_error h with
  | medium cause => exact ⟨cause, rfl⟩
  | overflow far => exact absurd (addressable_numPages f d) far

theorem Wrote.readable {n : Nat} {data : List UInt8} (h : f.Wrote n data d d')
    (hd : d.Readable) : d'.Readable := by
  rw [Disk.Readable, h.faults]
  exact hd

/-- A block that is written is read from then on, and every other page as before, through whatever
handle, but for those that were skipped between the end of the file and the block. -/
theorem Wrote.readPage_of {n : Nat} {data : List UInt8} (h : f.Wrote n data d d') (hd : d.Readable)
    (g : HeapFile) (page : PageId)
    (near : g.id = f.id → page.table = f.table → page.number < n → page.number < f.numPages d) :
    g.readPage d' page =
      if g.id = f.id ∧ page = ⟨f.table, n⟩ then HeapPage.decode page g.schema data
      else g.readPage d page := by
  rw [readPage_eq (h.readable hd), readPage_eq hd]
  by_cases hid : g.id = f.id
  · have table : g.table = f.table := congrArg FileId.name hid
    rw [numPages_congr hid, numPages_congr hid, blockAt_congr hid, blockAt_congr hid, h.numPages,
      h.blockAt, table]
    by_cases hpage : page = ⟨f.table, n⟩
    · subst hpage
      have inside : n < max (f.numPages d) (n + 1) := by omega
      simp only [inside, hid, and_self, if_true]
    · simp only [hpage, and_false, if_false]
      by_cases ht : page.table = f.table
      · have hne : page.number ≠ n := by
          rintro rfl
          exact hpage (by rw [← ht])
        have near := near hid ht
        have hlt : page.number < max (f.numPages d) (n + 1) ↔ page.number < f.numPages d := by
          omega
        simp only [hlt, hne, if_false]
      · simp only [ht, false_and, if_false]
  · obtain ⟨pages, blocks⟩ := h.other g hid
    simp only [pages, blocks, hid, false_and, if_false]

/-- Within a file and right after its end, no page is skipped. -/
theorem Wrote.readPage {n : Nat} {data : List UInt8} (h : f.Wrote n data d d') (hd : d.Readable)
    (hn : n ≤ f.numPages d) (g : HeapFile) (page : PageId) :
    g.readPage d' page =
      if g.id = f.id ∧ page = ⟨f.table, n⟩ then HeapPage.decode page g.schema data
      else g.readPage d page :=
  h.readPage_of hd g page fun _ _ below => Nat.lt_of_lt_of_le below hn

theorem readPage_appended (hd : d.Readable) (h : f.appendPage d = .ok d') (g : HeapFile)
    (page : PageId) : g.readPage d' page =
      if g.id = f.id ∧ page = ⟨f.table, f.numPages d⟩ then .ok (.empty page g.schema)
      else g.readPage d page := by
  rw [(appendPage_ok h).readPage hd (Nat.le_refl _), HeapPage.decode_zeros]

end HeapFile
end HeapStore
