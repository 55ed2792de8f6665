import HeapStore.Proofs.HeapFile

/-!
Files that grow. A page is appended as zeros, and so is what is missing of a last page that was cut
short; every page that was there is read as before, and one that is new is empty.
-/

namespace HeapStore
open Std Bytes

namespace Bytes

/-- Zeros at the end say nothing new. -/
theorem byteAt_append_zeros (bs : List UInt8) (k i : Nat) :
    byteAt (bs ++ zeros k) i = byteAt bs i := by
  rw [byteAt_append, byteAt_zeros]
  split
  · rfl
  · rw [byteAt_of_length_le (by omega)]

theorem block_append_zeros (bs : List UInt8) (k size n : Nat) :
    block (bs ++ zeros k) size n = block bs size n := by
  apply eq_of_byteAt
  · simp
  · intro i _
    rw [byteAt_block, byteAt_block, byteAt_append_zeros]

theorem block_of_length_le {bs : List UInt8} {size n : Nat} (h : bs.length ≤ n * size) :
    block bs size n = zeros size := by
  apply eq_of_byteAt
  · simp
  · intro i _
    rw [byteAt_block, byteAt_zeros, byteAt_of_length_le (by omega), ite_self]

theorem writeAt_end {bs data : List UInt8} {offset : Nat} (hne : data ≠ [])
    (h : bs.length ≤ offset) :
    writeAt bs offset data = bs ++ zeros (offset - bs.length) ++ data := by
  rw [writeAt, if_neg hne, resize_eq_append h, List.drop_eq_nil_of_le (by omega), List.append_nil]

theorem zeros_append (k l : Nat) : zeros k ++ zeros l = zeros (k + l) :=
  List.replicate_append_replicate

end Bytes

/-- The disk is the same, but for zeros that have been added to a file. -/
structure Disk.Grown {κ : Type} [Ord κ] [TransOrd κ] [DecidableEq κ] (file : FileId κ)
    (d d' : Disk κ) : Prop where
  faults : d'.faults = d.faults
  content : ∃ k, ∀ g, d'.content g = d.content g ++ zeros (if g = file then k else 0)

namespace Disk
variable {d d' d₁ : Disk TableId} {file : FileId TableId}

theorem Grown.refl (file : FileId TableId) (d : Disk TableId) : d.Grown file d :=
  ⟨rfl, 0, fun g => by simp [zeros]⟩

theorem Grown.trans (h : d.Grown file d₁) (h' : d₁.Grown file d') : d.Grown file d' := by
  obtain ⟨k, first⟩ := h.content
  obtain ⟨l, second⟩ := h'.content
  refine ⟨h'.faults.trans h.faults, k + l, fun g => ?_⟩
  rw [second, first, List.append_assoc, zeros_append]
  split <;> rfl

theorem Grown.length_le (h : d.Grown file d') (g : FileId TableId) : d.length g ≤ d'.length g := by
  obtain ⟨k, content⟩ := h.content
  simp only [Disk.length, content, List.length_append, Nat.le_add_right]

theorem Grown.content_other (h : d.Grown file d') {g : FileId TableId} (other : g ≠ file) :
    d'.content g = d.content g := by
  obtain ⟨k, content⟩ := h.content
  simp [content, other, zeros]

end Disk

namespace HeapFile
variable {f g : HeapFile} {d d' : Disk TableId} {file : FileId TableId} {q : PageId}

theorem blockAt_of_le {n : Nat} (h : f.numPages d ≤ n) : f.blockAt d n = zeros pageSize := by
  apply block_of_length_le
  exact Nat.le_of_not_lt fun lt => Nat.not_lt_of_le h ((lt_numPages_iff f d n).mpr lt)

theorem blockAt_grown (h : d.Grown file d') (g : HeapFile) (n : Nat) :
    g.blockAt d' n = g.blockAt d n := by
  obtain ⟨k, content⟩ := h.content
  rw [blockAt, content, block_append_zeros, blockAt]

theorem numPages_grown (h : d.Grown file d') (g : HeapFile) : g.numPages d ≤ g.numPages d' :=
  Nat.div_le_div_right (Nat.add_le_add_right (h.length_le g.id) _)

theorem numPages_grown_other (h : d.Grown file d') (other : g.id ≠ file) :
    g.numPages d' = g.numPages d := by
  rw [numPages, Disk.length, h.content_other other, numPages, Disk.length]

/-- A page that was there is read as before. -/
theorem readPage_grown (h : d.Grown file d') (g : HeapFile) (inside : q.number < g.numPages d) :
    g.readPage d' q = g.readPage d q := by
  have inside' := Nat.lt_of_lt_of_le inside (numPages_grown h g)
  simp only [readPage_apply, inside, inside', h.faults, blockAt_grown h]

theorem readPage_grown_other (h : d.Grown file d') (other : g.id ≠ file) (q : PageId) :
    g.readPage d' q = g.readPage d q := by
  simp only [readPage_apply, numPages_grown_other h other, h.faults, blockAt_grown h]

/-- What has been read once is read again. -/
theorem readPage_grown_of_ok (h : d.Grown file d') {p : HeapPage} (read : g.readPage d q = .ok p) :
    g.readPage d' q = .ok p := by
  rw [readPage_grown h g, read]
  rw [readPage_apply] at read
  split at read
  next inside => exact inside.2
  next => cases read

/-- A new page is empty. -/
theorem decode_grown (h : d.Grown file d') (g : HeapFile) (outside : g.numPages d ≤ q.number) :
    HeapPage.decode q g.schema (g.blockAt d' q.number) = .ok (.empty q g.schema) := by
  rw [blockAt_grown h, blockAt_of_le outside, HeapPage.decode_zeros]

theorem decode_of_readPage_grown (h : d.Grown file d') (outside : g.numPages d ≤ q.number)
    {p : HeapPage}
    (read : g.readPage d' q = .ok p) : p = .empty q g.schema := by
  rw [readPage_apply, decode_grown h g outside] at read
  split at read
  next =>
    split at read
    · cases read
    · exact (Except.ok.inj read).symm
  next => cases read

theorem grown_of_appendPage (h : f.appendPage d = .ok d') : d.Grown f.id d' := by
  have hp : pageSize = 4096 := rfl
  have pad : d.length f.id ≤ f.numPages d * pageSize := by
    rw [numPages, hp]
    omega
  have written := Disk.written_of_write (by decide) (write_of_appendPage h)
  refine ⟨written.faults, f.numPages d * pageSize - d.length f.id + pageSize, fun g => ?_⟩
  rw [written.content]
  by_cases same : g = f.id
  · rw [if_pos same, if_pos same, same, writeAt_end (by decide) pad, List.append_assoc,
      zeros_append]
    rfl
  · rw [if_neg same, if_neg same]
    simp [zeros]

/-- The file has one page more. -/
theorem numPages_appendPage (h : f.appendPage d = .ok d') : f.numPages d' = f.numPages d + 1 := by
  rw [(appendPage_ok h).numPages]
  omega

end HeapFile
end HeapStore
