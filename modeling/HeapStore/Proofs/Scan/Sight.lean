import HeapStore.Proofs.Act
import HeapStore.Proofs.Scan

/-!
What a scan sees, whoever else is at work: the rows that are shown when it begins, page by page. It
has locked every page that it has seen when it comes to its end.
-/

namespace HeapStore

namespace Scan
open Store
variable {file : HeapFile} {tx : TxId} {n first mid last : Nat} {s s' s₁ : Store} {p : HeapPage}
  {rows more : List Tuple}

/-- The rows of pages `first` to `last - 1` as they are shown. The pages are locked from then on. -/
structure Sees (file : HeapFile) (tx : TxId) (first last : Nat) (s : Store) (rows : List Tuple)
    (s' : Store) : Prop where
  lists : Lists file.table s.shown first last rows
  peeks : Peeks tx s s'
  locked : ∀ n, first ≤ n → n < last → s'.pool.locks.Has tx ⟨file.table, n⟩ .shared

theorem Sees.nil (hs : s.Sound) (h : last ≤ first) : Sees file tx first last s [] s where
  lists := .nil h
  peeks := .refl hs tx
  locked n _ _ := by omega

theorem Sees.append (hs : s.Sound) (h₁ : Sees file tx first mid s rows s₁)
    (h₂ : Sees file tx mid last s₁ more s') (hfm : first ≤ mid) (hml : mid ≤ last) :
    Sees file tx first last s (rows ++ more) s' where
  lists := h₁.lists.append (h₁.peeks.shown hs ▸ h₂.lists) hfm hml
  peeks := h₁.peeks.trans h₂.peeks
  locked n hf hl := by
    rcases Nat.lt_or_ge n mid with h | h
    · exact h₂.peeks.retains _ _ _ (h₁.locked n hf h)
    · exact h₂.locked n h hl

/-- A page that is had is seen. -/
theorem sees_of_fetch (hs : s.Sound) (ht : s.Settled)
    (got : Store.fetch tx ⟨file.table, n⟩ .readOnly s = (.ok p, s₁)) :
    Sees file tx n (n + 1) s p.tuples s₁ := by
  have hf := fetched hs.intact tx ⟨file.table, n⟩ .readOnly
  rw [got] at hf
  have peeks := hf.peeks hs
  have sound := ((peeks.calm.sound hs).pages _ p hf.here).sound
  rcases hf.answer ht with ⟨failed, _⟩ | ⟨_, failed, _⟩ | ⟨granted, shown⟩
  · cases failed
  · cases failed
  · refine ⟨.page sound (id_of_cached (peeks.calm.sound hs).cache hf.here) shown.symm, peeks, ?_⟩
    intro k hge hlt
    obtain rfl : k = n := by omega
    exact LockTable.has_of_acquire? granted

/-- The rows at hand are given out first. -/
theorem Yields.of_rows {fetch : Fetch} {out : List Tuple}
    (h : Yields fetch ⟨file, tx, some ⟨n, rows⟩⟩ s out s') :
    ∃ more, out = rows ++ more ∧ Yields fetch ⟨file, tx, some ⟨n, []⟩⟩ s more s' := by
  induction rows generalizing out with
  | nil => exact ⟨out, rfl, h⟩
  | cons t rows ih =>
      have next := next_of_row fetch file tx n t rows s
      cases h with
      | done ended =>
          rw [next] at ended
          cases ended
      | row given rest =>
          rw [next] at given
          cases given
          obtain ⟨more, rfl, after⟩ := ih rest
          exact ⟨more, rfl, after⟩

theorem Yields.of_end {fetch : Fetch} (hn : file.numPages s.disk ≤ n + 1)
    (h : Yields fetch ⟨file, tx, some ⟨n, []⟩⟩ s more s') : more = [] ∧ s' = s := by
  have next := next_of_end fetch tx hn
  cases h with
  | done ended =>
      rw [next] at ended
      cases ended
      exact ⟨rfl, rfl⟩
  | row given _ =>
      rw [next] at given
      cases given

/-- A scan that comes to its end has had every page that it asked for. -/
theorem Yields.of_page {fetch : Fetch} (hn : n + 1 < file.numPages s.disk)
    (disk : (fetch tx ⟨file.table, n + 1⟩ .readOnly s).2.disk = s.disk)
    (h : Yields fetch ⟨file, tx, some ⟨n, []⟩⟩ s more s') :
    ∃ p s₁ rest, fetch tx ⟨file.table, n + 1⟩ .readOnly s = (.ok p, s₁) ∧
      more = p.tuples ++ rest ∧ Yields fetch ⟨file, tx, some ⟨n + 1, []⟩⟩ s₁ rest s' := by
  generalize got : fetch tx ⟨file.table, n + 1⟩ .readOnly s = outcome at disk
  obtain ⟨_ | p, s₁⟩ := outcome
  · have failed := next_of_failed hn got
    cases h with
    | done ended =>
        rw [failed] at ended
        cases ended
    | row given _ =>
        rw [failed] at given
        cases given
  · have after := h.of_next (next_of_empty hn disk got).symm
    obtain ⟨rest, split, after⟩ := after.of_rows
    exact ⟨p, s₁, rest, rfl, split, after⟩

/-- A scan that comes to its end has seen the pages that were still to come. -/
theorem Yields.sees (hs : s.Sound) (ht : s.Settled) (hn : file.numPages s.disk = last)
    (h : Yields Store.fetch ⟨file, tx, some ⟨n, []⟩⟩ s more s') :
    Sees file tx (n + 1) last s more s' := by
  induction left : last - (n + 1) generalizing n s more with
  | zero =>
      obtain ⟨rfl, rfl⟩ := h.of_end (by omega)
      exact .nil hs (by omega)
  | succ m ih =>
      have peeks := fetch_peeks hs tx ⟨file.table, n + 1⟩ .readOnly
      obtain ⟨p, s₁, rest, got, rfl, after⟩ := h.of_page (by omega) peeks.disk
      rw [got] at peeks
      have seen := ih (peeks.calm.sound hs) (peeks.calm.settled hs ht) (by rw [peeks.disk, hn])
        after (by omega)
      exact (sees_of_fetch hs ht got).append hs seen (by omega) (by omega)

/-- A scan that comes to its end has seen all pages. -/
theorem Full.sees (hs : s.Sound) (ht : s.Settled) (h : Full Store.fetch file tx s rows s') :
    Sees file tx 0 (file.numPages s.disk) s rows s' := by
  obtain ⟨sc, s₁, opens, yields⟩ := h
  by_cases hz : file.numPages s.disk = 0
  · rw [start_of_empty Store.fetch tx hz] at opens
    cases opens
    obtain ⟨rfl, rfl⟩ := yields.of_end (by omega)
    exact .nil hs (by omega)
  · rw [start_of_load hz] at opens
    generalize got : Store.fetch tx ⟨file.table, 0⟩ .readOnly s = outcome at opens
    obtain ⟨_ | p, s₂⟩ := outcome
    · cases opens
    · cases opens
      have page := sees_of_fetch hs ht got
      obtain ⟨more, rfl, after⟩ := yields.of_rows
      have seen := after.sees (page.peeks.calm.sound hs) (page.peeks.calm.settled hs ht)
        (by rw [page.peeks.disk])
      exact page.append hs seen (by omega) (by omega)

end Scan
end HeapStore
