import HeapStore.Proofs.Cache
import Mathlib.Data.List.Dedup
import Mathlib.Data.List.DropRight

/-!
The queue of a cache and the history of the pages in use. The history names a page at each of its
uses. Without repetitions it names every page at its last use, and the queue is what remains of
that when the pages that are not cached are left out. So the page that has to go is the one, of
those that may go, whose last use is the longest ago.
-/

namespace HeapStore
open Std

section LastUse
variable {α : Type} {uses : List α} {v q : α}

/-- The last use of `v` is longer ago than the last use of `q`. -/
def UsedBefore (uses : List α) (v q : α) : Prop :=
  ∃ before after, uses = before ++ q :: after ∧ v ∈ before ∧ v ∉ q :: after

theorem UsedBefore.cons (h : UsedBefore uses v q) (a : α) : UsedBefore (a :: uses) v q := by
  obtain ⟨before, after, rfl, hv, hv'⟩ := h
  exact ⟨a :: before, after, rfl, List.mem_cons_of_mem a hv, hv'⟩

variable [DecidableEq α]

/-- Who stands before whom when repetitions are left out. -/
theorem usedBefore_of_sublist (h : [v, q].Sublist uses.dedup) : UsedBefore uses v q := by
  induction uses with
  | nil => cases h
  | cons a uses ih =>
      by_cases again : a ∈ uses
      · rw [List.dedup_cons_of_mem again] at h
        exact (ih h).cons a
      · rw [List.dedup_cons_of_notMem again] at h
        cases h with
        | cons _ later => exact (ih later).cons a
        | cons_cons _ rest =>
            have used : q ∈ uses := List.mem_dedup.mp (List.singleton_sublist.mp rest)
            obtain ⟨before, after, rfl⟩ := List.append_of_mem used
            refine ⟨v :: before, after, rfl, List.mem_cons_self .., fun hv => again ?_⟩
            exact List.mem_append_right before hv

/-- One use more puts a page at the end. -/
theorem dedup_concat (uses : List α) (q : α) :
    (uses ++ [q]).dedup = uses.dedup.filter (· != q) ++ [q] := by
  induction uses with
  | nil => rfl
  | cons a uses ih =>
      rw [List.cons_append]
      by_cases again : a ∈ uses
      · rw [List.dedup_cons_of_mem again, List.dedup_cons_of_mem (List.mem_append_left _ again), ih]
      · rw [List.dedup_cons_of_notMem again]
        by_cases same : a = q
        · rw [List.dedup_cons_of_mem (by simp [same]), ih, List.filter_cons_of_neg (by simp [same])]
        · rw [List.dedup_cons_of_notMem (by simp [again, same]), ih,
            List.filter_cons_of_pos (by simp [same]), List.cons_append]

end LastUse

namespace Cache
variable {c c' : Cache} {uses : List PageId} {p : HeapPage} {q v w : PageId} {f : Frame}
  {r : Except Error HeapPage}

/-- The queue names the cached pages in the order of their last uses. -/
def Queued (c : Cache) (uses : List PageId) : Prop :=
  c.ids = uses.dedup.filter c.contains

theorem queued_of_empty (ids : c.ids = []) : c.Queued [] :=
  ids

theorem Queued.nodup (h : c.Queued uses) : c.ids.Nodup := by
  rw [h]
  exact (List.nodup_dedup uses).filter _

theorem Queued.of_same (h : c.Queued uses) (ids : c'.ids = c.ids)
    (contains : ∀ id, c'.contains id = c.contains id) : c'.Queued uses := by
  rw [Queued, ids, h]
  exact List.filter_congr fun id _ => (contains id).symm

/-- The page that is used is cached now, if it was not, and the last in the queue. -/
theorem Queued.used (h : c.Queued uses) (ids : c'.ids = c.ids.erase q ++ [q])
    (contains : ∀ id, c'.contains id = (decide (id = q) || c.contains id)) :
    c'.Queued (uses ++ [q]) := by
  rw [Queued, ids, h.nodup.erase_eq_filter, h, dedup_concat, List.filter_append]
  congr 1
  · simp only [List.filter_filter]
    apply List.filter_congr
    intro id _
    rw [contains, Bool.and_comm]
    by_cases same : id = q <;> simp [same]
  · simp [contains]

theorem Queued.touch (h : c.Queued uses) (here : c.contains q) :
    (c.touch q).Queued (uses ++ [q]) := by
  apply h.used rfl
  intro id
  rw [contains_eq, find?_touch, ← contains_eq]
  by_cases same : id = q <;> simp [same, here]

theorem Queued.place (h : c.Queued uses) (q : PageId) (p : HeapPage) :
    (c.place q p).Queued (uses ++ [q]) :=
  h.used rfl fun id => c.contains_place q id p

/-- To use the last page again is not seen. -/
theorem Queued.again (h : c.Queued (uses ++ [q])) : c.Queued (uses ++ [q] ++ [q]) := by
  rw [Queued, h, dedup_concat (uses ++ [q]), dedup_concat]
  simp [List.filter_filter]

theorem contains_drop (c : Cache) (v w : PageId) :
    (c.drop v).contains w = (decide (w ≠ v) && c.contains w) := by
  rw [contains_eq, find?_drop, contains_eq]
  by_cases h : w = v <;> simp [h]

theorem Queued.drop (h : c.Queued uses) (v : PageId) : (c.drop v).Queued uses := by
  show c.ids.erase v = _
  rw [h.nodup.erase_eq_filter, h, List.filter_filter]
  apply List.filter_congr
  intro id _
  rw [contains_drop]
  by_cases same : id = v <;> simp [same]

theorem Queued.remove (h : c.Queued uses) (v : PageId) : (c.remove v).Queued uses := by
  unfold Cache.remove
  split
  · exact h.drop v
  · exact h

theorem contains_update (c : Cache) (p : HeapPage) (id : PageId) :
    (c.update p).contains id = c.contains id := by
  rw [contains_eq, find?_update, contains_eq]
  split <;> simp

/-- Of two pages that may go, the one that has to go was used before the other. -/
theorem Queued.oldest (h : c.Queued uses) (hc : c.Ordered) (victim : c.victim? = some v)
    (hw : c.table[w]? = some f) (free : f.evictable) (other : w ≠ v) : UsedBefore uses v w := by
  obtain ⟨_, earlier, later, ids, skipped⟩ := List.find?_eq_some_iff_append.mp victim
  have listed : w ∈ earlier ++ v :: later := ids ▸ (hc.listed w).mpr (contains_of_frame hw)
  have after : w ∈ later := by
    rcases List.mem_append.mp listed with before | after
    · simpa [hw, free] using skipped w before
    · exact (List.mem_cons.mp after).resolve_left other
  apply usedBefore_of_sublist
  have within : [v, w].Sublist c.ids := by
    rw [ids]
    exact ((List.singleton_sublist.mpr after).cons_cons v).trans (List.sublist_append_right ..)
  rw [h] at within
  exact within.trans (List.filter_sublist ..)

/-- What a request for page `q` does to the cache, going by its answer. -/
inductive Gets (c : Cache) (q : PageId) : Except Error HeapPage → Cache → Prop
  | failed {e : Error} : Gets c q (.error e) c
  | hit {p : HeapPage} (here : c.find? q = some p) : Gets c q (.ok p) (c.touch q)
  | read {p : HeapPage} (missing : c.contains q = false) (room : c.size < c.capacity)
      (clean : p.isDirty = false) : Gets c q (.ok p) (c.place q p)
  | evicting {p : HeapPage} {v : PageId} (missing : c.contains q = false)
      (full : c.capacity ≤ c.size) (victim : c.victim? = some v) (clean : p.isDirty = false) :
      Gets c q (.ok p) ((c.drop v).place q p)

/-- Page `v` makes room for page `q`: the cache is full, `v` is clean and nobody is writing to it,
and of the other such pages every one has been used since. -/
structure Evicts (uses : List PageId) (c : Cache) (q v : PageId) : Prop where
  missing : c.contains q = false
  full : c.size = c.capacity
  free : ∃ f, c.table[v]? = some f ∧ f.latched = false ∧ f.page.isDirty = false
  oldest : ∀ w f, w ≠ v → c.table[w]? = some f → f.latched = false → f.page.isDirty = false →
    UsedBefore uses v w

theorem evictable_iff {f : Frame} : f.evictable ↔ f.latched = false ∧ f.page.isDirty = false := by
  simp [Frame.evictable]

/-- A page that has been had is cached, and the last in the queue. -/
theorem Gets.last (h : c.Gets q (.ok p) c') :
    c'.find? q = some p ∧ ∃ ids, c'.ids = ids ++ [q] := by
  cases h with
  | hit here => exact ⟨(find?_touch c q q).trans here, _, rfl⟩
  | read => exact ⟨(c.find?_place q q p).trans (if_pos rfl), _, rfl⟩
  | @evicting _ v => exact ⟨((c.drop v).find?_place q q p).trans (if_pos rfl), _, rfl⟩

theorem Gets.queued {uses' : List PageId} (h : c.Gets q r c') (hc : c.Queued uses)
    (used : ∀ p, r = .ok p → uses' = [q]) (unused : ∀ e, r = .error e → uses' = []) :
    c'.Queued (uses ++ uses') := by
  cases h with
  | failed => rwa [unused _ rfl, List.append_nil]
  | hit here => exact used _ rfl ▸ hc.touch (by rw [contains_eq, here]; rfl)
  | read => exact used _ rfl ▸ hc.place q _
  | evicting => exact used _ rfl ▸ (hc.drop _).place q _

/-- If a page leaves the cache, it makes room for the page that was asked for, and no other
leaves. -/
theorem Gets.leaves (h : c.Gets q r c') (hc : c.Ordered) (queued : c.Queued uses)
    (here : c.contains v) (gone : c'.contains v = false) :
    (∃ p, r = .ok p) ∧ c.Evicts uses q v ∧
      ∀ w, c'.contains w ↔ w = q ∨ c.contains w ∧ w ≠ v := by
  cases h with
  | failed => simp [here] at gone
  | hit =>
      rw [contains_eq, find?_touch, ← contains_eq, here] at gone
      cases gone
  | read => simp [contains_place, here] at gone
  | @evicting p victim missing full oldest _ =>
      have after (w : PageId) : ((c.drop victim).place q p).contains w ↔
          w = q ∨ c.contains w ∧ w ≠ victim := by
        simp [contains_place, contains_drop, and_comm]
      have same : v = victim := by
        have stayed := mt (after v).mpr (by simp [gone])
        simpa [here] using (not_or.mp stayed).2
      subst same
      obtain ⟨f, hf, free⟩ := frame_of_victim? oldest
      refine ⟨⟨p, rfl⟩, ⟨missing, Nat.le_antisymm hc.bounded full, ?_, ?_⟩, after⟩
      · exact ⟨f, hf, evictable_iff.mp free⟩
      · intro w g other hg unlatched clean
        exact queued.oldest hc oldest hg (evictable_iff.mpr ⟨unlatched, clean⟩) other

/-- The queue is the end of the history without repetitions, as much of it as there is room for. -/
structure Stacked (c : Cache) (uses : List PageId) : Prop where
  suffix : c.ids <:+ uses.dedup
  length : c.ids.length = min c.capacity uses.dedup.length
  free : ∀ (id : PageId) (f : Frame), c.table[id]? = some f → f.evictable

theorem Stacked.ids (h : c.Stacked uses) : c.ids = uses.dedup.rtake c.capacity := by
  rw [List.suffix_iff_eq_drop.mp h.suffix, List.rtake, h.length]
  congr 1
  omega

/-- Nobody but the first in the queue has to go. -/
theorem Stacked.victim? (h : c.Stacked uses) (hc : c.Ordered) {rest : List PageId}
    (ids : c.ids = w :: rest) : c.victim? = some w := by
  have here : c.contains w := (hc.listed w).mp (ids ▸ List.mem_cons_self ..)
  obtain ⟨f, hf⟩ := Option.isSome_iff_exists.mp
    (ExtTreeMap.mem_iff_isSome_getElem?.mp (contains_iff.mp here))
  rw [Cache.victim?, ids, List.find?_cons_of_pos (by simp [hf, h.free w f hf])]

theorem Stacked.place (h : ∀ (id : PageId) (f : Frame), c.table[id]? = some f → f.evictable)
    (clean : p.isDirty = false) (id : PageId) (f : Frame)
    (hf : (c.place q p).table[id]? = some f) : f.evictable := by
  simp only [Cache.place, Cache.touch, ExtTreeMap.getElem?_insert] at hf
  split at hf
  · cases hf
    exact evictable_iff.mpr ⟨rfl, clean⟩
  · exact h id f hf

/-- A page more at the end of the history, and of an end of it. -/
theorem suffix_used {ids : List PageId} (h : ids <:+ uses.dedup) (q : PageId) :
    ids.erase q ++ [q] <:+ (uses ++ [q]).dedup := by
  obtain ⟨older, whole⟩ := h
  have nodup : ids.Nodup := (whole ▸ List.nodup_dedup uses).of_append_right
  refine ⟨older.filter (· != q), ?_⟩
  rw [dedup_concat, ← whole, List.filter_append, nodup.erase_eq_filter, List.append_assoc]

theorem length_used (uses : List PageId) (q : PageId) :
    (uses ++ [q]).dedup.length = uses.dedup.length + if q ∈ uses then 0 else 1 := by
  rw [dedup_concat, ← (List.nodup_dedup uses).erase_eq_filter, List.length_append,
    List.length_erase, List.length_singleton]
  split
  next h =>
    have := List.length_pos_of_mem h
    simp [List.mem_dedup.mp h]
    omega
  next h => simp [mt List.mem_dedup.mpr h]

theorem Gets.stacked (h : c.Gets q (.ok p) c') (hc : c.Ordered) (stacked : c.Stacked uses) :
    c'.Stacked (uses ++ [q]) := by
  have longer := length_used uses q
  have length := stacked.length
  have size := hc.length_ids
  cases h with
  | hit here =>
      have listed : q ∈ c.ids := (hc.listed q).mpr (by rw [contains_eq, here]; rfl)
      have used : q ∈ uses := List.mem_dedup.mp (stacked.suffix.subset listed)
      refine ⟨suffix_used stacked.suffix q, ?_, stacked.free⟩
      have := List.length_pos_of_mem listed
      simp only [Cache.touch, List.length_append, List.length_erase_of_mem listed,
        List.length_singleton, longer, if_pos used]
      omega
  | read missing room clean =>
      have unlisted : q ∉ c.ids := by simp [hc.listed, missing]
      have whole : c.ids = uses.dedup := stacked.suffix.eq_of_length (by omega)
      have unused : q ∉ uses := by rwa [whole, List.mem_dedup] at unlisted
      refine ⟨suffix_used stacked.suffix q, ?_, Stacked.place stacked.free clean⟩
      simp only [Cache.place, Cache.touch, List.length_append, List.erase_of_not_mem unlisted,
        List.length_singleton, longer, if_neg unused]
      omega
  | @evicting _ v missing full victim clean =>
      have unlisted : q ∉ c.ids := by simp [hc.listed, missing]
      have positive := c.capacity_pos
      obtain ⟨w, rest, ids⟩ : ∃ w rest, c.ids = w :: rest :=
        List.exists_cons_of_length_pos (by omega)
      obtain rfl : v = w := Option.some.inj (victim.symm.trans (stacked.victim? hc ids))
      have remaining : (c.drop v).ids = rest := by simp [Cache.drop, ids]
      have suffix : (c.drop v).ids <:+ uses.dedup := by
        rw [remaining]
        exact (ids ▸ List.suffix_cons v rest).trans stacked.suffix
      refine ⟨suffix_used suffix q, ?_, Stacked.place (fun id f hf => ?_) clean⟩
      · have : q ∉ rest := fun h => unlisted (ids ▸ List.mem_cons_of_mem v h)
        simp only [Cache.place, Cache.touch, remaining, List.erase_of_not_mem this,
          List.length_append, List.length_singleton, longer]
        rw [ids, List.length_cons] at length size
        have capacity : (c.drop v).capacity = c.capacity := rfl
        split <;> omega
      · simp only [Cache.drop, ExtTreeMap.getElem?_erase] at hf
        split at hf
        · cases hf
        · exact stacked.free id f hf

end Cache
end HeapStore
