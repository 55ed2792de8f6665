import HeapStore.Lock.Table

/-!
The lock table, seen through the modes in which transactions hold pages. Granting, releasing and
releasing all change the modes of one transaction only; no page that somebody may write to has
another holder; and the two indexes agree, so that the pages of a transaction are those it holds.
-/

namespace HeapStore
open Std

namespace PageLocks
variable {l : PageLocks} {tx u : TxId}

theorem eq_default_of_isFree (h : l.isFree) : l = {} := by
  obtain ⟨shared, exclusive⟩ := l
  simp only [isFree, Bool.and_eq_true, Option.isNone_iff_eq_none] at h
  obtain ⟨hs, rfl⟩ := h
  have : shared = ∅ := ExtTreeSet.isEmpty_iff.mp hs
  rw [this]

@[simp] theorem mode?_default (tx : TxId) : ({} : PageLocks).mode? tx = none := by
  simp [mode?]

theorem mode?_eq_exclusive : l.mode? tx = some .exclusive ↔ l.exclusive = some tx := by
  unfold mode?
  split
  · simp_all
  · split <;> simp_all

theorem isSome_mode? : (l.mode? tx).isSome ↔ l.exclusive = some tx ∨ tx ∈ l.shared := by
  unfold mode?
  split
  · simp_all
  · split <;> simp_all

theorem mode?_congr {m : PageLocks} (he : l.exclusive = some u ↔ m.exclusive = some u)
    (hs : u ∈ l.shared ↔ u ∈ m.shared) : l.mode? u = m.mode? u := by
  simp only [mode?, he, hs]

theorem mem_shared_drop : u ∈ (l.drop tx).shared ↔ u ≠ tx ∧ u ∈ l.shared := by
  simp only [drop, ExtTreeSet.mem_erase, ne_eq, Std.compare_eq_iff_eq]
  rw [eq_comm (a := tx)]

theorem exclusive_drop : (l.drop tx).exclusive = some u ↔ u ≠ tx ∧ l.exclusive = some u := by
  simp only [drop, Option.filter_eq_some_iff, bne_iff_ne, ne_eq, and_comm]

theorem mode?_drop : (l.drop tx).mode? u = if u = tx then none else l.mode? u := by
  split
  next h =>
    rw [mode?, if_neg (by simp [exclusive_drop, h]), if_neg (by simp [mem_shared_drop, h])]
  next h =>
    exact mode?_congr (by simp [exclusive_drop, h]) (by simp [mem_shared_drop, h])

theorem drop_drop : (l.drop tx).drop tx = l.drop tx := by
  have hs : (l.shared.erase tx).erase tx = l.shared.erase tx := by
    apply ExtTreeSet.ext_mem
    intro u
    simp [ExtTreeSet.mem_erase]
  simp [drop, hs, Option.filter_filter]

theorem drop_default : ({} : PageLocks).drop tx = {} := by
  apply eq_default_of_isFree
  simp [drop, isFree]

/-- Nobody else is in the way of a lock that is granted. -/
theorem grants_exclusive {mode : LockMode} (h : l.grants tx mode) (he : l.exclusive = some u) :
    u = tx := by
  cases mode <;> simp_all [grants]

theorem grants_shared (h : l.grants tx .exclusive) (hu : u ∈ l.shared) : u = tx := by
  simp only [grants, Bool.and_eq_true, List.all_eq_true, ExtTreeSet.mem_toList, beq_iff_eq] at h
  exact h.2 u hu

/-- Whoever asks gets at least what he asks for and keeps what he has. -/
theorem mode?_take {mode : LockMode} (h : l.grants tx mode) :
    (l.take tx mode).mode? u =
      if u = tx then
        if mode = .exclusive then some .exclusive else some ((l.mode? tx).getD .shared)
      else l.mode? u := by
  cases mode with
  | shared =>
      simp only [take, reduceCtorEq, if_false]
      by_cases he : l.exclusive = some tx
      · rw [if_pos he]
        split
        next hu => simp [hu, mode?_eq_exclusive.mpr he]
        next => rfl
      · rw [if_neg he]
        split
        next hu =>
          subst hu
          simp only [mode?, if_neg he, ExtTreeSet.mem_insert_self, if_true]
          split <;> rfl
        next hu =>
          apply mode?_congr
          · rfl
          · simp [ExtTreeSet.mem_insert, Ne.symm hu]
  | exclusive =>
      simp only [take, if_true]
      split
      next hu => rw [hu, mode?_eq_exclusive.mpr rfl]
      next hu =>
        apply mode?_congr
        · constructor
          · intro he
            exact absurd (Option.some.inj he).symm hu
          · intro he
            exact absurd (grants_exclusive h he) hu
        · rfl

end PageLocks

namespace LockTable
variable {t t' : LockTable} {tx u : TxId} {page q : PageId} {mode : LockMode}

/-- What holds of every lock table: the transaction that may write to a page is its only holder,
and the pages listed for a transaction are those it holds. -/
structure Consistent (t : LockTable) : Prop where
  alone : ∀ {tx u page}, t.mode? tx page = some .exclusive → (t.mode? u page).isSome → u = tx
  listed : ∀ {tx page}, page ∈ t.pagesOf tx ↔ (t.mode? tx page).isSome

theorem mem_pagesOf : page ∈ t.pagesOf tx ↔ page ∈ t.held[tx]?.getD ∅ := by
  simp [pagesOf, ExtTreeSet.mem_toList]

theorem pagesOf_ascending (t : LockTable) (tx : TxId) :
    (t.pagesOf tx).Pairwise fun p q => compare p q = .lt :=
  ExtTreeSet.ordered_toList

theorem nodup_pagesOf (t : LockTable) (tx : TxId) : (t.pagesOf tx).Nodup := by
  apply List.Pairwise.imp _ ExtTreeSet.distinct_toList
  intro a b h heq
  exact h (Std.compare_eq_iff_eq.mpr heq)

theorem consistent_default : Consistent {} where
  alone h := by simp [LockTable.mode?, on] at h
  listed := by simp [mem_pagesOf, LockTable.mode?, on]

theorem getD_afterDrop (tx : TxId) (l : Option PageLocks) :
    (afterDrop tx l).getD {} = (l.getD {}).drop tx := by
  cases l with
  | none => simp [afterDrop, PageLocks.drop_default]
  | some l =>
      simp only [afterDrop, Option.map_some, Option.filter_some, Option.getD_some]
      split
      next => rfl
      next h => exact (PageLocks.eq_default_of_isFree (by simpa using h)).symm

theorem acquire?_eq_some (h : t.acquire? tx page mode = some t') :
    (t.on page).grants tx mode ∧
      (∀ q, t'.on q = if q = page then (t.on page).take tx mode else t.on q) ∧
      ∀ u q, q ∈ t'.pagesOf u ↔ u = tx ∧ q = page ∨ q ∈ t.pagesOf u := by
  unfold acquire? at h
  split at h
  next hg =>
    cases h
    refine ⟨hg, ?_, ?_⟩
    · intro q
      simp only [on, ExtTreeMap.getElem?_insert, Std.compare_eq_iff_eq]
      by_cases hq : page = q
      · simp [hq]
      · simp [hq, Ne.symm hq]
    · intro u q
      simp only [mem_pagesOf, ExtTreeMap.getElem?_alter, Std.compare_eq_iff_eq]
      by_cases hu : tx = u
      · subst hu
        simp [ExtTreeSet.mem_insert, eq_comm (a := page)]
      · simp [hu, Ne.symm hu]
  next => cases h

theorem mode?_acquire? (h : t.acquire? tx page mode = some t') (u : TxId) (q : PageId) :
    t'.mode? u q =
      if u = tx ∧ q = page then
        if mode = .exclusive then some .exclusive else some ((t.mode? tx page).getD .shared)
      else t.mode? u q := by
  obtain ⟨hg, hon, _⟩ := acquire?_eq_some h
  simp only [LockTable.mode?, hon]
  by_cases hq : q = page
  · subst hq
    simp only [if_true, and_true]
    exact PageLocks.mode?_take hg
  · simp [hq]

/-- A lock is refused exactly when another transaction is in the way. -/
theorem acquire?_eq_none : t.acquire? tx page mode = none ↔ ¬ (t.on page).grants tx mode := by
  simp [acquire?]

theorem Consistent.acquire? (ht : t.Consistent) (h : t.acquire? tx page mode = some t') :
    t'.Consistent := by
  obtain ⟨hg, _, hlist⟩ := acquire?_eq_some h
  have hmode := mode?_acquire? h
  constructor
  · intro v u q hv hu
    rw [hmode] at hv hu
    by_cases hq : q = page
    · subst hq
      by_cases hvt : v = tx <;> by_cases hut : u = tx
      · rw [hvt, hut]
      · simp only [hvt, hut, and_true, if_true, if_false] at hv hu
        by_cases hm : mode = .exclusive
        · subst hm
          have hs := PageLocks.isSome_mode?.mp hu
          rw [hvt]
          cases hs with
          | inl he => exact PageLocks.grants_exclusive hg he
          | inr hm => exact PageLocks.grants_shared hg hm
        · simp only [hm, if_false, Option.some.injEq] at hv
          cases hmt : t.mode? tx q with
          | none => simp [hmt] at hv
          | some m =>
              simp only [hmt, Option.getD_some] at hv
              rw [hvt]
              exact ht.alone (hv ▸ hmt) hu
      · simp only [hvt, and_true, if_false] at hv
        have := PageLocks.grants_exclusive hg (PageLocks.mode?_eq_exclusive.mp hv)
        exact absurd this hvt
      · simp only [hvt, hut, and_true, if_false] at hv hu
        exact ht.alone hv hu
    · simp only [hq, and_false, if_false] at hv hu
      exact ht.alone hv hu
  · intro u q
    rw [hlist, hmode, ht.listed]
    by_cases huq : u = tx ∧ q = page
    · simp only [huq, and_self, true_or, if_true, true_iff]
      split <;> rfl
    · simp [huq]

theorem on_alter_afterDrop (tx : TxId) (m : ExtTreeMap PageId PageLocks) (page q : PageId) :
    (m.alter page (afterDrop tx))[q]?.getD ({} : PageLocks) =
      if q = page then (m[page]?.getD ({} : PageLocks)).drop tx else m[q]?.getD {} := by
  simp only [ExtTreeMap.getElem?_alter, Std.compare_eq_iff_eq]
  by_cases hq : page = q
  · simp [hq, getD_afterDrop]
  · simp [hq, Ne.symm hq]

theorem on_release (t : LockTable) (tx : TxId) (page q : PageId) :
    (t.release tx page).on q = if q = page then (t.on page).drop tx else t.on q := by
  unfold release
  split
  next => exact on_alter_afterDrop tx t.pages page q
  next h =>
    have hp : t.on page = {} := by simp [on, ExtTreeMap.getElem?_eq_none h]
    split
    next hq => rw [hq, hp, PageLocks.drop_default]
    next => rfl

theorem mode?_release (t : LockTable) (tx : TxId) (page : PageId) (u : TxId) (q : PageId) :
    (t.release tx page).mode? u q = if u = tx ∧ q = page then none else t.mode? u q := by
  simp only [LockTable.mode?, on_release]
  by_cases hq : q = page
  · subst hq
    simp [PageLocks.mode?_drop]
  · simp [hq]

theorem Consistent.release (ht : t.Consistent) (tx : TxId) (page : PageId) :
    (t.release tx page).Consistent := by
  constructor
  · intro v u q hv hu
    rw [mode?_release] at hv hu
    split at hv
    · cases hv
    · split at hu
      · cases hu
      · exact ht.alone hv hu
  · intro u q
    rw [mode?_release]
    have old : q ∈ t.pagesOf u ↔ (t.mode? u q).isSome := ht.listed
    by_cases hp : page ∈ t.pages
    · have held : q ∈ (t.release tx page).pagesOf u ↔ ¬ (u = tx ∧ q = page) ∧ q ∈ t.pagesOf u := by
        simp only [mem_pagesOf, LockTable.release, if_pos hp, ExtTreeMap.getElem?_alter,
          Std.compare_eq_iff_eq]
        by_cases hu : tx = u
        · subst hu
          cases hh : t.held[tx]? with
          | none => simp
          | some ps =>
              have mem : q ∈ ps.erase page ↔ q ≠ page ∧ q ∈ ps := by
                simp [ExtTreeSet.mem_erase, eq_comm (a := page)]
              simp only [if_true, Option.map_some, Option.filter_some, Option.getD_some, true_and]
              split
              next => simpa using mem
              next hempty =>
                have gone : (ps.erase page).isEmpty := by
                  cases h : (ps.erase page).isEmpty with
                  | true => rfl
                  | false => exact absurd (by rw [h]; rfl) hempty
                rw [← mem, ExtTreeSet.isEmpty_iff.mp gone]
                simp
        · simp [hu, Ne.symm hu]
      rw [held, old]
      split <;> simp_all
    · rw [LockTable.release, if_neg hp, old]
      split
      next h =>
        obtain ⟨rfl, rfl⟩ := h
        simp [LockTable.mode?, on, ExtTreeMap.getElem?_eq_none hp]
      next => rfl

theorem on_foldl_afterDrop (tx : TxId) (pages : List PageId) (m : ExtTreeMap PageId PageLocks)
    (q : PageId) :
    (pages.foldl (fun m page => m.alter page (afterDrop tx)) m)[q]?.getD ({} : PageLocks) =
      if q ∈ pages then (m[q]?.getD ({} : PageLocks)).drop tx else m[q]?.getD {} := by
  induction pages generalizing m with
  | nil => simp
  | cons page pages ih =>
      rw [List.foldl_cons, ih, on_alter_afterDrop]
      by_cases hq : q = page
      · subst hq
        simp [PageLocks.drop_drop]
      · simp [hq]

theorem mode?_releaseAll (ht : t.Consistent) (tx u : TxId) (q : PageId) :
    (t.releaseAll tx).mode? u q = if u = tx then none else t.mode? u q := by
  have hon : (t.releaseAll tx).on q =
      if q ∈ t.pagesOf tx then (t.on q).drop tx else t.on q :=
    on_foldl_afterDrop tx (t.pagesOf tx) t.pages q
  simp only [LockTable.mode?, hon]
  by_cases hq : q ∈ t.pagesOf tx
  · rw [if_pos hq, PageLocks.mode?_drop]
  · rw [if_neg hq]
    split
    next hu =>
      subst hu
      have := mt ht.listed.mpr hq
      simpa [LockTable.mode?] using this
    next => rfl

theorem Consistent.releaseAll (ht : t.Consistent) (tx : TxId) : (t.releaseAll tx).Consistent := by
  have hmode := mode?_releaseAll ht tx
  constructor
  · intro v u q hv hu
    rw [hmode] at hv hu
    split at hv
    · cases hv
    · split at hu
      · cases hu
      · exact ht.alone hv hu
  · intro u q
    rw [hmode]
    split
    next hu =>
      subst hu
      simp [mem_pagesOf, LockTable.releaseAll]
    next hu =>
      rw [← ht.listed]
      simp [mem_pagesOf, LockTable.releaseAll, ExtTreeMap.getElem?_erase,
        Ne.symm hu]

end LockTable
end HeapStore
