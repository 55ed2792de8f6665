import HeapStore.Lock.Call
import HeapStore.Proofs.Lock.Table

/-!
What holds of a lock table after any calls: who may write to a page is alone with it, the two
indexes say the same, and neither has an entry that says nothing. So the pages of a transaction and
the readers of a page are listed in ascending order, each once.
-/

namespace HeapStore
open Std

theorem exists_mem_of_isEmpty_eq_false {α : Type} [Ord α] [TransOrd α] {s : ExtTreeSet α}
    (h : s.isEmpty = false) : ∃ a, a ∈ s := by
  rw [ExtTreeSet.isEmpty_eq_false_iff, ExtTreeSet.eq_empty_iff_forall_not_mem] at h
  simpa using h

theorem PageLocks.isFree_take {l : PageLocks} (tx : TxId) (mode : LockMode) :
    (l.take tx mode).isFree = false := by
  have held : ∀ m : PageLocks, (m.mode? tx).isSome → m.isFree = false := by
    intro m hm
    cases hf : m.isFree with
    | false => rfl
    | true =>
        rw [eq_default_of_isFree hf, mode?_default] at hm
        cases hm
  apply held
  rw [isSome_mode?]
  cases mode with
  | exclusive => exact .inl rfl
  | shared =>
      by_cases he : l.exclusive = some tx
      · simp only [take, if_pos he]
        exact .inl he
      · simp only [take, if_neg he]
        exact .inr ExtTreeSet.mem_insert_self

theorem PageLocks.exists_holder {l : PageLocks} (h : l.isFree = false) :
    ∃ tx, tx ∈ l.shared ∨ l.exclusive = some tx := by
  cases he : l.exclusive with
  | some tx => exact ⟨tx, .inr rfl⟩
  | none =>
      simp only [isFree, he, Option.isNone_none, Bool.and_true] at h
      obtain ⟨tx, htx⟩ := exists_mem_of_isEmpty_eq_false h
      exact ⟨tx, .inl htx⟩

namespace LockTable
variable {t t' : LockTable} {tx u : TxId} {page q : PageId} {mode : LockMode}

/-- No page is listed without a holder, and no transaction without a page. -/
structure Busy (t : LockTable) : Prop where
  pages : ∀ {page : PageId} {l : PageLocks}, t.pages[page]? = some l → l.isFree = false
  held : ∀ {tx : TxId} {ps : ExtTreeSet PageId}, t.held[tx]? = some ps → ps.isEmpty = false

theorem busy_default : Busy {} where
  pages h := by simp at h
  held h := by simp at h

theorem isFree_of_afterDrop {o : Option PageLocks} {l : PageLocks} (h : afterDrop tx o = some l) :
    l.isFree = false := by
  obtain ⟨_, busy⟩ := Option.filter_eq_some_iff.mp h
  simpa using busy

theorem Busy.acquire? (h : t.Busy) (ha : t.acquire? tx page mode = some t') : t'.Busy := by
  unfold LockTable.acquire? at ha
  split at ha
  next =>
    cases ha
    constructor
    · intro q l hl
      simp only [ExtTreeMap.getElem?_insert, Std.compare_eq_iff_eq] at hl
      split at hl
      next =>
        cases hl
        exact PageLocks.isFree_take tx mode
      next => exact h.pages hl
    · intro u ps hp
      simp only [ExtTreeMap.getElem?_alter, Std.compare_eq_iff_eq] at hp
      split at hp
      next =>
        cases hp
        exact ExtTreeSet.isEmpty_eq_false_iff.mpr
          (ExtTreeSet.ne_empty_of_mem ExtTreeSet.mem_insert_self)
      next => exact h.held hp
  next => cases ha

theorem Busy.release (h : t.Busy) (tx : TxId) (page : PageId) : (t.release tx page).Busy := by
  unfold LockTable.release
  split
  next =>
    constructor
    · intro q l hl
      simp only [ExtTreeMap.getElem?_alter, Std.compare_eq_iff_eq] at hl
      split at hl
      next => exact isFree_of_afterDrop hl
      next => exact h.pages hl
    · intro u ps hp
      simp only [ExtTreeMap.getElem?_alter, Std.compare_eq_iff_eq] at hp
      split at hp
      next =>
        obtain ⟨_, used⟩ := Option.filter_eq_some_iff.mp hp
        simpa using used
      next => exact h.held hp
  next => exact h

theorem busy_foldl_afterDrop (tx : TxId) (pages : List PageId) {m : ExtTreeMap PageId PageLocks}
    (h : ∀ {q : PageId} {l : PageLocks}, m[q]? = some l → l.isFree = false) {q : PageId} {l : PageLocks}
    (hl : (pages.foldl (fun m page => m.alter page (afterDrop tx)) m)[q]? = some l) :
    l.isFree = false := by
  induction pages generalizing m with
  | nil => exact h hl
  | cons page pages ih =>
      refine ih ?_ hl
      intro q l hl
      simp only [ExtTreeMap.getElem?_alter, Std.compare_eq_iff_eq] at hl
      split at hl
      next => exact isFree_of_afterDrop hl
      next => exact h hl

theorem Busy.releaseAll (h : t.Busy) (tx : TxId) : (t.releaseAll tx).Busy where
  pages hl := busy_foldl_afterDrop tx (t.pagesOf tx) h.pages hl
  held hp := by
    simp only [LockTable.releaseAll, ExtTreeMap.getElem?_erase] at hp
    split at hp
    next => cases hp
    next => exact h.held hp

/-- To look a page up is not to change what is known of it. -/
theorem acquire?_probe (t : LockTable) (tx : TxId) (page : PageId) (mode : LockMode) :
    (t.probe page).acquire? tx page mode = t.acquire? tx page mode := by
  have same : (t.probe page).on page = t.on page := by simp [probe, on]
  have twice : ∀ l : PageLocks, (t.probe page).pages.insert page l = t.pages.insert page l := by
    intro l
    apply ExtTreeMap.ext_getElem?
    intro q
    simp only [probe, ExtTreeMap.getElem?_insert]
    split <;> rfl
  simp only [LockTable.acquire?, same, twice]
  rfl

/-- A page that nobody holds is granted to everybody. -/
theorem isFree_of_acquire?_eq_none (h : t.acquire? tx page mode = none) :
    (t.on page).isFree = false := by
  cases hf : (t.on page).isFree with
  | false => rfl
  | true =>
      rw [acquire?_eq_none, PageLocks.eq_default_of_isFree hf] at h
      cases mode <;> simp [PageLocks.grants] at h

/-- A request is granted as a lock is taken, or it leaves the table as it is. -/
theorem tryAcquire_eq (t : LockTable) (tx : TxId) (page : PageId) (mode : LockMode) :
    t.tryAcquire tx page mode =
      match t.acquire? tx page mode with
      | some t' => (true, t')
      | none => (false, t) := by
  unfold tryAcquire
  rw [acquire?_probe]
  cases ha : t.acquire? tx page mode with
  | some t' => rfl
  | none =>
      have used := isFree_of_acquire?_eq_none ha
      have listed : t.pages[page]? = some (t.on page) := by
        cases hp : t.pages[page]? with
        | some l => simp [on, hp]
        | none => simp [on, hp, PageLocks.isFree] at used
      have seen : t.pages.insert page (t.on page) = t.pages := by
        apply ExtTreeMap.ext_getElem?
        intro q
        simp only [ExtTreeMap.getElem?_insert, Std.compare_eq_iff_eq]
        split
        next hq => rw [← hq, listed]
        next => rfl
      simp only [used, probe, seen, Bool.false_eq_true, if_false]

/-- To wait for a lock leaves the table as it is, or takes the lock. -/
theorem await_cases (t : LockTable) (tx : TxId) (page : PageId) (mode : LockMode)
    (retries : Nat) :
    (await tx page mode retries t).2 = t ∨
      t.acquire? tx page mode = some (await tx page mode retries t).2 := by
  induction retries with
  | zero =>
      rw [await, tryAcquire_eq]
      cases t.acquire? tx page mode with
      | none => exact .inl rfl
      | some t' => exact .inr rfl
  | succ retries ih =>
      rw [await, tryAcquire_eq]
      cases ha : t.acquire? tx page mode with
      | none =>
          rw [ha] at ih
          exact ih
      | some t' => exact .inr rfl

/-- What granting a lock keeps, and releasing one or all, every call keeps. -/
theorem perform_induction {P : LockTable → Prop} (h : P t) (c : LockCall)
    (acquire : ∀ {tx page mode t'}, t.acquire? tx page mode = some t' → P t')
    (release : ∀ tx page, P (t.release tx page)) (releaseAll : ∀ tx, P (t.releaseAll tx)) :
    P (c.perform t) := by
  cases c with
  | tryAcquire tx page mode =>
      rw [LockCall.perform, tryAcquire_eq]
      cases ha : t.acquire? tx page mode with
      | none => exact h
      | some t' => exact acquire ha
  | acquire tx page mode retries =>
      rw [LockCall.perform]
      rcases t.await_cases tx page mode retries with same | ha
      · rw [same]
        exact h
      · exact acquire ha
  | release tx page => exact release tx page
  | releaseAll tx => exact releaseAll tx

theorem consistent_busy_after (calls : List LockCall) :
    (after calls).Consistent ∧ (after calls).Busy := by
  have kept (t : LockTable) (ht : t.Consistent ∧ t.Busy) (calls : List LockCall) :
      (calls.foldl (fun t c => c.perform t) t).Consistent ∧
        (calls.foldl (fun t c => c.perform t) t).Busy := by
    induction calls generalizing t with
    | nil => exact ht
    | cons c calls ih =>
        apply ih
        exact perform_induction (P := fun t => t.Consistent ∧ t.Busy) ht c
          (fun ha => ⟨ht.1.acquire? ha, ht.2.acquire? ha⟩)
          (fun tx page => ⟨ht.1.release tx page, ht.2.release tx page⟩)
          (fun tx => ⟨ht.1.releaseAll tx, ht.2.releaseAll tx⟩)
  exact kept {} ⟨consistent_default, busy_default⟩ calls

theorem Consistent.compatible (h : t.Consistent) {m m' : LockMode} (other : tx ≠ u)
    (htx : t.mode? tx page = some m) (hu : t.mode? u page = some m') :
    m = .shared ∧ m' = .shared := by
  constructor
  · cases m with
    | shared => rfl
    | exclusive => exact absurd (h.alone htx (by simp [hu])) (Ne.symm other)
  · cases m' with
    | shared => rfl
    | exclusive => exact absurd (h.alone hu (by simp [htx])) other

theorem mem_pagesOf_iff_held : page ∈ t.pagesOf tx ↔ ∃ ps, t.held[tx]? = some ps ∧ page ∈ ps := by
  rw [LockTable.mem_pagesOf]
  cases t.held[tx]? with
  | none => simp
  | some ps => simp

theorem isSome_mode?_iff_listed :
    (t.mode? tx page).isSome ↔
      ∃ l, t.pages[page]? = some l ∧ (tx ∈ l.shared ∨ l.exclusive = some tx) := by
  rw [LockTable.mode?, PageLocks.isSome_mode?, Or.comm, on]
  cases t.pages[page]? with
  | none => simp
  | some l => simp

/-- What the two indexes of a table hold, and the answers that are read off them. -/
structure Safe (t : LockTable) : Prop where
  alone : ∀ tx u (page : PageId) (l : PageLocks), t.pages[page]? = some l → l.exclusive = some tx →
    l.exclusive = some u ∨ u ∈ l.shared → u = tx
  indexed : ∀ (tx : TxId) (page : PageId), (∃ ps, t.held[tx]? = some ps ∧ page ∈ ps) ↔
    ∃ l, t.pages[page]? = some l ∧ (tx ∈ l.shared ∨ l.exclusive = some tx)
  page_used : ∀ (page : PageId) (l : PageLocks), t.pages[page]? = some l →
    ∃ tx, tx ∈ l.shared ∨ l.exclusive = some tx
  tx_used : ∀ (tx : TxId) (ps : ExtTreeSet PageId), t.held[tx]? = some ps → ∃ page, page ∈ ps
  pages_ascend : ∀ tx, (t.pagesOf tx).Pairwise fun p q => compare p q = .lt
  pages_held : ∀ tx page, page ∈ t.pagesOf tx ↔ (t.mode? tx page).isSome
  readers_ascend : ∀ page, (t.readers page).Pairwise fun tx u => compare tx u = .lt
  agree : ∀ tx u page m m', tx ≠ u → t.mode? tx page = some m → t.mode? u page = some m' →
    m = .shared ∧ m' = .shared

theorem safe_after (calls : List LockCall) : (after calls).Safe := by
  obtain ⟨consistent, busy⟩ := consistent_busy_after calls
  constructor
  case alone =>
    intro tx u page l listed writes holds
    have hw : (after calls).mode? tx page = some .exclusive := by
      rw [LockTable.mode?, PageLocks.mode?_eq_exclusive, on, listed]
      exact writes
    exact consistent.alone hw (isSome_mode?_iff_listed.mpr ⟨l, listed, holds.symm⟩)
  case indexed =>
    intro tx page
    rw [← mem_pagesOf_iff_held, consistent.listed, isSome_mode?_iff_listed]
  case page_used =>
    intro page l listed
    exact PageLocks.exists_holder (busy.pages listed)
  case tx_used =>
    intro tx ps held
    exact exists_mem_of_isEmpty_eq_false (busy.held held)
  case pages_ascend => exact pagesOf_ascending (after calls)
  case pages_held =>
    intro tx page
    exact consistent.listed
  case readers_ascend =>
    intro page
    exact ExtTreeSet.ordered_toList
  case agree =>
    intro tx u page m m' other htx hu
    exact consistent.compatible other htx hu

end LockTable
end HeapStore
