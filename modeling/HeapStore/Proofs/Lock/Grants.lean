import HeapStore.Proofs.Lock.Safety
import Mathlib.Data.List.Induction
import Mathlib.Order.BooleanAlgebra.Set

/-!
A lock table is the set of locks that it has granted: two tables that have come about by calls and
have granted the same are the same, and every call does to the table what it does to the set. So
what is said of sets here is said of tables, down to the entries of their indexes.
-/

namespace HeapStore
open Std

/-- A lock that a transaction has. -/
structure Grant where
  tx : TxId
  page : PageId
  mode : LockMode

namespace Grants

/-- No other transaction writes to the page, and none reads it if the lock is to be exclusive. -/
def Allows (G : Set Grant) (tx : TxId) (page : PageId) (mode : LockMode) : Prop :=
  ∀ u, u ≠ tx → ⟨u, page, .exclusive⟩ ∉ G ∧ (mode = .exclusive → ⟨u, page, .shared⟩ ∉ G)

/-- An exclusive lock is added, a shared one only if there is no exclusive one already. -/
def add (G : Set Grant) (tx : TxId) (page : PageId) (mode : LockMode) : Set Grant :=
  G ∪ {g | g = ⟨tx, page, mode⟩ ∧ (mode = .shared → ⟨tx, page, .exclusive⟩ ∉ G)}

end Grants

/-- What a call does to the locks that are granted. -/
def LockCall.onGrants : LockCall → Set Grant → Set Grant
  | tryAcquire tx page mode, G | acquire tx page mode _, G =>
      {g | g ∈ G ∨ Grants.Allows G tx page mode ∧ g ∈ Grants.add G tx page mode}
  | release tx page, G => G \ {g | g.tx = tx ∧ g.page = page}
  | releaseAll tx, G => G \ {g | g.tx = tx}

namespace LockTable
open Grants
variable {t t' : LockTable} {tx u : TxId} {page q : PageId} {mode m : LockMode} {g : Grant}

/-- The locks that a table has granted, each reader and each writer for itself. -/
def granted (t : LockTable) : Set Grant :=
  {g | match g.mode with
    | .shared => g.tx ∈ t.readers g.page
    | .exclusive => t.writer? g.page = some g.tx}

/-- `tx` has a lock on `page`, and no weaker one than `mode`. -/
def Has (t : LockTable) (tx : TxId) (page : PageId) (mode : LockMode) : Prop :=
  ∃ m ∈ t.mode? tx page, mode ≤ m

theorem shared_mem_granted : ⟨u, q, .shared⟩ ∈ t.granted ↔ u ∈ (t.on q).shared :=
  ExtTreeSet.mem_toList

theorem exclusive_mem_granted : ⟨u, q, .exclusive⟩ ∈ t.granted ↔ (t.on q).exclusive = some u :=
  Iff.rfl

/-- The holders of a page are those that have been granted a lock on it. -/
theorem isSome_mode?_iff_granted :
    (t.mode? tx page).isSome ↔ ∃ g ∈ t.granted, g.tx = tx ∧ g.page = page := by
  rw [LockTable.mode?, PageLocks.isSome_mode?]
  constructor
  · rintro (writes | reads)
    · exact ⟨⟨tx, page, .exclusive⟩, writes, rfl, rfl⟩
    · exact ⟨⟨tx, page, .shared⟩, shared_mem_granted.mpr reads, rfl, rfl⟩
  · rintro ⟨⟨_, _, m⟩, holds, rfl, rfl⟩
    cases m with
    | shared => exact .inr (shared_mem_granted.mp holds)
    | exclusive => exact .inl holds

theorem isSome_mode?_of_mem_granted (h : g ∈ t.granted) : (t.mode? g.tx g.page).isSome :=
  isSome_mode?_iff_granted.mpr ⟨g, h, rfl, rfl⟩

theorem granted_default : granted {} = ∅ := by
  rw [Set.eq_empty_iff_forall_notMem]
  intro g h
  have := isSome_mode?_of_mem_granted h
  simp [LockTable.mode?, on] at this

theorem on_eq_of_granted (h : t.granted = t'.granted) (q : PageId) : t.on q = t'.on q := by
  have shared : (t.on q).shared = (t'.on q).shared := by
    apply ExtTreeSet.ext_mem
    intro u
    rw [← shared_mem_granted, h, shared_mem_granted]
  have exclusive : (t.on q).exclusive = (t'.on q).exclusive := by
    apply Option.ext
    intro u
    rw [← exclusive_mem_granted, h, exclusive_mem_granted]
  calc t.on q = ⟨(t.on q).shared, (t.on q).exclusive⟩ := rfl
    _ = t'.on q := by rw [shared, exclusive]

theorem Busy.getElem?_pages (h : t.Busy) (q : PageId) :
    t.pages[q]? = if (t.on q).isFree then none else some (t.on q) := by
  cases hq : t.pages[q]? with
  | none => simp [on, hq, PageLocks.isFree]
  | some l =>
      have here : t.on q = l := by simp [on, hq]
      rw [here, h.pages hq]
      rfl

theorem Busy.getElem?_held (h : t.Busy) (tx : TxId) :
    t.held[tx]? =
      if (t.held[tx]?.getD ∅).isEmpty then none else some (t.held[tx]?.getD ∅) := by
  cases ht : t.held[tx]? with
  | none => rfl
  | some ps =>
      rw [Option.getD_some, h.held ht]
      rfl

/-- Nothing is in a table but what it has granted. -/
theorem eq_of_granted (h : t.Consistent) (busy : t.Busy) (h' : t'.Consistent) (busy' : t'.Busy)
    (same : t.granted = t'.granted) : t = t' := by
  have on := on_eq_of_granted same
  have pages : t.pages = t'.pages := by
    apply ExtTreeMap.ext_getElem?
    intro q
    rw [busy.getElem?_pages, busy'.getElem?_pages, on]
  have listed (tx : TxId) : t.held[tx]?.getD ∅ = t'.held[tx]?.getD ∅ := by
    apply ExtTreeSet.ext_mem
    intro q
    rw [← LockTable.mem_pagesOf, ← LockTable.mem_pagesOf, h.listed, h'.listed, LockTable.mode?,
      LockTable.mode?, on]
  have held : t.held = t'.held := by
    apply ExtTreeMap.ext_getElem?
    intro tx
    rw [busy.getElem?_held, busy'.getElem?_held, listed]
  calc t = ⟨t.pages, t.held⟩ := rfl
    _ = t' := by rw [pages, held]

theorem grants_iff_allows : (t.on page).grants tx mode ↔ Allows t.granted tx page mode := by
  have writer : ((t.on page).exclusive.all fun u => u == tx) = true ↔
      ∀ u, u ≠ tx → ⟨u, page, .exclusive⟩ ∉ t.granted := by
    simp only [Option.all_eq_true, beq_iff_eq, exclusive_mem_granted]
    exact ⟨fun h u hu he => hu (h u he), fun h u he => by_contra fun hu => h u hu he⟩
  have readers : ((t.on page).shared.toList.all fun u => u == tx) = true ↔
      ∀ u, u ≠ tx → ⟨u, page, .shared⟩ ∉ t.granted := by
    simp only [List.all_eq_true, ExtTreeSet.mem_toList, beq_iff_eq, shared_mem_granted]
    exact ⟨fun h u hu hs => hu (h u hs), fun h u hs => by_contra fun hu => h u hu hs⟩
  cases mode with
  | shared =>
      simp only [PageLocks.grants, Allows, writer]
      exact forall₂_congr fun u hu => by simp
  | exclusive =>
      simp only [PageLocks.grants, Allows, Bool.and_eq_true, writer, readers, ← forall_and]
      exact forall₂_congr fun u hu => by simp

theorem isSome_acquire? : (t.acquire? tx page mode).isSome ↔ Allows t.granted tx page mode := by
  rw [← grants_iff_allows, Option.isSome_iff_ne_none, ne_eq, acquire?_eq_none, not_not]

/-- Nobody else is in the way of who writes, so a lock that is granted displaces none. -/
theorem granted_acquire? (h : t.acquire? tx page mode = some t') :
    t'.granted = add t.granted tx page mode := by
  obtain ⟨hg, hon, _⟩ := acquire?_eq_some h
  have allowed := grants_iff_allows.mp hg
  ext ⟨u, q, m⟩
  simp only [add, Set.mem_union, Set.mem_ofPred_eq, Grant.mk.injEq]
  by_cases hq : q = page
  · subst hq
    cases m <;> cases mode <;>
      simp only [shared_mem_granted, exclusive_mem_granted, hon, if_true, PageLocks.take,
        reduceCtorEq, and_true, and_false, false_and, or_false, true_implies, false_implies]
    case shared.shared =>
      by_cases he : (t.on q).exclusive = some tx
      · simp [he]
      · simp [he, ExtTreeSet.mem_insert, eq_comm (a := tx), or_comm]
    case exclusive.shared => split <;> rfl
    case exclusive.exclusive =>
      simp only [Option.some.injEq, eq_comm (a := tx)]
      exact ⟨.inr, fun he => he.elim (fun he => by_contra fun hu => (allowed u hu).1 he) id⟩
  · have same : t'.on q = t.on q := by rw [hon, if_neg hq]
    have old : (⟨u, q, m⟩ : Grant) ∈ t'.granted ↔ (⟨u, q, m⟩ : Grant) ∈ t.granted := by
      cases m <;> simp only [shared_mem_granted, exclusive_mem_granted, same]
    rw [old]
    simp [hq]

theorem mem_granted_of_on (h : t'.on q = (t.on q).drop tx) :
    ⟨u, q, m⟩ ∈ t'.granted ↔ ⟨u, q, m⟩ ∈ t.granted ∧ u ≠ tx := by
  cases m with
  | shared => rw [shared_mem_granted, shared_mem_granted, h, PageLocks.mem_shared_drop, and_comm]
  | exclusive =>
      rw [exclusive_mem_granted, exclusive_mem_granted, h, PageLocks.exclusive_drop, and_comm]

theorem mem_granted_congr (h : t'.on q = t.on q) :
    ⟨u, q, m⟩ ∈ t'.granted ↔ ⟨u, q, m⟩ ∈ t.granted := by
  cases m with
  | shared => rw [shared_mem_granted, shared_mem_granted, h]
  | exclusive => rw [exclusive_mem_granted, exclusive_mem_granted, h]

theorem granted_release (t : LockTable) (tx : TxId) (page : PageId) :
    (t.release tx page).granted = t.granted \ {g | g.tx = tx ∧ g.page = page} := by
  ext ⟨u, q, m⟩
  have hon := on_release t tx page q
  by_cases hq : q = page
  · subst hq
    rw [if_pos rfl] at hon
    simp [mem_granted_of_on hon]
  · rw [if_neg hq] at hon
    simp [mem_granted_congr hon, hq]

theorem granted_releaseAll (h : t.Consistent) (tx : TxId) :
    (t.releaseAll tx).granted = t.granted \ {g | g.tx = tx} := by
  ext ⟨u, q, m⟩
  have hon : (t.releaseAll tx).on q = if q ∈ t.pagesOf tx then (t.on q).drop tx else t.on q :=
    on_foldl_afterDrop tx (t.pagesOf tx) t.pages q
  by_cases hq : q ∈ t.pagesOf tx
  · rw [if_pos hq] at hon
    simp [mem_granted_of_on hon]
  · rw [if_neg hq] at hon
    have other (holds : ⟨u, q, m⟩ ∈ t.granted) : u ≠ tx := by
      rintro rfl
      exact hq (h.listed.mpr (isSome_mode?_of_mem_granted holds))
    simpa [mem_granted_congr hon] using other

/-- Pages that are released one after the other are released all the same in any order. -/
theorem granted_foldl_release (pages : List PageId) (t : LockTable) (tx : TxId) :
    (pages.foldl (fun t page => t.release tx page) t).granted =
      t.granted \ {g | g.tx = tx ∧ g.page ∈ pages} := by
  induction pages generalizing t with
  | nil => simp
  | cons page pages ih =>
      rw [List.foldl_cons, ih, granted_release, sdiff_sdiff_left]
      congr 1
      ext g
      simp only [Set.sup_eq_union, Set.mem_union, Set.mem_ofPred_eq, List.mem_cons, and_or_left]

theorem consistent_busy_foldl_release (pages : List PageId) (h : t.Consistent ∧ t.Busy)
    (tx : TxId) :
    (pages.foldl (fun t page => t.release tx page) t).Consistent ∧
      (pages.foldl (fun t page => t.release tx page) t).Busy := by
  induction pages generalizing t with
  | nil => exact h
  | cons page pages ih => exact ih ⟨h.1.release tx page, h.2.release tx page⟩

theorem foldl_release_eq_releaseAll (h : t.Consistent) (busy : t.Busy) {pages : List PageId}
    (all : pages.Perm (t.pagesOf tx)) :
    pages.foldl (fun t page => t.release tx page) t = t.releaseAll tx := by
  obtain ⟨h', busy'⟩ := consistent_busy_foldl_release pages ⟨h, busy⟩ tx
  apply eq_of_granted h' busy' (h.releaseAll tx) (busy.releaseAll tx)
  rw [granted_foldl_release, granted_releaseAll h]
  ext g
  simp only [Set.mem_sdiff, Set.mem_ofPred_eq, all.mem_iff, not_and]
  refine and_congr_right fun holds => ⟨?_, fun other own => absurd own other⟩
  rintro unlisted rfl
  exact unlisted rfl (h.listed.mpr (isSome_mode?_of_mem_granted holds))

theorem releaseAll_releaseAll (h : t.Consistent) (busy : t.Busy) (tx : TxId) :
    (t.releaseAll tx).releaseAll tx = t.releaseAll tx := by
  have h' := h.releaseAll tx
  have busy' := busy.releaseAll tx
  apply eq_of_granted (h'.releaseAll tx) (busy'.releaseAll tx) h' busy'
  rw [granted_releaseAll h', granted_releaseAll h, sdiff_idem]

theorem tryAcquire_true_iff :
    (t.tryAcquire tx page mode).1 = true ↔ Allows t.granted tx page mode := by
  rw [tryAcquire_eq, ← isSome_acquire?]
  cases t.acquire? tx page mode <;> simp

theorem acquire?_of_tryAcquire (h : (t.tryAcquire tx page mode).1 = true) :
    t.acquire? tx page mode = some (t.tryAcquire tx page mode).2 := by
  rw [tryAcquire_eq] at h ⊢
  cases ha : t.acquire? tx page mode with
  | none =>
      rw [ha] at h
      cases h
  | some t' => rfl

theorem tryAcquire_of_refused (h : (t.tryAcquire tx page mode).1 = false) :
    (t.tryAcquire tx page mode).2 = t := by
  rw [tryAcquire_eq] at h ⊢
  cases ha : t.acquire? tx page mode with
  | none => rfl
  | some t' =>
      rw [ha] at h
      cases h

/-- Who asks gets what he asks for. -/
theorem has_of_acquire? (h : t.acquire? tx page mode = some t') : t'.Has tx page mode := by
  have hmode := (mode?_acquire? h tx page).trans (if_pos ⟨rfl, rfl⟩)
  cases mode with
  | shared => exact ⟨_, hmode, .inl rfl⟩
  | exclusive => exact ⟨_, hmode, .inr rfl⟩

/-- Nobody who has a lock has a weaker one once another lock is granted. -/
theorem Has.acquire? (has : t.Has u q m) (h : t.acquire? tx page mode = some t') :
    t'.Has u q m := by
  obtain ⟨held, hm, le⟩ := has
  have hmode := mode?_acquire? h u q
  by_cases here : u = tx ∧ q = page
  · obtain ⟨rfl, rfl⟩ := here
    cases mode with
    | shared =>
        rw [if_pos ⟨rfl, rfl⟩, Option.mem_def.mp hm] at hmode
        exact ⟨held, hmode, le⟩
    | exclusive =>
        rw [if_pos ⟨rfl, rfl⟩] at hmode
        exact ⟨_, hmode, .inr rfl⟩
  · rw [if_neg here] at hmode
    exact ⟨held, hmode.trans hm, le⟩

theorem Has.holds (h : t.Has tx q m) : t.holds tx q = true := by
  obtain ⟨held, hm, _⟩ := h
  rw [LockTable.holds, Option.mem_def.mp hm]
  rfl

theorem Has.release (h : t.Has u q m) (other : ¬ (u = tx ∧ q = page)) :
    (t.release tx page).Has u q m := by
  obtain ⟨held, hm, le⟩ := h
  refine ⟨held, ?_, le⟩
  rw [mode?_release, if_neg other]
  exact hm

theorem Has.releaseAll (h : t.Has u q m) (hu : u ≠ tx) : (t.releaseAll tx).Has u q m := by
  obtain ⟨held, hm, le⟩ := h
  have hon : (t.releaseAll tx).on q = if q ∈ t.pagesOf tx then (t.on q).drop tx else t.on q :=
    on_foldl_afterDrop tx (t.pagesOf tx) t.pages q
  refine ⟨held, ?_, le⟩
  rw [LockTable.mode?, hon]
  split
  · rw [PageLocks.mode?_drop, if_neg hu]
    exact hm
  · exact hm

/-- Who gives up has left no trace in the table. -/
theorem awaitAmong_error {between : List (List LockCall)} {e : Error}
    (h : awaitAmong tx page mode between t = (.error e, t')) :
    e = .lockTimeout tx page ∧ t' = between.flatten.foldl (fun t c => c.perform t) t := by
  induction between generalizing t with
  | nil =>
      rw [awaitAmong, await, tryAcquire_eq] at h
      cases ha : t.acquire? tx page mode with
      | some _ =>
          rw [ha] at h
          cases h
      | none =>
          rw [ha] at h
          cases h
          exact ⟨rfl, rfl⟩
  | cons calls between ih =>
      rw [awaitAmong, tryAcquire_eq] at h
      cases ha : t.acquire? tx page mode with
      | some _ =>
          rw [ha] at h
          cases h
      | none =>
          rw [ha] at h
          obtain ⟨rfl, left⟩ := ih h
          exact ⟨rfl, by rw [left, List.flatten_cons, List.foldl_append]⟩

theorem granted_perform (h : t.Consistent) (c : LockCall) :
    (c.perform t).granted = c.onGrants t.granted := by
  have taken {tx page mode t'} (h : t.acquire? tx page mode = some t') :
      t'.granted = {g | g ∈ t.granted ∨
        Allows t.granted tx page mode ∧ g ∈ add t.granted tx page mode} := by
    have allowed := isSome_acquire?.mp (Option.isSome_of_mem h)
    rw [granted_acquire? h]
    ext g
    simp [allowed, add]
  have refused {tx page mode} (h : t.acquire? tx page mode = none) :
      t.granted = {g | g ∈ t.granted ∨
        Allows t.granted tx page mode ∧ g ∈ add t.granted tx page mode} := by
    have forbidden : ¬ Allows t.granted tx page mode := by
      rw [← isSome_acquire?, h]
      exact Bool.false_ne_true
    ext g
    simp [forbidden]
  cases c with
  | tryAcquire tx page mode =>
      rw [LockCall.perform, tryAcquire_eq]
      cases ha : t.acquire? tx page mode with
      | none => exact refused ha
      | some t' => exact taken ha
  | acquire tx page mode retries =>
      cases ha : t.acquire? tx page mode with
      | none =>
          rcases t.await_cases tx page mode retries with same | ha'
          · rw [LockCall.perform, same]
            exact refused ha
          · rw [ha] at ha'
            cases ha'
      | some t' =>
          have granted : await tx page mode retries t = (.ok (), t') := by
            cases retries <;> rw [await, tryAcquire_eq, ha]
          rw [LockCall.perform, granted]
          exact taken ha
  | release tx page => exact granted_release t tx page
  | releaseAll tx => exact granted_releaseAll h tx

/-- What calls come to is what each of them does to the locks that are granted. -/
theorem granted_after (calls : List LockCall) :
    (after calls).granted = calls.foldl (fun G c => c.onGrants G) ∅ := by
  induction calls using List.reverseRecOn with
  | nil => exact granted_default
  | append_singleton calls c ih =>
      have last : after (calls ++ [c]) = c.perform (after calls) := by
        rw [after, List.foldl_append]
        rfl
      rw [last, granted_perform (consistent_busy_after calls).1, ih, List.foldl_append]
      rfl

/-- What a table does with calls, as told by the locks that it has granted. -/
structure Exact (t : LockTable) : Prop where
  grants_iff : ∀ tx page mode,
    (t.tryAcquire tx page mode).1 = true ↔ Allows t.granted tx page mode
  takes : ∀ tx page mode, (t.tryAcquire tx page mode).1 = true →
    (t.tryAcquire tx page mode).2.granted = add t.granted tx page mode ∧
      (t.tryAcquire tx page mode).2.Has tx page mode ∧
        ∀ m, t.Has tx page m → (t.tryAcquire tx page mode).2.Has tx page m
  refuses : ∀ tx page mode, (t.tryAcquire tx page mode).1 = false →
    (t.tryAcquire tx page mode).2 = t
  gives_up : ∀ tx page mode between e t', awaitAmong tx page mode between t = (.error e, t') →
    e = .lockTimeout tx page ∧ t' = between.flatten.foldl (fun t c => c.perform t) t
  pages_used : ∀ (page : PageId) (l : PageLocks), t.pages[page]? = some l →
    ∃ g ∈ t.granted, g.page = page
  txs_used : ∀ (tx : TxId) (ps : ExtTreeSet PageId), t.held[tx]? = some ps →
    ∃ g ∈ t.granted, g.tx = tx
  releases : ∀ tx page,
    (t.release tx page).granted = t.granted \ {g | g.tx = tx ∧ g.page = page}
  releases_all : ∀ tx, (t.releaseAll tx).granted = t.granted \ {g | g.tx = tx}
  one_by_one : ∀ tx (pages : List PageId), pages.Perm (t.pagesOf tx) →
    pages.foldl (fun t page => t.release tx page) t = t.releaseAll tx
  twice : ∀ tx, (t.releaseAll tx).releaseAll tx = t.releaseAll tx

/-- After any calls a table has granted what these calls come to one by one, and does with the next
call exactly what is to be done with it, going by what it has granted. -/
theorem exact_after (calls : List LockCall) :
    (after calls).granted = calls.foldl (fun G c => c.onGrants G) ∅ ∧ (after calls).Exact := by
  obtain ⟨consistent, busy⟩ := consistent_busy_after calls
  refine ⟨granted_after calls, ?_⟩
  constructor
  case grants_iff => exact fun _ _ _ => tryAcquire_true_iff
  case takes =>
    intro tx page mode h
    have ha := acquire?_of_tryAcquire h
    exact ⟨granted_acquire? ha, has_of_acquire? ha, fun m has => has.acquire? ha⟩
  case refuses => exact fun _ _ _ => tryAcquire_of_refused
  case gives_up => exact fun _ _ _ _ _ _ => awaitAmong_error
  case pages_used =>
    intro page l listed
    obtain ⟨tx, holder⟩ := PageLocks.exists_holder (busy.pages listed)
    obtain ⟨g, holds, _, same⟩ :=
      isSome_mode?_iff_granted.mp (isSome_mode?_iff_listed.mpr ⟨l, listed, holder⟩)
    exact ⟨g, holds, same⟩
  case txs_used =>
    intro tx ps held
    obtain ⟨page, mem⟩ := exists_mem_of_isEmpty_eq_false (busy.held held)
    obtain ⟨g, holds, same, _⟩ := isSome_mode?_iff_granted.mp
      (consistent.listed.mp (mem_pagesOf_iff_held.mpr ⟨ps, held, mem⟩))
    exact ⟨g, holds, same⟩
  case releases => exact granted_release (after calls)
  case releases_all => exact granted_releaseAll consistent
  case one_by_one => exact fun _ _ => foldl_release_eq_releaseAll consistent busy
  case twice => exact releaseAll_releaseAll consistent busy

end LockTable
end HeapStore
