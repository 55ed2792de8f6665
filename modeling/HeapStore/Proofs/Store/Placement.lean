import HeapStore.Proofs.Store.Abort
import HeapStore.Proofs.Store.Hindered
import HeapStore.Proofs.Store.Reachable

/-!
Where a row goes. It is stored in the lowest free slot of the first page that has one, and the file
grows by a page if none has; the pages before it are locked afterwards if they were before. What
pages hold is changed nowhere else, and the free slot is the first one there was, exactly if the
pages that had to leave the cache meanwhile were in their files as they were in the cache.
-/

namespace HeapStore.Store
open Std
variable {home : TableId → Nat} {s s' s₀ s₁ : Store} {tx : TxId} {t : Tuple} {e : Entry}
  {q : PageId} {p : HeapPage} {rs : List PageRequest} {n m : Nat} {rid : RecordId} {a : Access}

/-- What a page holds: as it is cached, or else as its file has it. -/
def slots (s : Store) (q : PageId) : Except Error (List (Option Tuple)) :=
  match s.cached q with
  | some p => .ok p.slots
  | none => (s.onFile q).map HeapPage.slots

theorem slots_of_cached (h : s.cached q = some p) : s.slots q = .ok p.slots := by
  simp only [slots, h]

theorem slots_of_absent (h : s.cached q = none) :
    s.slots q = (s.onFile q).map HeapPage.slots := by
  simp only [slots, h]

theorem Replied.slots (h : Replied tx q a s (.ok p) s') : s.slots q = .ok p.slots := by
  rcases h.source with here | ⟨absent, read⟩
  · exact slots_of_cached here
  · rw [slots_of_absent absent, read]
    rfl

/-- Each page that leaves the cache at one of the requests is in its file as it was cached. -/
def LeavesTraces (rs : List PageRequest) (s : Store) : Prop :=
  ∀ q p, s.cached q = some p → (∃ r ∈ rs, r.after.cached q = none) →
    (s.onFile q).map HeapPage.slots = .ok p.slots

theorem LeavesTraces.mono {rs' : List PageRequest} (h : LeavesTraces rs' s)
    (sub : ∀ r ∈ rs, r ∈ rs') : LeavesTraces rs s :=
  fun q p hp ⟨r, hr, gone⟩ => h q p hp ⟨r, sub r hr, gone⟩

theorem Overlays.slots (h : Overlays q p s s') (q' : PageId) :
    s'.slots q' = if q' = q then .ok p.slots else s.slots q' := by
  have cached := h.cached q'
  split at cached
  next same => rw [slots_of_cached cached, if_pos same]
  next other => simp only [Store.slots, cached, h.onFile, if_neg other]

theorem none_notMem_slots (full : p.emptySlots = 0) : none ∉ p.slots := by
  intro free
  have := List.countP_eq_zero.mp full none free
  simp at this

/-- A free slot that has been filled is all that tells two lists of slots apart. -/
theorem eq_of_set_eq {slots slots' : List (Option Tuple)} {i : Nat} {row : Option Tuple}
    (free : slots[i]? = some none) (free' : slots'[i]? = some none)
    (same : slots.set i row = slots'.set i row) : slots = slots' := by
  have undone {l : List (Option Tuple)} (h : l[i]? = some none) : (l.set i row).set i none = l := by
    rw [List.set_set]
    obtain ⟨lt, none⟩ := List.getElem?_eq_some_iff.mp h
    rw [← none, List.set_getElem_self]
  rw [← undone free, same, undone free']

/-- A file that grows has its pages in the same places. -/
theorem Spares.onFile (plain : s.catalog.Plain) (entry : s.catalog.find e.file.table = .ok e)
    (h : Spares e.file.id rs s s')
    (old : q.table = e.file.table → q.number < e.file.numPages s.disk ∨
      e.file.numPages s'.disk ≤ q.number) : s'.onFile q = s.onFile q := by
  simp only [Store.onFile, h.catalog]
  cases found : s.catalog.find q.table with
  | error err => rfl
  | ok g =>
      have name := (plain _ g (Catalog.find_ok found)).1
      simp only [bind, Except.bind]
      by_cases here : q.table = e.file.table
      · obtain rfl : e = g := by simpa [here, entry] using found
        rcases old here with inside | outside
        · exact HeapFile.readPage_grown h.disk e.file inside
        · have outside' := Nat.le_trans (HeapFile.numPages_grown h.disk e.file) outside
          have missing {d : Disk TableId} (h : e.file.numPages d ≤ q.number) :
              ¬ (q.table = e.file.table ∧ q.number < e.file.numPages d) := by omega
          rw [HeapFile.readPage_apply, HeapFile.readPage_apply, if_neg (missing outside),
            if_neg (missing outside')]
      · apply HeapFile.readPage_grown_other h.disk
        intro same
        exact here (name.symm.trans (congrArg FileId.name same))

/-- What pages hold that were there before, if none has left the cache without a trace. -/
theorem Spares.slots {file : FileId TableId} (h : Spares file rs s s') (traces : LeavesTraces rs s)
    (same : s'.onFile q = s.onFile q) : s'.slots q = s.slots q := by
  rcases h.cached q with ⟨stayed, _⟩ | ⟨left, came⟩
  · simp only [Store.slots, stayed, same]
  · have now : s'.slots q = (s.onFile q).map HeapPage.slots := by
      cases hp : s'.cached q with
      | none => rw [slots_of_absent hp, same]
      | some p =>
          rw [slots_of_cached hp, ← same, came p hp]
          rfl
    rw [now]
    cases hp : s.cached q with
    | none => rw [slots_of_absent hp]
    | some p =>
        obtain ⟨_, r, hr, _, gone⟩ := left p hp
        rw [slots_of_cached hp, traces q p hp ⟨r, hr, gone⟩]

/-- Where a row has been put, and what has become of the locks and of the file. -/
structure Places (tx : TxId) (f : HeapFile) (t : Tuple) (rid : RecordId) (s s' : Store) : Prop where
  table : rid.page.table = f.table
  grown : rid.page.number < f.numPages s.disk ∧ f.numPages s'.disk = f.numPages s.disk ∨
    rid.page.number = f.numPages s.disk ∧ rid.slot = 0 ∧
      f.numPages s'.disk = f.numPages s.disk + 1
  here : ∃ p, s'.cached rid.page = some p ∧ p.dirtiedBy = some tx ∧
    p.slots[rid.slot]? = some (some (t.located (some rid)))
  locked : s'.mode? tx rid.page = some .exclusive
  passed : ∀ n < rid.page.number, s'.mode? tx ⟨f.table, n⟩ =
    if (s.mode? tx ⟨f.table, n⟩).isSome then some .exclusive else none
  unlocked : ∀ u q, u ≠ tx ∨ q.table ≠ f.table ∨ rid.page.number < q.number →
    s'.mode? u q = s.mode? u q

/-- The row is in the lowest free slot of the first page that had one, and otherwise all pages hold
what they held. -/
structure FillsFirst (f : HeapFile) (t : Tuple) (rid : RecordId) (s s' : Store) : Prop where
  full : ∀ n < rid.page.number, ∃ slots, s.slots ⟨f.table, n⟩ = .ok slots ∧ none ∉ slots
  lowest : ∃ slots, (if rid.page.number < f.numPages s.disk then s.slots rid.page = .ok slots
      else slots = List.replicate f.schema.slotsPerPage none) ∧
    slots.findIdx? Option.isNone = some rid.slot ∧
    s'.slots rid.page = .ok (slots.set rid.slot (some (t.located (some rid))))
  others : ∀ q, q ≠ rid.page → s'.slots q = s.slots q

section
variable (seated : s.Seated home) (entry : s.catalog.find e.file.table = .ok e)
  (found : Found e.file tx t s rs m s₀ s₁ p rid)
  (overlays : Overlays rid.page (filled p tx t rid) s₁ s')
include seated entry found

omit entry in
theorem Found.replied : Replied tx ⟨e.file.table, m⟩ .readWrite s₀ (.ok p) s₁ :=
  found.climbs.replied seated.housed.plain found.got

/-- A page that has been added for the row is the last one, and the row is the first on it. -/
theorem Found.reach :
    m < e.file.numPages s.disk ∧ e.file.numPages s₁.disk = e.file.numPages s.disk ∨
    m = e.file.numPages s.disk ∧ rid.slot = 0 ∧ p = .empty ⟨e.file.table, m⟩ e.file.schema ∧
      e.file.numPages s₁.disk = e.file.numPages s.disk + 1 := by
  have replied := found.replied seated
  have bound := (seated.bound entry).2
  have inside := found.inside
  obtain ⟨_, pages⟩ := found.climbs.numPages (Nat.zero_le _)
  rw [replied.frame.2]
  by_cases old : m < e.file.numPages s.disk
  · refine .inl ⟨old, ?_⟩
    rcases pages with same | more
    · rw [same]
    · omega
  · have new := Nat.le_of_not_lt old
    obtain ⟨e', entry', empty⟩ :=
      seated.had_new bound (found.climbs.spares seated.housed.plain) replied new
    obtain rfl : e = e' := Except.ok.inj (entry.symm.trans entry')
    obtain ⟨zero, room⟩ := HeapPage.lowest_of_empty (empty ▸ found.lowest)
    have reached := found.climbs.reached seated bound (Catalog.roomy_of_find entry room)
    rcases pages with same | more
    · rw [same] at inside
      omega
    · exact .inr ⟨by omega, zero, empty, by omega⟩

include overlays

theorem Found.places : Places tx e.file t rid s s' := by
  have plain := seated.housed.plain
  have page := found.page.trans found.id
  have replied := found.replied seated
  have escalated := found.climbs.escalated plain
  have granted := replied.mode?_of_ok
  have lt := (List.findIdx?_eq_some_iff_getElem.mp found.lowest).1
  have mode (u : TxId) (q : PageId) : s'.mode? u q = s₁.mode? u q := overlays.mode? u q
  constructor
  case table => rw [page]
  case grown =>
    rw [overlays.disk, page]
    rcases found.reach seated entry with old | ⟨new, slot, _, pages⟩
    · exact .inl old
    · exact .inr ⟨new, slot, pages⟩
  case here =>
    refine ⟨_, (overlays.cached rid.page).trans (if_pos rfl), rfl, ?_⟩
    simp [filled, lt]
  case locked => rw [mode, page, granted, if_pos ⟨rfl, rfl⟩]
  case passed =>
    intro n below
    rw [page] at below
    have other : ¬ (tx = tx ∧ (⟨e.file.table, n⟩ : PageId) = ⟨e.file.table, m⟩) := by
      rintro ⟨_, same⟩
      exact absurd (congrArg PageId.number same) (Nat.ne_of_lt below)
    rw [mode, granted, if_neg other, escalated]
    cases s.mode? tx ⟨e.file.table, n⟩ with
    | none => simp
    | some held => simp [below]
  case unlocked =>
    intro u q h
    rw [page] at h
    have other : ¬ (u = tx ∧ q = ⟨e.file.table, m⟩) := by
      rintro ⟨rfl, rfl⟩
      rcases h with h | h | h
      · exact h rfl
      · exact h rfl
      · exact Nat.lt_irrefl _ h
    rw [mode, granted, if_neg other, escalated, if_neg]
    rintro ⟨rfl, here, ⟨_, below⟩, _⟩
    rcases h with h | h | h
    · exact h rfl
    · exact h here
    · exact Nat.lt_asymm h below

/-- Where a search has found room, the file has not changed but for the page that is new. -/
theorem Found.onFile (other : q ≠ rid.page) : s'.onFile q = s.onFile q := by
  have plain := seated.housed.plain
  rw [overlays.onFile]
  apply (found.spares plain).onFile plain entry
  intro table
  have page := found.page.trans found.id
  have number : q.number ≠ m := fun same => other (by rw [page, ← table, ← same])
  rcases found.reach seated entry with ⟨_, pages⟩ | ⟨new, _, _, pages⟩
  · omega
  · omega

theorem Found.fillsFirst (traces : LeavesTraces (insertRequests e.file tx t s) s) :
    FillsFirst e.file t rid s s' := by
  have plain := seated.housed.plain
  have page := found.page.trans found.id
  have reach := found.reach seated entry
  have upTo : m ≤ e.file.numPages s.disk := by omega
  have early : LeavesTraces rs s :=
    traces.mono fun r hr => found.requests ▸ List.mem_append_left _ hr
  have same {s₂ : Store} {rs₂ : List PageRequest} {n : Nat} (spares : Spares e.file.id rs₂ s s₂)
      (inside : n < e.file.numPages s.disk) :
      s₂.onFile ⟨e.file.table, n⟩ = s.onFile ⟨e.file.table, n⟩ :=
    spares.onFile plain entry fun _ => .inl inside
  constructor
  case full =>
    intro n before
    have below : n < m := by
      rw [page] at before
      exact before
    obtain ⟨rs₂, s₂, _, p', sub, climbs, got, full⟩ := found.climbs.passed (Nat.zero_le _) below
    have spares := climbs.spares plain
    have replied := climbs.replied plain got
    refine ⟨p'.slots, ?_, none_notMem_slots full⟩
    rw [← spares.slots (early.mono sub) (same spares (by omega)), replied.slots]
  case lowest =>
    refine ⟨p.slots, ?_, found.lowest, ?_⟩
    · rw [page]
      rcases reach with ⟨old, _⟩ | ⟨new, _, empty, _⟩
      · have spares := found.climbs.spares plain
        rw [if_pos old, ← spares.slots early (same spares old), (found.replied seated).slots]
      · rw [if_neg (Nat.not_lt_of_le (Nat.le_of_eq new.symm)), empty]
        rfl
    · rw [overlays.slots, if_pos rfl]
      rfl
  case others =>
    intro q other
    rw [overlays.slots, if_neg other]
    apply (found.spares plain).slots traces
    rw [← overlays.onFile, found.onFile seated entry overlays other]

theorem Found.leavesTraces (fills : FillsFirst e.file t rid s s') :
    LeavesTraces (insertRequests e.file tx t s) s := by
  have plain := seated.housed.plain
  have page := found.page.trans found.id
  have free {slots : List (Option Tuple)} (h : slots.findIdx? Option.isNone = some rid.slot) :
      slots[rid.slot]? = some none := by
    obtain ⟨lt, none, _⟩ := List.findIdx?_eq_some_iff_getElem.mp h
    rw [List.getElem?_eq_getElem lt, Option.isNone_iff_eq_none.mp none]
  rintro q p₀ hp ⟨r, hr, gone⟩
  have spares := found.spares plain
  have came := ((spares.cached q).resolve_left fun stayed => by
    have := stayed.2 r hr
    rw [gone, hp] at this
    cases this).2
  by_cases target : q = rid.page
  · subst target
    obtain ⟨slots, before, lowest, after⟩ := fills.lowest
    have old : rid.page.number < e.file.numPages s.disk := by
      rw [page] at hp ⊢
      rcases found.reach seated entry with ⟨old, _⟩ | ⟨new, _⟩
      · exact old
      · rw [seated.absent (seated.bound entry).2 (Nat.le_of_eq new.symm)] at hp
        cases hp
    have same : s₁.onFile rid.page = s.onFile rid.page :=
      spares.onFile plain entry fun _ => .inl old
    rw [if_pos old, slots_of_cached hp] at before
    obtain rfl := Except.ok.inj before
    rw [overlays.slots, if_pos rfl] at after
    rw [← same, came p (found.here plain)]
    exact congrArg Except.ok (eq_of_set_eq (free found.lowest) (free lowest) (Except.ok.inj after))
  · have after := fills.others q target
    rw [slots_of_cached hp, overlays.slots, if_neg target] at after
    have same : s₁.onFile q = s.onFile q := by
      rw [← overlays.onFile, found.onFile seated entry overlays target]
    rw [← same]
    cases hp₁ : s₁.cached q with
    | none => rwa [slots_of_absent hp₁] at after
    | some p₁ =>
        rw [slots_of_cached hp₁] at after
        rw [came p₁ hp₁]
        exact after

end

/-- A row that has been stored is on the first page with room, or on a new one if all are full, and
the locks tell which pages were passed. It is in the lowest free slot there was, and nothing else is
held by any page than before, exactly if each page that left the cache in the course of the call was
in its file as it was cached. -/
theorem row_goes_to_first_gap {table : TableId} (reachable : Reachable home s)
    (stored : (insert tx table t s).1.1 = .ok ()) :
    ∃ e rid, s.catalog.find table = .ok e ∧
      (insert tx table t s).1.2 = t.located (some rid) ∧
      Places tx e.file t rid s (insert tx table t s).2 ∧
      (FillsFirst e.file t rid s (insert tx table t s).2 ↔
        LeavesTraces (insertRequests e.file tx t s) s) := by
  have seated := reachable.seated
  have inserts := inserts seated.housed.plain seated.ordered tx table t
  generalize insert tx table t s = outcome at stored inserts ⊢
  obtain ⟨⟨r, t'⟩, s'⟩ := outcome
  cases inserts with
  | unknown => cases stored
  | failed => cases stored
  | @stored e rs m s₀ s₁ _ p rid entry found overlays =>
      obtain rfl := (seated.housed.plain _ e (Catalog.find_ok entry)).1
      exact ⟨e, rid, entry, rfl, found.places seated entry overlays,
        found.leavesTraces seated entry overlays, found.fillsFirst seated entry overlays⟩

/-- A page full of rows without a letter, and a page without rows. -/
def fullAndEmpty : List UInt8 :=
  Bytes.resize [255, 255, 255, 127] pageSize ++ Bytes.zeros pageSize

theorem row_goes_to_second_page :
    let s := sample fullAndEmpty 1 (by decide)
    (insert ⟨1⟩ (.file 0) (sampleRow "a") s).1.1 = .ok () ∧
      FillsFirst sampleEntry.file (sampleRow "a") ⟨⟨.file 0, 1⟩, 0⟩ s
        (insert ⟨1⟩ (.file 0) (sampleRow "a") s).2 := by
  intro s
  obtain ⟨stored, place⟩ : (insert ⟨1⟩ (.file 0) (sampleRow "a") s).1.1 = .ok () ∧
      (insert ⟨1⟩ (.file 0) (sampleRow "a") s).1.2.rid = some ⟨⟨.file 0, 1⟩, 0⟩ := by
    decide +kernel
  have opened : Opened (sampleConfig 1) s := opened_sample (by decide) (by decide)
  have found : s.catalog.find (.file 0) = .ok sampleEntry := find_sample (by decide)
  have reachable : Reachable sampleHome s := reachable_sample (by decide) (by decide)
  clear_value s
  obtain ⟨e, rid, entry, row, _, fills⟩ := row_goes_to_first_gap reachable stored
  obtain rfl : sampleEntry = e := Except.ok.inj (found.symm.trans entry)
  obtain rfl : rid = ⟨⟨.file 0, 1⟩, 0⟩ :=
    Option.some.inj ((congrArg Tuple.rid row).symm.trans place)
  refine ⟨stored, fills.mpr fun q p here => ?_⟩
  rw [opened.cached] at here
  cases here

/-- A page with a change that was flushed and then given up, once more after another change. It is
clean, but its file has the first change still. -/
def restoredPage : Store :=
  (run resumedCalls { sample [] 1 Nat.one_pos with catalog := bothTables }).2

/-- A row for another table makes the page leave the cache, so that it holds another row than before,
though the row has not been stored there. -/
theorem row_uncovers_flushed_change :
    Reachable sampleHome restoredPage ∧
    let outcome := insert ⟨2⟩ (.file 1) (sampleRow "c") restoredPage
    outcome.1.1 = .ok () ∧ outcome.1.2.rid = some ⟨otherPage, 0⟩ ∧
      outcome.2.slots samplePage ≠ restoredPage.slots samplePage := by
  refine ⟨?_, by decide +kernel⟩
  have housed : bothTables.Housed sampleHome :=
    ((Catalog.housed_default _).add rfl rfl).add rfl rfl
  have opened : Opened (sampleConfig 1) (sample [] 1 (by decide)) :=
    opened_sample (by decide) (by decide)
  have start : Reachable sampleHome { sample [] 1 (by decide) with catalog := bothTables } :=
    .opened opened.pool housed
  exact start.run resumedCalls

end HeapStore.Store
