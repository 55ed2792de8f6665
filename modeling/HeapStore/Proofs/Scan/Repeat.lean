import HeapStore.Proofs.Scan.Sight
import Mathlib.Data.List.Sort

/-!
A scan that is repeated gives out the same rows. Whoever has seen a whole file has locked all its
pages, so nobody else changes any of them, and none is added either: a search for room begins on the
first page, which nobody else may write to.
-/

namespace HeapStore

/-- The one place is before the other, on an earlier page or in an earlier slot. -/
def Precedes (x y : Option RecordId × Row) : Prop :=
  ∃ a b, x.1 = some a ∧ y.1 = some b ∧
    (a.page.number < b.page.number ∨ a.page = b.page ∧ a.slot < b.slot)

instance : Std.Irrefl Precedes where
  irrefl x := by
    rintro ⟨a, b, ha, hb, h⟩
    obtain rfl : a = b := Option.some.inj (ha.symm.trans hb)
    omega

instance : Std.Antisymm Precedes where
  antisymm x y := by
    rintro ⟨a, b, ha, hb, h⟩ ⟨b', a', hb', ha', h'⟩
    obtain rfl : a = a' := Option.some.inj (ha.symm.trans ha')
    obtain rfl : b = b' := Option.some.inj (hb.symm.trans hb')
    rcases h with h | ⟨page, h⟩
    · rcases h' with h' | ⟨page', _⟩
      · omega
      · rw [page'] at h
        omega
    · rw [page] at h'
      omega

/-- What pages have determines what is listed of them, and in which order. -/
theorem Lists.unique {table : TableId} {contents contents' : PageId → Except Error Content}
    {first last : Nat} {rows rows' : List Tuple} (h : Lists table contents first last rows)
    (h' : Lists table contents' first last rows')
    (same : ∀ n, first ≤ n → n < last → contents' ⟨table, n⟩ = contents ⟨table, n⟩) :
    (rows'.map fun t => (t.rid, t.row)) = rows.map fun t => (t.rid, t.row) := by
  have ordered {rows : List Tuple} (h : rows.Pairwise Tuple.Before) :
      (rows.map fun t => (t.rid, t.row)).Pairwise Precedes := List.pairwise_map.mpr h
  have mem (rid : RecordId) (row : Row) :
      (∃ t ∈ rows', t.rid = some rid ∧ t.row = row) ↔
        ∃ t ∈ rows, t.rid = some rid ∧ t.row = row := by
    rw [h.mem, h'.mem]
    refine and_congr_right fun ⟨htable, hge, hlt⟩ => ?_
    obtain ⟨⟨table', n⟩, slot⟩ := rid
    obtain rfl : table' = table := htable
    rw [same n hge hlt]
  apply (ordered h'.ordered).eq_of_mem_iff (ordered h.ordered)
  rintro ⟨rid?, row⟩
  simp only [List.mem_map, Prod.mk.injEq]
  cases rid? with
  | some rid => exact mem rid row
  | none =>
      constructor
      · rintro ⟨t, ht, none, _⟩
        obtain ⟨rid, located⟩ := h'.located t ht
        rw [none] at located
        cases located
      · rintro ⟨t, ht, none, _⟩
        obtain ⟨rid, located⟩ := h.located t ht
        rw [none] at located
        cases located

namespace Store
variable {s s' : Store} {tx u : TxId} {q : PageId} {m : LockMode} {e : Entry} {last : Nat}
  {contents : PageId → Except Error Content}

/-- Nobody may write to a page that another has locked. -/
theorem fetch_of_locked (hs : s.Sound) (has : s.pool.locks.Has tx q m) (other : u ≠ tx) :
    ∃ err, fetch u q .readWrite s = (.error err, s) := by
  have hf := fetched hs.intact u q .readWrite
  generalize fetch u q .readWrite s = outcome at hf ⊢
  obtain ⟨r, s'⟩ := outcome
  rcases hf.granted_or_same with ⟨⟨err, rfl⟩, rfl⟩ | granted
  · exact ⟨err, rfl⟩
  · have writes : s'.pool.locks.mode? u q = some .exclusive :=
      (LockTable.mode?_acquire? granted.locks u q).trans (if_pos ⟨rfl, rfl⟩)
    have consistent := hs.locks.acquire? granted.locks
    exact absurd (consistent.alone writes (has.acquire? granted.locks).holds).symm other

/-- A search begins on the first page, if there is one. -/
theorem insertInto_of_unfetched {f : HeapFile} {err : Error} (hn : 0 < f.numPages s.disk)
    (failed : fetch tx ⟨f.table, 0⟩ .readWrite s = (.error err, s)) (t : Tuple) :
    ∃ err, insertInto f tx t s = (.error err, s) := by
  obtain ⟨m, hm⟩ := Nat.exists_eq_add_one.mpr hn
  rw [insertInto, ensure]
  split
  · refine ⟨err, ?_⟩
    rw [pure_bind, search_succ, hm, Nat.sub_zero, List.range'_succ, tryPages_cons, failed]
  · exact ⟨_, rfl⟩

/-- Only files that grow have another number of pages afterwards. -/
theorem lenient_numPages (f : HeapFile) :
    Lenient fun s s' => f.numPages s'.disk = f.numPages s.disk where
  refl _ := rfl
  trans h₁ h₂ := h₂.trans h₁
  catalog _ _ := rfl
  cache _ _ := rfl
  granted _ := rfl

/-- Files grow each for itself. -/
theorem numPages_insertInto {f g : HeapFile} (other : g.table ≠ f.table) (tx : TxId) (t : Tuple) :
    Keeping (fun s s' => f.numPages s'.disk = f.numPages s.disk) (insertInto g tx t) := by
  apply (lenient_numPages f).insertInto
  · intro s
    rw [append_apply]
    cases ha : g.appendPage s.disk with
    | error err => rfl
    | ok disk =>
        have ids : f.id ≠ g.id := fun same => other (congrArg FileId.name same).symm
        exact ((HeapFile.appendPage_ok ha).other f ids).1
  · intro s s₁ tx q same
    rw [letGo_apply]
    split <;> exact same

/-- No file grows or shrinks when a transaction ends. -/
theorem Completes.numPages {ending : Ending} (hs : s.Sound) (ht : s.Settled)
    (h : Completes tx ending s s') {table : TableId} (he : s.catalog.find table = .ok e) :
    e.file.numPages s'.disk = e.file.numPages s.disk := by
  have he' : s'.catalog.find table = .ok e := by rw [h.catalog, he]
  symm
  apply numPages_congr hs h.sound he he'
  intro n
  rw [h.stored hs ht]
  cases hd : s.draft ⟨table, n⟩ with
  | none => rfl
  | some d =>
      obtain ⟨u, c⟩ := d
      obtain ⟨p, hp, _⟩ := draft_eq_some.mp hd
      obtain ⟨c', stored, _⟩ := ht _ p hp
      rw [stored]
      simp only
      split <;> simp

/-- What one has locked is shown as before, whatever others do. -/
theorem Step.shown_of_locked {ev : Event} (hs : s.Sound) (ht : s.Settled)
    (hc : ev.call.IsTransactional) (other : ev.call.tx? ≠ some tx) (h : Step s ev s')
    (has : (s.mode? tx q).isSome) (has' : (s'.mode? tx q).isSome)
    (inside : s.stored q ≠ .error (.pageOutOfRange q)) : s'.shown q = s.shown q := by
  have kept {u : TxId} {s₁ : Store} (calm : Calm u s s₁) :
      s₁.draft q = s.draft q ∧ s₁.stored q = s.stored q := by
    refine ⟨calm.draft hs q, ?_⟩
    rcases calm.stored q with same | ⟨out, _⟩
    · exact same
    · exact absurd out inside
  cases h with
  | looks _ _ _ calm _ =>
      obtain ⟨draft, stored⟩ := kept calm
      simp only [shown, draft, stored]
  | @edits u rid row s₁ p p' tx? _ _ edits _ _ =>
      obtain ⟨draft, stored⟩ := kept edits.calm
      have elsewhere : q ≠ rid.page := by
        rintro rfl
        have writer := (edits.sound_after hs).alone edits.locked_after has'
        exact other (writer ▸ tx?)
      have draft' := edits.draft q
      rw [if_neg elsewhere, draft] at draft'
      simp only [shown, draft', edits.stored, stored]
  | flushes _ call _ => exact absurd hc call
  | @ends u ending call _ completes =>
      have draft := completes.draft hs ht q
      have stored := completes.stored hs ht q
      cases hd : s.draft q with
      | none =>
          rw [hd] at draft stored
          simp only [shown, draft, hd, stored, Option.filter_none]
      | some d =>
          obtain ⟨v, c⟩ := d
          obtain rfl : tx = v := hs.alone (hs.locked hd) has
          have going : tx ≠ u := by
            rintro rfl
            rw [call] at other
            exact other rfl
          rw [hd, Option.filter_some, if_pos (by simpa using going)] at draft
          rw [shown_of_draft draft, shown_of_draft hd]

/-- The file of `e` has `last` pages, which have `contents` and are locked by `tx`. -/
structure Frozen (tx : TxId) (e : Entry) (last : Nat) (contents : PageId → Except Error Content)
    (s : Store) : Prop where
  sound : s.Sound
  settled : s.Settled
  registered : s.catalog.find e.file.table = .ok e
  pages : e.file.numPages s.disk = last
  locked : ∀ n, n < last → s.pool.locks.Has tx ⟨e.file.table, n⟩ .shared
  shown : ∀ n, n < last → s.shown ⟨e.file.table, n⟩ = contents ⟨e.file.table, n⟩

theorem Frozen.peeks (h : Frozen tx e last contents s) (peeks : Peeks u s s') :
    Frozen tx e last contents s' where
  sound := peeks.calm.sound h.sound
  settled := peeks.calm.settled h.sound h.settled
  registered := by rw [peeks.calm.catalog, h.registered]
  pages := by rw [peeks.disk, h.pages]
  locked n hn := peeks.retains _ _ _ (h.locked n hn)
  shown n hn := by rw [peeks.shown h.sound, h.shown n hn]

/-- What others do to other files, and to pages that are not locked, is no concern. -/
theorem Frozen.step {ev : Event} (h : Frozen tx e last contents s) (step : Step s ev s')
    (hc : ev.call.IsTransactional) (other : ev.call.tx? ≠ some tx)
    (pages : e.file.numPages s'.disk = e.file.numPages s.disk)
    (locked : ∀ n, n < last → s'.pool.locks.Has tx ⟨e.file.table, n⟩ .shared) :
    Frozen tx e last contents s' where
  sound := step.sound h.sound
  settled := step.settled h.sound h.settled hc
  registered := by rw [step.catalog, h.registered]
  pages := pages.trans h.pages
  locked := locked
  shown n hn := by
    rw [← h.shown n hn]
    apply step.shown_of_locked h.sound h.settled hc other (h.locked n hn).holds (locked n hn).holds
    intro out
    rw [← PageId.missing_of_addressable (HeapFile.addressable_of_inside (h.pages ▸ hn))] at out
    have outside := (onFile_eq_missing h.sound.plain h.sound.reliable.read h.registered n).mp
      (stored_error.mp out)
    rw [h.pages] at outside
    omega

/-- Nobody else can store a row, for want of the first page. -/
theorem Frozen.insert_refused (h : Frozen tx e last contents s) (hn : 0 < last) (other : u ≠ tx)
    (t : Tuple) : (insert u e.file.table t s).2 = s := by
  obtain ⟨_, refused⟩ := fetch_of_locked h.sound (h.locked 0 hn) other
  obtain ⟨err, failed⟩ := insertInto_of_unfetched (by rw [h.pages]; exact hn) refused t
  rw [insert_apply, bind_apply, lookup_apply, h.registered]
  simp only [failed]

/-- Nobody else makes the file grow. -/
theorem Frozen.numPages_call {c : Call} (h : Frozen tx e last contents s) (hn : 0 < last)
    (hc : c.IsTransactional) (other : c.tx? ≠ some tx)
    (step : Step s ⟨c, (c.perform s).1⟩ (c.perform s).2) :
    e.file.numPages (c.perform s).2.disk = e.file.numPages s.disk := by
  have same_pages := lenient_numPages e.file
  cases c with
  | get u q a =>
      rw [Call.perform, map_apply]
      exact same_pages.fetch u q a s
  | insert u table t =>
      by_cases here : table = e.file.table
      · subst here
        show e.file.numPages (insert u e.file.table t s).2.disk = _
        rw [h.insert_refused hn (fun same => other (congrArg some same)) t]
      · apply same_pages.insert
        intro e' he'
        have table' := (h.sound.plain _ _ (Catalog.find_ok he')).1
        exact numPages_insertInto (fun same => here (table'.symm.trans same)) u t
  | delete u rid =>
      rw [Call.perform, map_apply]
      exact same_pages.delete u rid s
  | complete u ending =>
      cases step with
      | ends call _ completes => exact completes.numPages h.sound h.settled h.registered
      | looks _ _ going _ _ => exact absurd rfl (going u ending)
      | edits _ _ going _ _ _ => exact absurd rfl (going u ending)
      | flushes _ call _ => exact absurd hc call
  | flushPage _ | flushAll | flushTx _ | discard _ | release _ _ => exact hc.elim

theorem Frozen.call {c : Call} (h : Frozen tx e last contents s) (hn : 0 < last)
    (hc : c.IsTransactional) (other : c.tx? ≠ some tx)
    (io : ¬ Event.IoFailed ⟨c, (c.perform s).1⟩) : Frozen tx e last contents (c.perform s).2 := by
  have step := (step_of_perform h.sound (orderly_of_transactional c hc)).resolve_left io
  apply h.step step hc other (h.numPages_call hn hc other step)
  intro n hlt
  apply c.keeps_lock (h.locked n hlt)
  intro drops
  cases c with
  | complete u ending => exact other (congrArg some drops)
  | release u page => exact hc
  | _ => exact drops

/-- Whoever has all pages of a file locked and only reads keeps the file from changing. -/
theorem Frozen.act {a : Act} (h : Frozen tx e last contents s) (hn : 0 < last)
    (ha : a.IsTransactional) (own : a.tx? = some tx → a.IsReading)
    (io : ∀ cause, (a.perform s).1 ≠ .error (.io cause)) :
    Frozen tx e last contents (a.perform s).2 := by
  by_cases reading : a.IsReading
  · obtain ⟨u, peeks⟩ := Act.peeks h.sound reading
    exact h.peeks peeks
  · cases a with
    | call c => exact h.call hn ha (fun same => reading (own same)) (c.not_ioFailed io)
    | scan sc request => exact absurd trivial reading
    | insertInto f u t => exact ha.elim
    | deleteFrom f u rid => exact ha.elim

section
open Scan
variable {s₁ s₂ : Store}

/-- A transaction that scans a file a second time, and has only read in between, gets the same rows
in the same places and in the same order, whatever others have done or tried to do. -/
theorem scan_repeats {config : Config} (opened : Opened config s) {id : TableId} {e : Entry}
    (he : s.catalog.find id = .ok e) {before between : List Act} {rows rows' : List Tuple}
    (hb : ∀ a ∈ before, a.IsTransactional)
    (hm : ∀ a ∈ between, a.IsTransactional ∧ (a.tx? = some tx → a.IsReading))
    (io : ∀ r ∈ (undergo before s).1 ++ (undergo between s₁).1, ∀ cause, r ≠ .error (.io cause))
    (pages : 0 < e.file.numPages (undergo before s).2.disk)
    (first : Full fetch e.file tx (undergo before s).2 rows s₁)
    (second : Full fetch e.file tx (undergo between s₁).2 rows' s₂) :
    (rows'.map fun t => (t.rid, t.row)) = rows.map fun t => (t.rid, t.row) := by
  obtain ⟨sound, settled, catalog⟩ := undergo_induction
    (P := fun s' => s'.Sound ∧ s'.Settled ∧ s'.catalog = s.catalog)
    (fun a ha s' ⟨sound, settled, catalog⟩ io => by
      obtain ⟨sound', settled', same⟩ := Act.keeps_settled sound settled (hb a ha) io
      exact ⟨sound', settled', same.trans catalog⟩)
    ⟨opened.sound, opened.settled, rfl⟩ (fun r hr => io r (List.mem_append_left _ hr))
  have registered : (undergo before s).2.catalog.find e.file.table = .ok e := by
    rw [catalog, (opened.plain _ _ (Catalog.find_ok he)).1, he]
  have seen := first.sees sound settled
  have frozen : Frozen tx e _ (undergo before s).2.shown s₁ :=
    { sound := seen.peeks.calm.sound sound
      settled := seen.peeks.calm.settled sound settled
      registered := by rw [seen.peeks.calm.catalog, registered]
      pages := by rw [seen.peeks.disk]
      locked n hn := seen.locked n (Nat.zero_le n) hn
      shown n _ := by rw [seen.peeks.shown sound] }
  have still := undergo_induction
    (fun a ha _ h io => h.act pages (hm a ha).1 (hm a ha).2 io) frozen
    (fun r hr => io r (List.mem_append_right _ hr))
  have again := second.sees still.sound still.settled
  rw [still.pages] at again
  exact seen.lists.unique again.lists fun n _ hn => still.shown n hn

end

end Store

namespace Scan
open Store
variable {fetch : Fetch} {file : HeapFile} {tx : TxId} {sc : Scan} {s : Store} {rows : List Tuple}

/-- The rows that are still to come, unless the scan fails or there are `fuel` of them or more. -/
def drain (fetch : Fetch) : Nat → Scan → Store → Option (List Tuple) × Store
  | 0, _, s => (none, s)
  | fuel + 1, sc, s =>
    match sc.next fetch s with
    | ((.error _, _), s) => (none, s)
    | ((.ok none, _), s) => (some [], s)
    | ((.ok (some t), sc), s) =>
      let (rows, s) := drain fetch fuel sc s
      (rows.map (t :: ·), s)

/-- A new scan, with its rows if it comes to its end. -/
def scanned (fetch : Fetch) (fuel : Nat) (file : HeapFile) (tx : TxId) (s : Store) :
    Option (List Tuple) × Store :=
  match start fetch ⟨file, tx, none⟩ s with
  | ((.error _, _), s) => (none, s)
  | ((.ok (), sc), s) => drain fetch fuel sc s

theorem yields_of_drain {fuel : Nat} (h : (drain fetch fuel sc s).1 = some rows) :
    Yields fetch sc s rows (drain fetch fuel sc s).2 := by
  induction fuel generalizing sc s rows with
  | zero => cases h
  | succ fuel ih =>
      rw [drain] at h ⊢
      generalize hn : sc.next fetch s = outcome at h ⊢
      obtain ⟨⟨_ | _ | t, sc'⟩, s₁⟩ := outcome
      · cases h
      · cases h
        exact .done hn
      · obtain ⟨rest, drained, rfl⟩ := Option.map_eq_some_iff.mp h
        exact .row hn (ih drained)

/-- The rows that a new scan comes up with are those of a full scan. -/
theorem full_of_scanned (fuel : Nat) (h : (scanned fetch fuel file tx s).1 = some rows) :
    Full fetch file tx s rows (scanned fetch fuel file tx s).2 := by
  rw [scanned] at h ⊢
  generalize hs : start fetch ⟨file, tx, none⟩ s = outcome at h ⊢
  obtain ⟨⟨_ | _, sc⟩, s₁⟩ := outcome
  · cases h
  · exact ⟨sc, s₁, hs, yields_of_drain h⟩

end Scan

namespace Store
open Scan

/-- A row that is refused, a page that is read, and a transaction that ends. -/
def strangerActs : List Act :=
  [.call (.insert ⟨3⟩ (.file 0) (sampleRow "late")), .call (.get ⟨3⟩ samplePage .readOnly),
    .call (.complete ⟨3⟩ .commit)]

/-- The same row in the same place, with a stranger at work in between. -/
theorem stranger_is_unnoticed :
    ∃ rows s₁ rows' s₂,
      Full fetch sampleEntry.file ⟨2⟩
        (undergo (endedCalls.map .call) (sample [] 1 (by decide))).2 rows s₁ ∧
      Full fetch sampleEntry.file ⟨2⟩ (undergo strangerActs s₁).2 rows' s₂ ∧
      (rows'.map fun t => (t.rid, t.row)) =
        [(some ⟨samplePage, 0⟩, [some (.string "kept")])] := by
  have opened : Opened (sampleConfig 1) (sample [] 1 (by decide)) :=
    opened_sample (by decide) (by decide)
  have runs :
      let before := undergo (endedCalls.map .call) (sample [] 1 (by decide))
      let first := scanned fetch 2 sampleEntry.file ⟨2⟩ before.2
      let between := undergo strangerActs first.2
      let second := scanned fetch 2 sampleEntry.file ⟨2⟩ between.2
      before.1 ++ between.1 =
          [.ok (), .ok (), .error (.lockTimeout ⟨3⟩ samplePage), .ok (), .ok ()] ∧
        0 < sampleEntry.file.numPages before.2.disk ∧
        first.1 = some [(sampleRow "kept").located (some ⟨samplePage, 0⟩)] ∧
        second.1 = some [(sampleRow "kept").located (some ⟨samplePage, 0⟩)] := by
    decide +kernel
  obtain ⟨answers, pages, first, second⟩ := runs
  refine ⟨_, _, _, _, full_of_scanned 2 first, full_of_scanned 2 second, ?_⟩
  have repeats := scan_repeats opened (find_sample _)
    (by simp [endedCalls, Act.IsTransactional, Call.IsTransactional])
    (by simp [strangerActs, Act.IsTransactional, Call.IsTransactional, Act.tx?, Call.tx?,
      Act.IsReading])
    (by rw [answers]; simp) pages (full_of_scanned 2 first) (full_of_scanned 2 second)
  exact repeats.trans (by decide +kernel)

end Store
end HeapStore
