import HeapStore.Proofs.Store.Committed
import HeapStore.Proofs.Store.Running
import HeapStore.Scan

/-!
A scan after every transaction has ended. Nothing is dirty then and nobody else holds a lock, so
every page is had, and the rows come page by page and slot by slot: the committed rows, each once.
-/

namespace HeapStore

/-- The one row lies before the other, on an earlier page or in an earlier slot. -/
def Tuple.Before (t u : Tuple) : Prop :=
  ∃ a b, t.rid = some a ∧ u.rid = some b ∧
    (a.page.number < b.page.number ∨ a.page = b.page ∧ a.slot < b.slot)

namespace HeapPage
variable {p : HeapPage}

theorem mem_tuples {t : Tuple} : t ∈ p.tuples ↔ ∃ i, p.get? i = some t := by
  simp only [tuples, List.mem_filterMap, get?, Option.join_eq_some_iff]
  constructor
  · rintro ⟨slot, hmem, rfl⟩
    exact List.mem_iff_getElem?.mp hmem
  · rintro ⟨i, hi⟩
    exact ⟨some t, List.mem_of_getElem? hi, rfl⟩

/-- The rows of a page come in the order of their slots. -/
theorem Sound.tuples_ordered (h : p.Sound) : p.tuples.Pairwise Tuple.Before := by
  rw [tuples, List.pairwise_filterMap, List.pairwise_iff_getElem]
  intro i j hi hj hij t ht u hu
  have slot {k : Nat} {v : Tuple} (hk : k < p.slots.length) (hv : p.slots[k] = some v) :
      p.get? k = some v := by
    rw [get?, List.getElem?_eq_getElem hk, hv]
    rfl
  exact ⟨_, _, h.rid (slot hi ht), h.rid (slot hj hu), .inr ⟨rfl, hij⟩⟩

end HeapPage

/-- The rows of pages `first` to `last - 1` of a table, in order and each once. -/
structure Lists (table : TableId) (contents : PageId → Except Error Content) (first last : Nat)
    (rows : List Tuple) : Prop where
  ordered : rows.Pairwise Tuple.Before
  mem : ∀ rid row, (∃ t ∈ rows, t.rid = some rid ∧ t.row = row) ↔
    (rid.page.table = table ∧ first ≤ rid.page.number ∧ rid.page.number < last) ∧
      Store.storedRow (contents rid.page) rid.slot = some row
  located : ∀ t ∈ rows, ∃ rid, t.rid = some rid

namespace Lists
variable {table : TableId} {contents : PageId → Except Error Content} {first mid last : Nat}
  {rows more : List Tuple}

theorem nil (h : last ≤ first) : Lists table contents first last [] where
  ordered := .nil
  mem rid row := by
    constructor
    · rintro ⟨t, ht, _⟩
      cases ht
    · rintro ⟨⟨_, _, _⟩, _⟩
      omega
  located t ht := by cases ht

theorem page {p : HeapPage} {n : Nat} (hp : p.Sound) (hid : p.id = ⟨table, n⟩)
    (hc : contents ⟨table, n⟩ = .ok p.content) : Lists table contents n (n + 1) p.tuples where
  ordered := hp.tuples_ordered
  mem rid row := by
    obtain ⟨⟨table', n'⟩, i⟩ := rid
    constructor
    · rintro ⟨t, ht, hrid, rfl⟩
      obtain ⟨j, hj⟩ := HeapPage.mem_tuples.mp ht
      rw [hp.rid hj, hid] at hrid
      cases hrid
      refine ⟨⟨rfl, Nat.le_refl _, Nat.lt_succ_self _⟩, ?_⟩
      simp only [hc, Store.storedRow, HeapPage.content_get?, hj, Option.map_some]
    · rintro ⟨⟨htable, hge, hlt⟩, hrow⟩
      obtain rfl : table' = table := htable
      obtain rfl : n' = n := Nat.le_antisymm (Nat.le_of_lt_succ hlt) hge
      simp only [hc, Store.storedRow, HeapPage.content_get?, Option.map_eq_some_iff] at hrow
      obtain ⟨t, ht, hrow⟩ := hrow
      refine ⟨t, HeapPage.mem_tuples.mpr ⟨i, ht⟩, ?_, hrow⟩
      rw [hp.rid ht, hid]
  located t ht := by
    obtain ⟨i, hi⟩ := HeapPage.mem_tuples.mp ht
    exact ⟨_, hp.rid hi⟩

theorem append (h₁ : Lists table contents first mid rows) (h₂ : Lists table contents mid last more)
    (hfm : first ≤ mid) (hml : mid ≤ last) : Lists table contents first last (rows ++ more) where
  ordered := by
    refine List.pairwise_append.mpr ⟨h₁.ordered, h₂.ordered, ?_⟩
    intro t ht u hu
    obtain ⟨a, ha⟩ := h₁.located t ht
    obtain ⟨b, hb⟩ := h₂.located u hu
    obtain ⟨⟨_, _, hlt⟩, _⟩ := (h₁.mem a t.row).mp ⟨t, ht, ha, rfl⟩
    obtain ⟨⟨_, hge, _⟩, _⟩ := (h₂.mem b u.row).mp ⟨u, hu, hb, rfl⟩
    exact ⟨a, b, ha, hb, .inl (Nat.lt_of_lt_of_le hlt hge)⟩
  mem rid row := by
    have split : (∃ t ∈ rows ++ more, t.rid = some rid ∧ t.row = row) ↔
        (∃ t ∈ rows, t.rid = some rid ∧ t.row = row) ∨
          ∃ t ∈ more, t.rid = some rid ∧ t.row = row := by
      simp only [List.mem_append, or_and_right, exists_or]
    rw [split, h₁.mem, h₂.mem]
    constructor
    · rintro (⟨⟨htable, hge, hlt⟩, hrow⟩ | ⟨⟨htable, hge, hlt⟩, hrow⟩)
      · exact ⟨⟨htable, hge, by omega⟩, hrow⟩
      · exact ⟨⟨htable, by omega, hlt⟩, hrow⟩
    · rintro ⟨⟨htable, hge, hlt⟩, hrow⟩
      rcases Nat.lt_or_ge rid.page.number mid with h | h
      · exact .inl ⟨⟨htable, hge, h⟩, hrow⟩
      · exact .inr ⟨⟨htable, h, hlt⟩, hrow⟩
  located t ht := by
    rcases List.mem_append.mp ht with h | h
    · exact h₁.located t h
    · exact h₂.located t h

end Lists

namespace Scan
open Store
variable {s s' : Store} {tx : TxId} {q : PageId} {c : Content}

/-- What a scan gives out from where it is, if it gets to the end. -/
inductive Yields (fetch : Fetch) : Scan → Store → List Tuple → Store → Prop
  | done {sc sc' : Scan} {s s' : Store} (h : sc.next fetch s = ((.ok none, sc'), s')) :
      Yields fetch sc s [] s'
  | row {sc sc' : Scan} {s s₁ s' : Store} {t : Tuple} {rows : List Tuple}
      (h : sc.next fetch s = ((.ok (some t), sc'), s₁)) (rest : Yields fetch sc' s₁ rows s') :
      Yields fetch sc s (t :: rows) s'

theorem Yields.of_next {fetch : Fetch} {sc sc₁ : Scan} {s s₁ : Store} {rows : List Tuple}
    (same : sc.next fetch s = sc₁.next fetch s₁) (h : Yields fetch sc₁ s₁ rows s') :
    Yields fetch sc s rows s' := by
  cases h with
  | done h => exact .done (same.trans h)
  | row h rest => exact .row (same.trans h) rest

/-- Nothing is dirty, and no transaction but `tx` holds a lock. -/
structure Quiet (tx : TxId) (s : Store) : Prop where
  sound : s.Sound
  settled : s.Settled
  clean : ∀ q, s.draft q = none
  free : ∀ u, u ≠ tx → ∀ q, s.mode? u q = none

/-- Every page is had that can be read, with the rows of the file. -/
theorem Quiet.fetch (h : Quiet tx s) (hc : s.stored q = .ok c) (a : Access) :
    ∃ p s', fetch tx q a s = (.ok p, s') ∧ p.Sound ∧ p.id = q ∧ p.content = c ∧ Quiet tx s' ∧
      s'.disk = s.disk ∧ s'.stored = s.stored := by
  have hf := fetched h.sound.intact tx q a
  generalize Store.fetch tx q a s = outcome at hf ⊢
  obtain ⟨r, s'⟩ := outcome
  have calm := hf.calm h.sound.intact
  have quiet : Quiet tx s' := by
    refine ⟨calm.sound h.sound, calm.settled h.sound h.settled, ?_, ?_⟩
    · intro q
      rw [calm.draft h.sound, h.clean]
    · intro u hu q
      rw [calm.others u hu, h.free u hu]
  rcases hf.answer h.settled with ⟨_, q', d, hd⟩ | ⟨refused, _, _⟩ | ⟨_, answer⟩
  · rw [h.clean] at hd
    cases hd
  · exact absurd refused (acquire?_ne_none fun u hu => h.free u hu q)
  · rw [shown_of_no_draft (h.clean q), hc] at answer
    cases r with
    | error e => cases answer
    | ok p =>
        have served := hf.serves h.sound.intact
        refine ⟨p, s', rfl, (quiet.sound.pages q p served.here).sound,
          id_of_cached quiet.sound.cache served.here,
          Except.ok.inj answer, quiet, hf.frame.2, ?_⟩
        funext q
        simp only [stored, hf.onFile]

theorem next_of_cursor {fetch : Fetch} {sc : Scan} {cursor : Cursor}
    (h : sc.cursor = some cursor) (s : Store) :
    sc.next fetch s =
      match advance fetch sc (sc.pagesAfter cursor.page s) cursor s with
      | ((.error e, cursor), s) => ((.error e, { sc with cursor := some cursor }), s)
      | ((.ok false, cursor), s) => ((.ok none, { sc with cursor := some cursor }), s)
      | ((.ok true, cursor), s) =>
        (({ sc with cursor := some cursor } : Scan).pop.map .ok id, s) := by
  have hget : (get : StateM Store Store) s = (s, s) := rfl
  simp only [next, hasNext, h, bind_run, hget]
  generalize advance fetch sc (sc.pagesAfter cursor.page s) cursor s = outcome
  rcases outcome with ⟨⟨_ | b, cursor'⟩, s'⟩
  · rfl
  · cases b <;> rfl

/-- A row that is at hand is given out, and the store is left alone. -/
theorem next_of_row (fetch : Fetch) (file : HeapFile) (tx : TxId) (n : Nat) (t : Tuple)
    (rest : List Tuple) (s : Store) :
    next fetch ⟨file, tx, some ⟨n, t :: rest⟩⟩ s =
      ((.ok (some t), ⟨file, tx, some ⟨n, rest⟩⟩), s) := by
  rw [next_of_cursor rfl]
  cases pagesAfter ⟨file, tx, some ⟨n, t :: rest⟩⟩ n s <;> rfl

theorem next_of_end (fetch : Fetch) {file : HeapFile} (tx : TxId) {n : Nat} {s : Store}
    (h : file.numPages s.disk ≤ n + 1) :
    next fetch ⟨file, tx, some ⟨n, []⟩⟩ s = ((.ok none, ⟨file, tx, some ⟨n, []⟩⟩), s) := by
  have none : pagesAfter ⟨file, tx, some ⟨n, []⟩⟩ n s = [] := by
    simp only [pagesAfter, Nat.sub_eq_zero_of_le h, List.range'_zero]
  rw [next_of_cursor rfl, none]
  rfl

/-- How a scan gets on depends on its file and its transaction. -/
theorem advance_cursor (fetch : Fetch) (file : HeapFile) (tx : TxId) (from₁ from₂ : Option Cursor)
    (numbers : List Nat) (cursor : Cursor) :
    advance fetch ⟨file, tx, from₁⟩ numbers cursor =
      advance fetch ⟨file, tx, from₂⟩ numbers cursor := by
  induction numbers generalizing cursor with
  | nil => rfl
  | cons n numbers ih => simp only [advance, load, ih]

theorem pagesAfter_eq_cons {sc : Scan} {n : Nat} (h : n + 1 < sc.file.numPages s.disk) :
    sc.pagesAfter n s = (n + 1) :: sc.pagesAfter (n + 1) s := by
  have count : sc.file.numPages s.disk - (n + 1) = sc.file.numPages s.disk - (n + 1 + 1) + 1 := by
    omega
  simp only [pagesAfter, count, List.range'_succ]

/-- A page that is used up is passed over. -/
theorem next_of_empty {fetch : Fetch} {file : HeapFile} {tx : TxId} {n : Nat} {s s₁ : Store}
    {p : HeapPage} (h : n + 1 < file.numPages s.disk) (hd : s₁.disk = s.disk)
    (hp : fetch tx ⟨file.table, n + 1⟩ .readOnly s = (.ok p, s₁)) :
    next fetch ⟨file, tx, some ⟨n, []⟩⟩ s =
      next fetch ⟨file, tx, some ⟨n + 1, p.tuples⟩⟩ s₁ := by
  have rest : pagesAfter ⟨file, tx, some ⟨n + 1, p.tuples⟩⟩ (n + 1) s₁ =
      pagesAfter ⟨file, tx, some ⟨n, []⟩⟩ (n + 1) s := by
    simp only [pagesAfter, hd]
  have loaded : load fetch ⟨file, tx, some ⟨n, []⟩⟩ (n + 1) s = (.ok p.tuples, s₁) := by
    rw [load, bind_apply, hp]
    rfl
  rw [next_of_cursor rfl, next_of_cursor rfl, pagesAfter_eq_cons h, rest,
    advance_cursor fetch file tx (some ⟨n + 1, p.tuples⟩) (some ⟨n, []⟩)]
  simp only [advance, List.isEmpty_nil, if_true, bind_run, ExceptT.run, loaded]

/-- A scan that cannot have a page gives out nothing. -/
theorem next_of_failed {fetch : Fetch} {file : HeapFile} {n : Nat} {s₁ : Store} {e : Error}
    (h : n + 1 < file.numPages s.disk)
    (hp : fetch tx ⟨file.table, n + 1⟩ .readOnly s = (.error e, s₁)) :
    next fetch ⟨file, tx, some ⟨n, []⟩⟩ s = ((.error e, ⟨file, tx, some ⟨n, []⟩⟩), s₁) := by
  have failed : load fetch ⟨file, tx, some ⟨n, []⟩⟩ (n + 1) s = (.error e, s₁) := by
    rw [load, bind_apply, hp]
  rw [next_of_cursor rfl, pagesAfter_eq_cons h]
  simp only [advance, List.isEmpty_nil, if_true, bind_run, ExceptT.run, failed]
  rfl

theorem Yields.rows {fetch : Fetch} {file : HeapFile} {tx : TxId} {n : Nat} {more : List Tuple}
    (h : Yields fetch ⟨file, tx, some ⟨n, []⟩⟩ s more s') (rows : List Tuple) :
    Yields fetch ⟨file, tx, some ⟨n, rows⟩⟩ s (rows ++ more) s' := by
  induction rows with
  | nil => exact h
  | cons t rows ih => exact .row (next_of_row fetch file tx n t rows s) ih

/-- A scan that stands on page `n` gives out the rows at hand and those of the pages to come. -/
theorem Quiet.yields {file : HeapFile} {last : Nat} (h : Quiet tx s)
    (hn : file.numPages s.disk = last)
    (readable : ∀ k, k < last → ∃ c, s.stored ⟨file.table, k⟩ = .ok c) (n : Nat)
    (rows : List Tuple) :
    ∃ more s', Yields Store.fetch ⟨file, tx, some ⟨n, rows⟩⟩ s (rows ++ more) s' ∧
      Lists file.table s.stored (n + 1) last more := by
  induction hm : last - (n + 1) generalizing n rows s with
  | zero =>
      have ended : file.numPages s.disk ≤ n + 1 := by omega
      have yields := Yields.done (next_of_end Store.fetch tx ended)
      exact ⟨[], s, yields.rows rows, .nil (by omega)⟩
  | succ m ih =>
      obtain ⟨c, hc⟩ := readable (n + 1) (by omega)
      obtain ⟨p, s₁, hp, sound, hid, hpc, quiet, disk, stored⟩ := h.fetch hc .readOnly
      obtain ⟨more, s', yields, lists⟩ := ih quiet (by rw [disk, hn])
        (by rw [stored]; exact readable) (n + 1) p.tuples (by omega)
      rw [stored] at lists
      have next := next_of_empty (by omega) disk hp
      have page : Lists file.table s.stored (n + 1) (n + 1 + 1) p.tuples :=
        .page sound hid (by rw [hc, hpc])
      exact ⟨p.tuples ++ more, s', (yields.of_next next).rows rows,
        page.append lists (by omega) (by omega)⟩

/-- To open a scan and to take rows until there are no more. -/
def Full (fetch : Fetch) (file : HeapFile) (tx : TxId) (s : Store) (rows : List Tuple)
    (s' : Store) : Prop :=
  ∃ sc s₁, start fetch ⟨file, tx, none⟩ s = ((.ok (), sc), s₁) ∧ Yields fetch sc s₁ rows s'

theorem start_apply (fetch : Fetch) (sc : Scan) (s : Store) :
    sc.start fetch s =
      if sc.file.numPages s.disk = 0 then ((.ok (), { sc with cursor := some ⟨0, []⟩ }), s)
      else match fetch sc.tx ⟨sc.file.table, 0⟩ .readOnly s with
        | (.error e, s₁) => ((.error e, sc), s₁)
        | (.ok p, s₁) => ((.ok (), { sc with cursor := some ⟨0, p.tuples⟩ }), s₁) := by
  have hget : (get : StateM Store Store) s = (s, s) := rfl
  simp only [start, bind_run, hget]
  split
  · rfl
  · simp only [ExceptT.run, load, bind_apply, pure_apply]
    generalize fetch sc.tx ⟨sc.file.table, 0⟩ .readOnly s = outcome
    rcases outcome with ⟨_ | p, s₁⟩ <;> rfl

/-- In an empty file there is no page to read. -/
theorem start_of_empty (fetch : Fetch) {file : HeapFile} (tx : TxId)
    (h : file.numPages s.disk = 0) :
    start fetch ⟨file, tx, none⟩ s = ((.ok (), ⟨file, tx, some ⟨0, []⟩⟩), s) :=
  (start_apply fetch _ s).trans (if_pos h)

theorem start_of_load {fetch : Fetch} {file : HeapFile} {tx : TxId}
    (h : file.numPages s.disk ≠ 0) :
    start fetch ⟨file, tx, none⟩ s =
      match fetch tx ⟨file.table, 0⟩ .readOnly s with
      | (.error e, s₁) => ((.error e, ⟨file, tx, none⟩), s₁)
      | (.ok p, s₁) => ((.ok (), ⟨file, tx, some ⟨0, p.tuples⟩⟩), s₁) :=
  (start_apply fetch _ s).trans (if_neg h)

theorem Quiet.full {file : HeapFile} (h : Quiet tx s)
    (readable : ∀ k, k < file.numPages s.disk → ∃ c, s.stored ⟨file.table, k⟩ = .ok c) :
    ∃ rows s', Full Store.fetch file tx s rows s' ∧
      Lists file.table s.stored 0 (file.numPages s.disk) rows := by
  by_cases hz : file.numPages s.disk = 0
  · have ended : file.numPages s.disk ≤ 0 + 1 := by omega
    have yields := Yields.done (next_of_end Store.fetch tx ended)
    exact ⟨[], s, ⟨_, s, start_of_empty Store.fetch tx hz, yields⟩, .nil (by omega)⟩
  · obtain ⟨c, hc⟩ := readable 0 (by omega)
    obtain ⟨p, s₁, hp, sound, hid, hpc, quiet, disk, stored⟩ := h.fetch hc .readOnly
    obtain ⟨more, s', yields, lists⟩ := quiet.yields (by rw [disk])
      (by rw [stored]; exact readable) 0 p.tuples
    rw [stored] at lists
    have opens : start Store.fetch ⟨file, tx, none⟩ s =
        ((.ok (), ⟨file, tx, some ⟨0, p.tuples⟩⟩), s₁) := by
      rw [start_of_load hz, hp]
    have page : Lists file.table s.stored 0 (0 + 1) p.tuples := .page sound hid (by rw [hc, hpc])
    exact ⟨p.tuples ++ more, s', ⟨_, s₁, opens, yields⟩, page.append lists (by omega) (by omega)⟩

end Scan

namespace Store
variable {s : Store}

/-- When every transaction has ended, nothing is dirty and nobody holds a lock. -/
theorem run_quiet {config : Config} (h : Opened config s) {calls : List Call}
    (hc : ∀ c ∈ calls, c.IsTransactional) (ended : ∀ tx, ¬ Running tx calls)
    (io : ∀ e ∈ (run calls s).1, ¬ e.IoFailed) (tx : TxId) : Scan.Quiet tx (run calls s).2 := by
  obtain ⟨sound, settled, _⟩ := run_tells h hc io
  have free (u : TxId) (q : PageId) : (run calls s).2.mode? u q = none := by
    apply Classical.byContradiction
    intro held
    exact ended u (run_running h (fun c hmem => orderly_of_transactional c (hc c hmem)) io held)
  refine ⟨sound, settled, ?_, fun u _ q => free u q⟩
  intro q
  cases hd : (run calls s).2.draft q with
  | none => rfl
  | some d =>
      have locked := sound.locked hd
      rw [free] at locked
      cases locked

/-- Pages that could be read still can be, and so can those by which a file has grown. -/
theorem Grows.readable {s' : Store} {e : Entry} (hs : s.Sound) (hs' : s'.Sound)
    (grows : Grows s s') (he : s.catalog.find e.file.table = .ok e)
    (he' : s'.catalog.find e.file.table = .ok e)
    (decodes : ∀ n, n < e.file.numPages s.disk → ∃ p, s.onFile ⟨e.file.table, n⟩ = .ok p) {n : Nat}
    (hn : n < e.file.numPages s'.disk) : ∃ c, s'.stored ⟨e.file.table, n⟩ = .ok c := by
  have page := grows ⟨e.file.table, n⟩
  generalize hq : s'.stored ⟨e.file.table, n⟩ = file at page
  rcases Nat.lt_or_ge n (e.file.numPages s.disk) with hlt | hge
  · obtain ⟨p, hp⟩ := decodes n hlt
    rw [stored_ok.mpr ⟨p, hp, rfl⟩] at page
    cases page with
    | page _ c' => exact ⟨c', rfl⟩
  · have missing := onFile_eq_missing hs'.plain hs'.reliable.read he' n
    rw [stored_error.mpr ((onFile_eq_missing hs.plain hs.reliable.read he n).mpr hge)] at page
    rw [PageId.missing_of_addressable (HeapFile.addressable_of_inside hn)] at page missing
    cases page with
    | unreadable _ =>
        have := missing.mp (stored_error.mp hq)
        omega
    | grown c => exact ⟨c, rfl⟩

/-- A row is on a page of its file. -/
theorem Sound.lt_numPages_of_storedRow {e : Entry} {rid : RecordId} {row : Row} (hs : s.Sound)
    (he : s.catalog.find rid.page.table = .ok e)
    (hrow : storedRow (s.stored rid.page) rid.slot = some row) :
    rid.page.number < e.file.numPages s.disk := by
  apply Nat.lt_of_not_le
  intro hle
  have out := (onFile_eq_missing hs.plain hs.reliable.read he rid.page.number).mpr hle
  have out' : s.stored rid.page = .error rid.page.missing := stored_error.mpr out
  rw [out'] at hrow
  cases hrow

/-- When every transaction has ended, a scan of a table whose pages all decode gives out the
committed rows, in order and each once. -/
theorem scan_yields_committed {config : Config} (h : Opened config s) {id : TableId} {e : Entry}
    (he : s.catalog.find id = .ok e)
    (decodes : ∀ n, n < e.file.numPages s.disk → ∃ p, s.onFile ⟨id, n⟩ = .ok p) {calls : List Call}
    (hc : ∀ c ∈ calls, c.IsTransactional) (ended : ∀ tx, ¬ Running tx calls)
    (io : ∀ e ∈ (run calls s).1, ¬ e.IoFailed) (tx : TxId) :
    ∃ rows s', Scan.Full fetch e.file tx (run calls s).2 rows s' ∧ rows.Pairwise Tuple.Before ∧
      ∀ rid row, (∃ t ∈ rows, t.rid = some rid ∧ t.row = row) ↔
        rid.page.table = id ∧
          ((run calls s).1.foldl Ledger.record (.ofFiles s)).rows rid = some row := by
  obtain ⟨sound, _, tells, grows, catalog⟩ := run_tells h hc io
  have quiet := run_quiet h hc ended io tx
  have he' : (run calls s).2.catalog.find id = .ok e := by
    rw [catalog]
    exact he
  obtain rfl : e.file.table = id := (h.plain _ _ (Catalog.find_ok he)).1
  obtain ⟨rows, s', full, lists⟩ := quiet.full fun n hn =>
    grows.readable h.sound sound he he' decodes hn
  refine ⟨rows, s', full, lists.ordered, ?_⟩
  intro rid row
  rw [lists.mem, tells.rows]
  constructor
  · rintro ⟨⟨htable, _, _⟩, hrow⟩
    exact ⟨htable, hrow⟩
  · rintro ⟨htable, hrow⟩
    refine ⟨⟨htable, Nat.zero_le _, ?_⟩, hrow⟩
    rw [← tells.rows] at hrow
    exact sound.lt_numPages_of_storedRow (htable ▸ he') hrow

def endedCalls : List Call :=
  [.insert ⟨1⟩ (.file 0) (sampleRow "kept"), .complete ⟨1⟩ .commit]

theorem scan_yields_the_kept_row :
    ∃ rows s',
      Scan.Full fetch sampleEntry.file ⟨2⟩ (run endedCalls (sample [] 1 (by decide))).2 rows s' ∧
        ∃ t ∈ rows, t.rid = some ⟨⟨.file 0, 0⟩, 0⟩ ∧ t.row = [some (.string "kept")] := by
  have opened : Opened (sampleConfig 1) (sample [] 1 (by decide)) :=
    opened_sample (by decide) (by decide)
  have io : ∀ e ∈ (run endedCalls (sample [] 1 (by decide))).1, ¬ e.IoFailed := by
    decide +kernel
  have ended (tx : TxId) : ¬ Running tx endedCalls := by
    simp [endedCalls, running_cons, not_running_nil, Call.tx?]
  have decodes : ∀ n, n < sampleEntry.file.numPages (sample [] 1 (by decide)).disk →
      ∃ p, (sample [] 1 (by decide)).onFile ⟨.file 0, n⟩ = .ok p := by
    have : sampleEntry.file.numPages (sample [] 1 (by decide)).disk = 0 := by decide +kernel
    omega
  obtain ⟨rows, s', full, _, mem⟩ := scan_yields_committed opened (find_sample _) decodes
    (by simp [endedCalls, Call.IsTransactional]) ended io ⟨2⟩
  exact ⟨rows, s', full, (mem _ _).mpr ⟨rfl, by decide +kernel⟩⟩

end Store
end HeapStore
