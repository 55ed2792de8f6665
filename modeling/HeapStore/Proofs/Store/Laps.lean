import HeapStore.Proofs.Store.Reachable
import HeapStore.Store.Lap

/-!
How long a search for a place goes on. It comes to each page once at most. When all pages are full
it makes the file grow and sets out again, but this second lap is the last one: the page that has
been added was not cached, is empty, and takes the row unless the row or the lock is refused.
-/

namespace HeapStore

/-- The first row of an empty page goes to its first slot. -/
theorem HeapPage.slot_of_insert_empty {q : PageId} {schema : Schema} {t : Tuple} {p : HeapPage}
    {rid : RecordId} (h : (HeapPage.empty q schema).insert t = .ok (p, rid)) : rid = ⟨q, 0⟩ := by
  obtain ⟨page, lowest, _⟩ := slots_of_insert h
  obtain ⟨_, _⟩ := rid
  exact congr (congrArg RecordId.mk page) (lowest_of_empty lowest).1

/-- A lap after the file has grown by a page. It looks at that page and no other, finds it empty if
it is had at all, and is the end of the search: the row is stored there, or there is an error. -/
structure Lap.Last (f : HeapFile) (tx : TxId) (t : Tuple) (s : Store) (lap : Lap)
    (r : Except Error (HeapPage × RecordId)) (s' : Store) : Prop where
  first : lap.first = f.numPages s.disk
  grown : f.appendPage s.disk = .ok lap.before.disk
  request : lap.requests f tx = [⟨tx, ⟨f.table, f.numPages s.disk⟩, .readWrite, lap.before⟩]
  empty : ∀ request ∈ lap.requests f tx, ∀ p, request.answer = .ok p →
    ∃ e, s.catalog.find f.table = .ok e ∧ p = .empty request.page e.file.schema
  outcome : lap.outcome f tx t = (r.map some, s')
  placed : ∀ p rid, r = .ok (p, rid) → rid = ⟨⟨f.table, f.numPages s.disk⟩, 0⟩ ∧
    s'.cached rid.page = some p ∧ ∃ e, s.catalog.find f.table = .ok e ∧
      p = Store.filled (.empty rid.page e.file.schema) tx t rid

namespace Store
variable {home : TableId → Nat} {s s' s₁ s₂ : Store} {f : HeapFile} {tx : TxId} {t : Tuple}
  {rs : List PageRequest} {n m first : Nat} {r : Except Error (HeapPage × RecordId)} {e : Error}

theorem Climbs.pages (h : Climbs f tx n s rs m s') :
    rs.map PageRequest.page = (List.range' n (m - n)).map (PageId.mk f.table) := by
  induction h with
  | here n _ => simp
  | full _ _ _ rest ih =>
      obtain ⟨k, rfl⟩ := Nat.exists_eq_add_of_le rest.le
      rw [List.map_cons, ih, Nat.add_sub_cancel_left, Nat.add_assoc, Nat.add_sub_cancel_left,
        Nat.add_comm 1 k, List.range'_succ, List.map_cons]
  | grown _ _ _ ih => exact ih

/-- A search comes to one page after the other. -/
theorem Seeks.pages (inside : n ≤ f.numPages s.disk) (h : Seeks f tx t n s rs r s') :
    ∃ k, n + k ≤ f.numPages s'.disk ∧
      rs.map PageRequest.page = (List.range' n k).map (PageId.mk f.table) := by
  have further {m : Nat} {s₀ : Store} {rs₀ : List PageRequest} (climbs : Climbs f tx n s rs₀ m s₀) :
      n + (m - n + 1) = m + 1 ∧
        (rs₀ ++ [(⟨tx, ⟨f.table, m⟩, .readWrite, s₀⟩ : PageRequest)]).map PageRequest.page =
          (List.range' n (m - n + 1)).map (PageId.mk f.table) := by
    have upTo : n + (m - n) = m := Nat.add_sub_of_le climbs.le
    rw [List.map_append, climbs.pages, List.range'_1_concat, List.map_append, upTo]
    exact ⟨by omega, rfl⟩
  cases h with
  | unfetched climbs below had | unfit climbs below had _ _ | placed climbs below had _ =>
      obtain ⟨last, pages⟩ := further climbs
      have disk := lenient_disk.of_fetch had
      exact ⟨_, by simp only [put_apply, disk, last]; exact below, pages⟩
  | ungrown climbs _ | endless climbs =>
      have upTo := (climbs.numPages inside).1
      exact ⟨_, by rw [Nat.add_sub_of_le climbs.le]; exact upTo, climbs.pages⟩

/-- In a lap the file does not grow. -/
theorem tries_of_lap (f : HeapFile) (tx : TxId) (t : Tuple) (lap : Lap)
    (inside : lap.first ≤ f.numPages lap.before.disk) :
    (lap.outcome f tx t).2.disk = lap.before.disk ∧
      Tries f tx t lap.first (f.numPages lap.before.disk - lap.first) lap.before
        (lap.requests f tx) (lap.outcome f tx t).1 (lap.outcome f tx t).2 :=
  tries f tx t _ lap.first lap.before (by omega)

theorem search_lap (f : HeapFile) (tx : TxId) (t : Tuple) (passes first : Nat) (s : Store) :
    search f tx t (passes + 1) first s =
      match Lap.outcome f tx t ⟨first, s⟩ with
      | (.error e, s₁) => (.error e, s₁)
      | (.ok (some placed), s₁) => (.ok placed, s₁)
      | (.ok none, s₁) =>
        match append f s₁ with
        | (.error e, s₂) => (.error e, s₂)
        | (.ok (), s₂) => search f tx t passes (max first (f.numPages s.disk)) s₂ :=
  search_succ f tx t passes first s

/-- A search is over with a lap in which not all pages were full. -/
theorem search_of_ended (passes : Nat)
    (ended : Lap.outcome f tx t ⟨first, s⟩ = (r.map some, s')) :
    searchLaps f tx t (passes + 1) first s = [⟨first, s⟩] ∧
      search f tx t (passes + 1) first s = (r, s') := by
  rw [searchLaps, search_lap, ended]
  cases r <;> exact ⟨rfl, rfl⟩

theorem search_of_stuck (passes : Nat) (full : Lap.outcome f tx t ⟨first, s⟩ = (.ok none, s₁))
    (failed : append f s₁ = (.error e, s')) :
    searchLaps f tx t (passes + 1) first s = [⟨first, s⟩] ∧
      search f tx t (passes + 1) first s = (.error e, s') := by
  simp only [searchLaps, search_lap, full, failed, and_self]

theorem search_of_grown (passes : Nat) (full : Lap.outcome f tx t ⟨first, s⟩ = (.ok none, s₁))
    (grows : append f s₁ = (.ok (), s₂)) :
    searchLaps f tx t (passes + 1) first s =
        ⟨first, s⟩ :: searchLaps f tx t passes (max first (f.numPages s.disk)) s₂ ∧
      search f tx t (passes + 1) first s =
        search f tx t passes (max first (f.numPages s.disk)) s₂ := by
  simp only [searchLaps, search_lap, full, grows, and_self]

section
variable (full : Lap.outcome f tx t ⟨0, s⟩ = (.ok none, s₁)) (grows : append f s₁ = (.ok (), s₂))

include full in
/-- A lap in which all pages were full has passed all there are, and there are no more since. -/
theorem climbs_of_full :
    s₁.disk = s.disk ∧ ∃ rs, Climbs f tx 0 s rs (f.numPages s.disk) s₁ := by
  obtain ⟨disk, tries⟩ := tries_of_lap f tx t ⟨0, s⟩ (Nat.zero_le _)
  rw [full] at disk tries
  cases tries with
  | full climbs =>
      rw [Nat.zero_add, Nat.sub_zero] at climbs
      exact ⟨disk, _, climbs⟩

include full grows

theorem appendPage_of_full : f.appendPage s.disk = .ok s₂.disk := by
  rw [← (climbs_of_full full).1]
  exact (append_ok grows).2

theorem numbers_of_grown : Lap.numbers f ⟨f.numPages s.disk, s₂⟩ = [f.numPages s.disk] := by
  have pages := HeapFile.numPages_appendPage (appendPage_of_full full grows)
  rw [Lap.numbers, pages, Nat.add_sub_cancel_left, List.range'_one]

variable (seated : s.Seated home) (bound : f.generation = home f.table)
include seated bound

/-- The page that has been added is empty when it is had. -/
theorem had_of_grown {p : HeapPage}
    (got : fetch tx ⟨f.table, f.numPages s.disk⟩ .readWrite s₂ = (.ok p, s')) :
    s'.cached ⟨f.table, f.numPages s.disk⟩ = some p ∧ ∃ e, s.catalog.find f.table = .ok e ∧
      p = .empty ⟨f.table, f.numPages s.disk⟩ e.file.schema := by
  obtain ⟨_, rs, climbs⟩ := climbs_of_full full
  have plain := seated.housed.plain
  have spares : Spares f.id (rs ++ []) s s₂ := (climbs.spares plain).trans (spares_append grows)
  have replied := replied_of_eq (spares.catalog ▸ plain) got
  exact ⟨replied.here, seated.had_new bound spares replied (Nat.le_refl _)⟩

variable (roomy : s.catalog.Roomy f.table)
include roomy

/-- The row goes to the page that has been added, or the search fails. -/
theorem outcome_of_grown :
    ∃ (r : Except Error (HeapPage × RecordId)) (s' : Store),
      Lap.outcome f tx t ⟨f.numPages s.disk, s₂⟩ = (r.map some, s') ∧
      ∀ p rid, r = .ok (p, rid) → rid = ⟨⟨f.table, f.numPages s.disk⟩, 0⟩ ∧
        s'.cached rid.page = some p ∧ ∃ e, s.catalog.find f.table = .ok e ∧
          p = filled (.empty rid.page e.file.schema) tx t rid := by
  rw [Lap.outcome, numbers_of_grown full grows, tryPages_cons]
  cases got : fetch tx ⟨f.table, f.numPages s.disk⟩ .readWrite s₂ with
  | mk r s₃ =>
      cases r with
      | error e => exact ⟨.error e, s₃, rfl, fun _ _ placed => by cases placed⟩
      | ok p =>
          obtain ⟨here, e, entry, rfl⟩ := had_of_grown full grows seated bound got
          generalize hq : (⟨f.table, f.numPages s.disk⟩ : PageId) = q at here ⊢
          have room : (HeapPage.empty q e.file.schema).emptySlots ≠ 0 := by
            rw [HeapPage.emptySlots_empty]
            exact Nat.ne_of_gt (roomy e entry)
          simp only [room, if_false]
          cases fit : (HeapPage.empty q e.file.schema).insert t with
          | error err => exact ⟨.error err, s₃, rfl, fun _ _ placed => by cases placed⟩
          | ok placed =>
              obtain ⟨p, rid⟩ := placed
              obtain rfl := HeapPage.slot_of_insert_empty fit
              obtain ⟨_, _, rfl⟩ := HeapPage.slots_of_insert fit
              refine ⟨.ok (_, ⟨q, 0⟩), _, rfl, ?_⟩
              rintro _ _ ⟨⟩
              exact ⟨rfl, ((overlays_put here rfl).cached q).trans (if_pos rfl), e, entry, rfl⟩

theorem last_of_grown : ∃ r s', Lap.Last f tx t s ⟨f.numPages s.disk, s₂⟩ r s' := by
  obtain ⟨r, s', outcome, placed⟩ := outcome_of_grown full grows seated bound roomy
  have request : Lap.requests f tx ⟨f.numPages s.disk, s₂⟩ =
      [⟨tx, ⟨f.table, f.numPages s.disk⟩, .readWrite, s₂⟩] := by
    rw [Lap.requests, numbers_of_grown full grows, tryRequests]
    split
    · rfl
    · split <;> rfl
  refine ⟨r, s', rfl, appendPage_of_full full grows, request, ?_, outcome, placed⟩
  intro asked among p had
  rw [request, List.mem_singleton] at among
  subst among
  exact (had_of_grown full grows seated bound (Prod.ext had rfl)).2

end

/-- The ways in which a search from the first page on goes. It would go on if the second lap came to
an end without a result, but none does. -/
inductive Runs (f : HeapFile) (tx : TxId) (t : Tuple) (s : Store) :
    List Lap → Except Error (HeapPage × RecordId) → Store → Prop
  | first {r : Except Error (HeapPage × RecordId)} {s' : Store}
      (ended : Lap.outcome f tx t ⟨0, s⟩ = (r.map some, s')) : Runs f tx t s [⟨0, s⟩] r s'
  | stuck {e : Error} {s₁ : Store} (full : Lap.outcome f tx t ⟨0, s⟩ = (.ok none, s₁))
      (failed : append f s₁ = (.error e, s₁)) : Runs f tx t s [⟨0, s⟩] (.error e) s₁
  | second {r : Except Error (HeapPage × RecordId)} {s₁ s₂ s' : Store}
      (full : Lap.outcome f tx t ⟨0, s⟩ = (.ok none, s₁)) (grows : append f s₁ = (.ok (), s₂))
      (last : Lap.Last f tx t s ⟨f.numPages s.disk, s₂⟩ r s') :
      Runs f tx t s [⟨0, s⟩, ⟨f.numPages s.disk, s₂⟩] r s'

/-- A search that may make two passes or more goes the same way however many it may make. -/
theorem runs (seated : s.Seated home) (bound : f.generation = home f.table)
    (roomy : s.catalog.Roomy f.table) (tx : TxId) (t : Tuple) :
    ∃ laps r s', Runs f tx t s laps r s' ∧ ∀ passes,
      searchLaps f tx t (passes + 2) 0 s = laps ∧ search f tx t (passes + 2) 0 s = (r, s') := by
  cases tried : Lap.outcome f tx t ⟨0, s⟩ with
  | mk r s₁ =>
      match r with
      | .error e =>
          exact ⟨_, .error e, _, .first tried, fun passes => search_of_ended _ tried⟩
      | .ok (some placed) =>
          exact ⟨_, .ok placed, _, .first tried, fun passes => search_of_ended _ tried⟩
      | .ok none =>
          cases appended : append f s₁ with
          | mk r s₂ =>
              cases r with
              | error e =>
                  obtain rfl := (append_error appended).1
                  exact ⟨_, _, _, .stuck tried appended,
                    fun passes => search_of_stuck _ tried appended⟩
              | ok _ =>
                  obtain ⟨r, s', last⟩ := last_of_grown tried appended seated bound roomy
                  refine ⟨_, r, s', .second tried appended last, fun passes => ?_⟩
                  obtain ⟨laps, result⟩ := search_of_grown (passes + 1) tried appended
                  obtain ⟨laps', result'⟩ := search_of_ended passes last.outcome
                  rw [Nat.zero_max] at laps result
                  rw [laps, laps', result, result']
                  exact ⟨rfl, rfl⟩

theorem Runs.disk {laps : List Lap} (h : Runs f tx t s laps r s') :
    laps.length = 1 ∧ s'.disk = s.disk ∨ laps.length = 2 ∧ f.appendPage s.disk = .ok s'.disk := by
  cases h with
  | first ended =>
      have disk := (tries_of_lap f tx t ⟨0, s⟩ (Nat.zero_le _)).1
      rw [ended] at disk
      exact .inl ⟨rfl, disk⟩
  | stuck full failed => exact .inl ⟨rfl, (climbs_of_full full).1⟩
  | @second _ _ s₂ _ full grows last =>
      have pages := HeapFile.numPages_appendPage (appendPage_of_full full grows)
      have disk := (tries_of_lap f tx t ⟨f.numPages s.disk, s₂⟩ (pages ▸ Nat.le_succ _)).1
      rw [last.outcome] at disk
      exact .inr ⟨rfl, disk ▸ last.grown⟩

theorem Runs.last {laps : List Lap} {lap : Lap} (h : Runs f tx t s laps r s')
    (here : laps[1]? = some lap) : lap.Last f tx t s r s' := by
  cases h with
  | first _ | stuck _ _ => cases here
  | second _ _ last =>
      cases here
      exact last

/-- How much a call that is to store a row does, with the laps of its search. -/
structure Halts (f : HeapFile) (tx : TxId) (t : Tuple) (s : Store) (laps : List Lap)
    (r : Except Error (HeapPage × RecordId)) (s' : Store) : Prop where
  few : laps.length ≤ 2
  /-- The pages are asked for in order, each of them once. -/
  pages : ∃ k ≤ f.numPages s'.disk, (laps.flatMap (Lap.requests f tx)).map PageRequest.page =
    (List.range k).map (PageId.mk f.table)
  disk : laps.length ≤ 1 ∧ s'.disk = s.disk ∨
    laps.length = 2 ∧ f.appendPage s.disk = .ok s'.disk ∧ f.numPages s'.disk = f.numPages s.disk + 1
  last : ∀ lap, laps[1]? = some lap → lap.Last f tx t s r s'

/-- Whatever locks there are, the pages in the cache have their places in the files. -/
theorem Seated.locked (h : s.Seated home) (locks : LockTable) :
    Seated home { s with pool.locks := locks } where
  housed := h.housed
  ordered := h.ordered
  inside := h.inside

/-- A search for a place sets out at most twice, however often it may. It comes to no page twice,
and the file grows by a page before the second lap and at no other time; that lap comes to the new
page only, which is empty, and stores the row there or fails. -/
theorem search_sets_out_twice_at_most (reachable : Reachable home s)
    (bound : f.generation = home f.table) (roomy : s.catalog.Roomy f.table) (locks : LockTable)
    (tx : TxId) (t : Tuple) :
    let s : Store := { s with pool.locks := locks }
    Halts f tx t s (insertLaps f tx t s) (insertInto f tx t s).1 (insertInto f tx t s).2 ∧
      ∀ passes, 2 ≤ passes → searchLaps f tx t passes 0 s = searchLaps f tx t 2 0 s ∧
        search f tx t passes 0 s = search f tx t 2 0 s := by
  intro s
  obtain ⟨laps, r, s', runs, same⟩ := runs (reachable.seated.locked locks) bound roomy tx t
  constructor
  case right =>
    intro passes two
    obtain ⟨passes, rfl⟩ := Nat.exists_eq_add_of_le' two
    rw [(same passes).1, (same passes).2, (same 0).1, (same 0).2]
    exact ⟨rfl, rfl⟩
  case left =>
    by_cases types : t.schema.types = f.schema.types
    case neg =>
      rw [insertInto_foreign types, insertLaps, if_neg types]
      exact ⟨Nat.zero_le _, ⟨0, Nat.zero_le _, rfl⟩, .inl ⟨Nat.zero_le _, rfl⟩, nofun⟩
    case pos =>
      have seeks := seeks_of_insertInto types tx s
      rw [insertRequests_eq_flatMap] at seeks
      obtain ⟨laps', result⟩ := same (HeapFile.maxPages - 1)
      have made : insertLaps f tx t s = laps := by
        rw [insertLaps, if_pos types]
        exact laps'
      have answer : insertInto f tx t s = (r, s') := by
        rw [insertInto, ensure, if_pos types, pure_bind]
        exact result
      rw [made, answer] at seeks ⊢
      obtain ⟨k, inside, pages⟩ := seeks.pages (Nat.zero_le _)
      constructor
      case few => rcases runs.disk with ⟨one, _⟩ | ⟨two, _⟩ <;> omega
      case pages =>
        rw [Nat.zero_add] at inside
        rw [← List.range_eq_range'] at pages
        exact ⟨k, inside, pages⟩
      case disk =>
        rcases runs.disk with ⟨one, disk⟩ | ⟨two, grown⟩
        · exact .inl ⟨Nat.le_of_eq one, disk⟩
        · exact .inr ⟨two, grown, HeapFile.numPages_appendPage grown⟩
      case last => exact fun lap here => runs.last here

/-- A page full of rows without a letter is passed in the first lap. -/
theorem full_page_takes_two_laps :
    let s := sample (Bytes.resize [255, 255, 255, 127] pageSize) 1 (by decide)
    let f := sampleEntry.file
    Reachable sampleHome s ∧ s.catalog.Roomy f.table ∧
      (insertLaps f ⟨1⟩ (sampleRow "a") s).length = 2 ∧
      Halts f ⟨1⟩ (sampleRow "a") s (insertLaps f ⟨1⟩ (sampleRow "a") s)
        (insertInto f ⟨1⟩ (sampleRow "a") s).1 (insertInto f ⟨1⟩ (sampleRow "a") s).2 := by
  intro s f
  have reachable : Reachable sampleHome s := reachable_sample (by decide) (by decide)
  have roomy : s.catalog.Roomy f.table :=
    Catalog.roomy_of_find (find_sample (by decide)) (by decide)
  have two : (insertLaps f ⟨1⟩ (sampleRow "a") s).length = 2 := by decide +kernel
  exact ⟨reachable, roomy, two,
    (search_sets_out_twice_at_most reachable rfl roomy s.pool.locks ⟨1⟩ (sampleRow "a")).1⟩

end Store
end HeapStore
