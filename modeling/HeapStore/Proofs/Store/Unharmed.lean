import HeapStore.Proofs.Store.Reachable
import HeapStore.Proofs.Store.TwoPhase

/-!
Rows that are not stored. Whatever stands in the way, no page in the cache or in a file is any
different afterwards, and no lock is lost. What remains of the attempt is a lock on the page that was
asked for last, and an empty page at the end of the file; if pages have no room for a row of the
table at all, there may be more of them than one.
-/

namespace HeapStore

/-- The file has more pages, which are empty, and nothing else on the disk is any different. -/
structure HeapFile.Extended (f : HeapFile) (d d' : Disk TableId) : Prop where
  grown : d.Grown f.id d'
  longer : f.numPages d < f.numPages d'
  empty : ∀ n, f.numPages d ≤ n →
    HeapPage.decode ⟨f.table, n⟩ f.schema (f.blockAt d' n) = .ok (.empty ⟨f.table, n⟩ f.schema)
  once : 0 < f.schema.slotsPerPage → f.numPages d' = f.numPages d + 1

namespace Store
variable {home : TableId → Nat} {s s' : Store} {f : HeapFile} {tx : TxId} {t : Tuple} {e : Entry}
  {rs : List PageRequest} {err : Error} {table : TableId}

/-- What an attempt with these requests has left as it was. A cached page is the same all the way,
unless it is clean and has left the cache at one of them; and the only page that is locked and was
not before is the one that was asked for last. -/
structure Unharmed (tx : TxId) (rs : List PageRequest) (s s' : Store) : Prop where
  catalog : s'.catalog = s.catalog
  stayed : ∀ q p, s.cached q = some p →
    s'.cached q = some p ∧ (∀ r ∈ rs, r.after.cached q = some p) ∨
      p.dirtiedBy = none ∧ ∃ r ∈ rs, r.before.cached q = some p ∧ r.after.cached q = none
  came : ∀ q p, s'.cached q = some p → s.cached q = some p ∨ s'.onFile q = .ok p
  read : ∀ (g : HeapFile) (q : PageId), q.number < g.numPages s.disk →
    g.readPage s'.disk q = g.readPage s.disk q
  kept : ∀ q m, s.pool.locks.Has tx q m → s'.pool.locks.Has tx q m
  others : ∀ u q, u ≠ tx → s'.mode? u q = s.mode? u q
  taken : ∀ q, s.mode? tx q = none → s'.mode? tx q ≠ none → rs.getLast?.map (·.page) = some q

theorem Unharmed.refl (tx : TxId) (s : Store) : Unharmed tx [] s s where
  catalog := rfl
  stayed _ _ here := .inl ⟨here, nofun⟩
  came _ _ here := .inl here
  read _ _ _ := rfl
  kept _ _ has := has
  others _ _ _ := rfl
  taken _ absent here := absurd absent here

theorem Seeks.unharmed (plain : s.catalog.Plain) (h : Seeks f tx t 0 s rs (.error err) s')
    (retains : Retains s s') : Unharmed tx rs s s' := by
  have spares := h.spares plain
  obtain ⟨rs₀, m, s₀, climbs, _, locks⟩ := h.climbed plain
  have escalated := climbs.escalated plain
  constructor
  case catalog => exact spares.catalog
  case stayed =>
    intro q p here
    rcases spares.cached q with ⟨same, stayed⟩ | ⟨left, _⟩
    · rw [here] at same stayed
      exact .inl ⟨same, stayed⟩
    · exact .inr (left p here)
  case came =>
    intro q p here
    rcases spares.cached q with ⟨same, _⟩ | ⟨_, came⟩
    · exact .inl (same ▸ here)
    · exact .inr (came p here)
  case read => exact fun g q inside => HeapFile.readPage_grown spares.disk g inside
  case kept => exact retains tx
  case others =>
    intro u q other
    have climbed : s₀.mode? u q = s.mode? u q := by
      rw [escalated, if_neg fun h => other h.1]
    rcases locks with same | ⟨_, granted⟩
    · rw [same, climbed]
    · rw [granted, if_neg fun h => other h.1, climbed]
  case taken =>
    intro q absent here
    have climbed : s₀.mode? tx q = none := by
      rw [escalated, absent]
      simp
    rcases locks with same | ⟨rfl, granted⟩
    · rw [same, climbed] at here
      exact absurd rfl here
    · rw [granted, climbed] at here
      simp only [List.getLast?_concat, Option.map_some, Option.some.injEq]
      by_contra other
      exact here (if_neg fun h => other h.2.symm)

theorem Seeks.extended (seated : s.Seated home) (entry : s.catalog.find e.file.table = .ok e)
    (h : Seeks e.file tx t 0 s rs (.error err) s') :
    s'.disk = s.disk ∨ e.file.Extended s.disk s'.disk := by
  have plain := seated.housed.plain
  have grown := (h.spares plain).disk
  obtain ⟨rs₀, m, s₀, climbs, disk, _⟩ := h.climbed plain
  rcases (climbs.numPages (Nat.zero_le _)).2 with same | ⟨longer, few⟩
  · exact .inl (disk.trans same)
  · rw [← disk] at longer few
    refine .inr ⟨grown, longer, fun n new => ?_, fun room => ?_⟩
    · exact HeapFile.decode_grown (q := ⟨e.file.table, n⟩) grown e.file new
    · have reached := climbs.reached seated (seated.bound entry).2
        (Catalog.roomy_of_find entry room)
      omega

/-- A row that cannot be stored is as it was, and so is all that is stored already, in the cache and
in the files. The file of the table may be longer, by one empty page if pages have room for a row. -/
theorem failed_insert_harms_nothing (reachable : Reachable home s)
    (failed : (insert tx table t s).1.1 = .error err) :
    (insert tx table t s).1.2 = t ∧
      Unharmed tx ((Act.call (.insert tx table t)).requests s) s (insert tx table t s).2 ∧
      ((insert tx table t s).2.disk = s.disk ∨ ∃ e, s.catalog.find table = .ok e ∧
        e.file.Extended s.disk (insert tx table t s).2.disk) := by
  have seated := reachable.seated
  have plain := seated.housed.plain
  have inserts := inserts plain seated.ordered tx table t
  have retains : Retains s (insert tx table t s).2 :=
    retaining.insert fun e _ => retains_insertInto e.file tx t
  generalize insert tx table t s = outcome at failed inserts retains ⊢
  obtain ⟨⟨r, t'⟩, s'⟩ := outcome
  cases inserts with
  | stored => cases failed
  | unknown missing =>
      have requests : (Act.call (.insert tx table t)).requests s' = [] := by
        simp only [Act.requests, missing]
      rw [requests]
      exact ⟨rfl, .refl tx _, .inl rfl⟩
  | @failed e _ _ entry files =>
      have requests : (Act.call (.insert tx table t)).requests s =
          insertRequests e.file tx t s := by
        simp only [Act.requests, entry]
      rw [requests]
      obtain rfl := (plain _ e (Catalog.find_ok entry)).1
      cases files with
      | misfit types =>
          rw [insertRequests, if_neg types]
          exact ⟨rfl, .refl tx _, .inl rfl⟩
      | failed types seeks =>
          refine ⟨rfl, seeks.unharmed plain retains, ?_⟩
          exact (seeks.extended seated entry).imp_right fun more => ⟨e, entry, more⟩

/-- A full page, and a lock on the page that would come next. -/
def fullPageAndLock : Store :=
  (run [.get ⟨2⟩ ⟨.file 0, 1⟩ .readOnly]
    (sample (Bytes.resize [255, 255, 255, 127] pageSize) 2 (by decide))).2

theorem locked_out_of_new_page :
    let s := fullPageAndLock
    let outcome := insert ⟨1⟩ (.file 0) (sampleRow "a") s
    outcome.1 = (.error (.lockTimeout ⟨1⟩ ⟨.file 0, 1⟩), sampleRow "a") ∧
      sampleEntry.file.Extended s.disk outcome.2.disk := by
  intro s outcome
  obtain ⟨failed, pages, found⟩ : outcome.1.1 = .error (.lockTimeout ⟨1⟩ ⟨.file 0, 1⟩) ∧
      sampleEntry.file.numPages s.disk < sampleEntry.file.numPages outcome.2.disk ∧
      s.catalog.find (.file 0) = .ok sampleEntry := by
    decide +kernel
  have reachable : Reachable sampleHome s := (reachable_sample (by decide) (by decide)).run _
  clear_value s
  obtain ⟨row, _, files⟩ := failed_insert_harms_nothing reachable failed
  refine ⟨Prod.ext failed row, ?_⟩
  rcases files with same | ⟨e, entry, extended⟩
  · rw [same] at pages
    exact absurd pages (Nat.lt_irrefl _)
  · obtain rfl : sampleEntry = e := Except.ok.inj (found.symm.trans entry)
    exact extended

/-- A table with more columns than fit on a page. -/
def wideEntry : Entry where
  name := "wide"
  file := ⟨.file 0, 0, ⟨List.replicate 32 ⟨.string, none⟩, by decide⟩⟩

theorem fits_strings (n : Nat) :
    Fits (List.replicate n .string) (List.replicate n (some (.string ""))) := by
  induction n with
  | zero => trivial
  | succ n ih => exact ⟨fun _ h => by cases h; rfl, ih⟩

def wideRow : Tuple where
  schema := wideEntry.file.schema
  values := List.replicate 32 (some (.string ""))
  fits := fits_strings 32

/-- A store with that table, in which somebody has locked a page that is not there. -/
def wideAndLock : Store :=
  (run [.get ⟨2⟩ ⟨.file 0, 2⟩ .readOnly]
    { sample [] 4 (by decide) with catalog := Catalog.add {} wideEntry }).2

/-- A page that has no room for any row does not end the search for one, and more pages follow it. -/
theorem wide_row_appends_pages :
    Reachable sampleHome wideAndLock ∧
    let outcome := insert ⟨1⟩ (.file 0) wideRow wideAndLock
    outcome.1.1 = .error (.lockTimeout ⟨1⟩ ⟨.file 0, 2⟩) ∧
      wideEntry.file.numPages wideAndLock.disk = 0 ∧
      wideEntry.file.numPages outcome.2.disk = 3 := by
  refine ⟨?_, by decide +kernel⟩
  have opened : Opened (sampleConfig 4) (sample [] 4 (by decide)) :=
    opened_sample (by decide) (by decide)
  have start : Reachable sampleHome
      { sample [] 4 (by decide) with catalog := Catalog.add {} wideEntry } :=
    .opened opened.pool ((Catalog.housed_default _).add rfl rfl)
  exact start.run _

end Store
end HeapStore
