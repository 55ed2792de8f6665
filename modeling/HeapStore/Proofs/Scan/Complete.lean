import HeapStore.Proofs.Scan.Turns
import HeapStore.Proofs.Store.Arising
import HeapStore.Proofs.Store.Placement
import HeapStore.Proofs.Store.TwoPhase
import Mathlib.Data.List.Infix

/-!
What a scan gives out of a file whose pages keep their rows: all of them, in order, however often it
fails in between and is tried again. A page that is read has the rows that are listed for it, so
what has been given out is a beginning of the whole list, and all of it when the scan comes to its
end.
-/

namespace HeapStore

/-- The rows in the slots of a page, each with its place. -/
def listing (page : PageId) (slots : List (Option Row)) : List (Option RecordId × Row) :=
  slots.zipIdx.filterMap fun (slot, i) => slot.map fun row => (some ⟨page, i⟩, row)

/-- A row as it is stored, and its place. -/
def Tuple.entry (t : Tuple) : Option RecordId × Row :=
  (t.rid, t.row)

theorem listing_of_placed {page : PageId} {slots : List (Option Tuple)} (first : Nat)
    (placed : ∀ i (t : Tuple), slots[i]? = some (some t) → t.rid = some ⟨page, first + i⟩) :
    (slots.filterMap fun slot => slot).map Tuple.entry =
      ((slots.map (Option.map Tuple.row)).zipIdx first).filterMap fun (slot, i) =>
        slot.map fun row => (some ⟨page, i⟩, row) := by
  induction slots generalizing first with
  | nil => rfl
  | cons slot slots ih =>
      have rest := ih (first + 1) fun i t ht => by
        rw [placed (i + 1) t ht, Nat.add_assoc, Nat.add_comm 1 i]
      cases slot with
      | none => simpa using rest
      | some t =>
          have here : t.rid = some ⟨page, first⟩ := placed 0 t rfl
          simpa [Tuple.entry, here] using rest

/-- The rows of a page are where they are listed. -/
theorem HeapPage.Sound.listing_eq {p : HeapPage} (h : p.Sound) :
    p.tuples.map Tuple.entry = listing p.id (p.slots.map (Option.map Tuple.row)) :=
  listing_of_placed 0 fun i t ht => (h.placed i t ht).2.2

namespace Scan
open Store
variable {file : HeapFile} {tx : TxId} {sc : Scan} {c c' : Cursor} {s s' : Store}
  {rs asked : List PageRequest} {turn : Turn} {turns : List Turn} {count n : Nat}
  {before later : List Turn} {numbers : List Nat} {r : Except Error Bool} {pages : List PageId}
  {rows : Nat → List (Option Row)} {request : PageRequest}

/-- A store that a scan of a file of `count` pages may meet. -/
structure Meets (file : HeapFile) (count : Nat) (s : Store) : Prop where
  arises : Arises s
  unhooked : s.catalog.Unhooked file.table
  pages : file.numPages s.disk = count

/-- A request that a scan of such a file makes. -/
structure Asks (file : HeapFile) (tx : TxId) (count : Nat) (request : PageRequest) : Prop where
  meets : Meets file count request.before
  tx : request.tx = tx
  access : request.access = .readOnly
  table : request.page.table = file.table
  inside : request.page.number < count

/-- What a scan leaves it may meet again. -/
theorem Meets.of_fetch {a : Access} {answer : Except Error HeapPage} (h : Meets file count s)
    (got : Store.fetch tx ⟨file.table, n⟩ a s = (answer, s')) : Meets file count s' where
  arises := by
    have acted := h.arises.acted (.call (.get tx ⟨file.table, n⟩ a))
    rwa [Act.perform, Call.perform, map_apply, got] at acted
  unhooked := by
    have replied := replied_of_unhooked (q := ⟨file.table, n⟩) h.unhooked tx a
    rw [got] at replied
    rw [replied.frame.1]
    exact h.unhooked
  pages := by
    have disk := lenient_disk.fetch tx ⟨file.table, n⟩ a s
    rw [got] at disk
    rw [disk, h.pages]

theorem Meets.asks (h : Meets sc.file count s) (inside : n < count) :
    Asks sc.file sc.tx count (sc.loadRequest n s) :=
  ⟨h, rfl, rfl, rfl, inside⟩

theorem PassesOver.meets (h : PassesOver sc numbers c s rs r c' s') (met : Meets sc.file count s) :
    Meets sc.file count s' := by
  induction h with
  | last => exact met
  | row => exact met
  | failed _ got => exact met.of_fetch got
  | read _ got _ ih => exact ih (met.of_fetch got)

theorem PassesOver.asks (h : PassesOver sc numbers c s rs r c' s') (met : Meets sc.file count s)
    (inside : ∀ n ∈ numbers, n < count) : ∀ request ∈ rs, Asks sc.file sc.tx count request := by
  induction h with
  | last => exact nofun
  | row => exact nofun
  | failed _ _ =>
      intro request hr
      obtain rfl := List.mem_singleton.mp hr
      exact met.asks (inside _ (List.mem_cons_self ..))
  | read _ got _ ih =>
      intro request hr
      rcases List.mem_cons.mp hr with rfl | later
      · exact met.asks (inside _ (List.mem_cons_self ..))
      · have rest := fun n hn => inside n (List.mem_cons_of_mem _ hn)
        exact ih (met.of_fetch got) rest request later

/-- The pages that follow in a file of `count` pages. -/
theorem Meets.inside (h : Meets file count s) (tx : TxId) (c : Cursor) :
    ∀ n ∈ pagesAfter ⟨file, tx, some c⟩ c.page s, n < count := by
  intro n hn
  have within := List.mem_range'_1.mp hn
  simp only [h.pages] at within
  omega

theorem Meets.asks_turn (h : Meets file count turn.before) (c : Cursor) :
    ∀ r ∈ requests ⟨file, tx, some c⟩ turn.before turn.request, Asks file tx count r := by
  obtain ⟨_, _, passes, _⟩ := turn.passesOver file tx c
  exact passes.asks h (h.inside tx c)

theorem Begins.meets (h : Begins sc s rs c s') (met : Meets sc.file count s) :
    Meets sc.file count s' := by
  cases h with
  | empty => exact met
  | read _ got => exact met.of_fetch got

theorem Opens.meets {sc₀ : Scan} {s₀ : Store} (h : sc₀.Opens s₀ sc s)
    (met : Meets sc₀.file count s₀) : Meets sc₀.file count s := by
  obtain ⟨_, _, begins⟩ := h.begins
  exact begins.meets met

theorem Opens.meets_after {sc₀ : Scan} {s₀ : Store} (h : sc₀.Opens s₀ sc s) (before : List Turn)
    (met : Meets sc₀.file count turn.before) :
    Meets sc₀.file count (turn.perform (sc.resumed before)).2 := by
  obtain ⟨_, rfl, begins⟩ := h.begins
  obtain ⟨c, here, _⟩ := begins.trail.resumed before sc₀.tx
  obtain ⟨_, _, passes, _⟩ := turn.passesOver sc₀.file sc₀.tx c
  rw [here]
  exact passes.meets met

theorem Begins.asks (h : Begins sc s rs c s') (met : Meets sc.file count s) :
    ∀ request ∈ rs, Asks sc.file sc.tx count request := by
  cases h with
  | empty => exact nofun
  | read some _ =>
      intro request hr
      obtain rfl := List.mem_singleton.mp hr
      exact met.asks (by rw [← met.pages]; exact Nat.pos_of_ne_zero some)

theorem Meets.asks_turns (h : ∀ turn ∈ turns, Meets file count turn.before) (c : Cursor) :
    ∀ r ∈ Scan.asked turns ⟨file, tx, some c⟩, Asks file tx count r := by
  induction turns generalizing c with
  | nil => exact nofun
  | cons turn turns ih =>
      intro r hr
      rw [Scan.asked, perform_of_cursor] at hr
      rcases List.mem_append.mp hr with now | later
      · exact (h turn (List.mem_cons_self ..)).asks_turn c r now
      · exact ih (fun turn ht => h turn (List.mem_cons_of_mem _ ht)) _ r later

/-- A page that is had at this request has the rows that are listed for it. -/
def Shows (rows : Nat → List (Option Row)) (r : PageRequest) : Prop :=
  r.rows.map Tuple.entry = r.uses.flatMap fun q => listing q (rows q.number)

theorem Asks.replied {p : HeapPage} (h : Asks file tx count request)
    (had : request.answer = .ok p) :
    Replied request.tx request.page request.access request.before (.ok p) request.after := by
  have unhooked : request.before.catalog.Unhooked request.page.table := h.table ▸ h.meets.unhooked
  have replied := replied_of_unhooked unhooked request.tx request.access
  rwa [show (fetch request.tx request.page request.access request.before).1 = _ from had] at replied

theorem Asks.shows (h : Asks file tx count request)
    (still : ∀ p, request.answer = .ok p → ∀ slots,
      request.before.slots request.page = .ok slots →
        slots.map (Option.map Tuple.row) = rows request.page.number) : Shows rows request := by
  rw [Shows]
  cases had : request.answer with
  | error e => rw [PageRequest.rows_of_error had, PageRequest.uses_of_error had]; rfl
  | ok p =>
      rw [PageRequest.rows_of_ok had, PageRequest.uses_of_ok had, List.flatMap_singleton]
      have made := (Delivers.fetch request.tx request.page request.access _
        h.meets.arises.coherent).2 p had
      rw [made.sound.listing_eq, made.id, still p had _ (h.replied had).slots]

/-- The rows of all pages, in the order of their places. -/
def allRows (table : TableId) (count : Nat) (rows : Nat → List (Option Row)) :
    List (Option RecordId × Row) :=
  (List.range count).flatMap fun n => listing ⟨table, n⟩ (rows n)

theorem rows_of_shows (shows : ∀ r ∈ asked, Shows rows r) :
    (asked.flatMap PageRequest.rows).map Tuple.entry =
      (asked.flatMap PageRequest.uses).flatMap fun q => listing q (rows q.number) := by
  rw [List.map_flatMap, List.flatMap_assoc]
  exact List.flatMap_congr shows

theorem page_of_mem_uses {q : PageId} (h : q ∈ request.uses) : q = request.page := by
  cases had : request.answer with
  | error e =>
      rw [PageRequest.uses_of_error had] at h
      cases h
  | ok p =>
      rw [PageRequest.uses_of_ok had] at h
      exact List.mem_singleton.mp h

/-- What has been read is the beginning of the file, and all of it if no page follows. -/
theorem Trail.listed {given : List Tuple} {s₀ : Store}
    (h : Trail file (origin file s₀) asked given c) (pages : file.numPages s₀.disk = count)
    (inside : ∀ r ∈ asked, r.page.number < count) (shows : ∀ r ∈ asked, Shows rows r) :
    (asked.flatMap PageRequest.rows).map Tuple.entry <+: allRows file.table count rows ∧
      (count ≤ c.page + 1 →
        (asked.flatMap PageRequest.rows).map Tuple.entry = allRows file.table count rows) := by
  obtain ⟨k, reached, read⟩ := h.pages
  have below (n : Nat) (hn : n ∈ List.range' (origin file s₀) k) : n < count := by
    obtain ⟨r, hr, used⟩ := List.mem_flatMap.mp (read ▸ List.mem_map_of_mem hn)
    have here := inside r hr
    rwa [← page_of_mem_uses used] at here
  have start : origin file s₀ = 0 ∨ origin file s₀ = 1 ∧ count = 0 := by
    rw [origin, pages]
    split
    · exact .inr ⟨rfl, ‹_›⟩
    · exact .inl rfl
  have few : List.range' (origin file s₀) k = List.range k ∧ k ≤ count := by
    cases k with
    | zero => exact ⟨rfl, Nat.zero_le _⟩
    | succ k =>
        have last := below (origin file s₀ + k) (List.mem_range'_1.mpr (by omega))
        rcases start with zero | ⟨_, none⟩
        · rw [zero] at last ⊢
          exact ⟨List.range_eq_range'.symm, by omega⟩
        · omega
  obtain ⟨first, le⟩ := few
  have rows_eq : (asked.flatMap PageRequest.rows).map Tuple.entry = allRows file.table k rows := by
    rw [rows_of_shows shows, read, first, List.flatMap_map]
    rfl
  rw [rows_eq]
  constructor
  · have begins : List.range k <+: List.range count := by
      obtain ⟨more, rfl⟩ := Nat.exists_eq_add_of_le le
      rw [List.range_add]
      exact List.prefix_append ..
    exact begins.flatMap _
  · intro all
    have : k = count := by omega
    rw [this]

/-- When no page follows, all pages have been read. -/
theorem Trail.read_of_end {given : List Tuple} {s₀ : Store}
    (h : Trail file (origin file s₀) asked given c) (pages : file.numPages s₀.disk = count)
    (reached : count ≤ c.page + 1) (inside : n < count) :
    ⟨file.table, n⟩ ∈ asked.flatMap PageRequest.uses := by
  obtain ⟨k, upto, read⟩ := h.pages
  have first : origin file s₀ = 0 := by
    rw [origin, pages, if_neg (by omega)]
  rw [first] at upto read
  rw [read]
  exact List.mem_map_of_mem (List.mem_range'_1.mpr (by omega))

theorem rows_of_end {reply : Reply} (h : reply.IsEnd) : reply.rows = [] := by
  rcases reply with _ | (_ | _ | t)
  · rfl
  · rfl
  · rfl
  · exact h.elim

/-- A scan that has come to its end stays there as long as no page is added. -/
theorem stays_at_end (tx : TxId) (used : c.rest = [])
    (all : file.numPages turn.before.disk ≤ c.page + 1) :
    (turn.perform ⟨file, tx, some c⟩).1.2 = ⟨file, tx, some c⟩ ∧
      (turn.perform ⟨file, tx, some c⟩).1.1.IsEnd := by
  have none : pagesAfter ⟨file, tx, some c⟩ c.page turn.before = [] := by
    simp only [pagesAfter, Nat.sub_eq_zero_of_le all, List.range'_zero]
  obtain ⟨n, rest⟩ := c
  obtain rfl : rest = [] := used
  rw [perform_of_cursor, none]
  cases turn <;> exact ⟨rfl, trivial⟩

theorem ends_from (used : c.rest = [])
    (all : ∀ turn ∈ turns, file.numPages turn.before.disk ≤ c.page + 1) :
    ∀ reply ∈ replies turns ⟨file, tx, some c⟩, reply.IsEnd := by
  induction turns with
  | nil => exact nofun
  | cons turn turns ih =>
      obtain ⟨same, ended⟩ := stays_at_end tx used (all turn (List.mem_cons_self ..))
      intro reply hr
      rw [replies, same] at hr
      rcases List.mem_cons.mp hr with rfl | later
      · exact ended
      · exact ih (fun turn ht => all turn (List.mem_cons_of_mem _ ht)) reply later

theorem PassesOver.failing {e : Error} (h : PassesOver sc numbers c s rs r c' s')
    (failed : r = .error e) : ∃ request ∈ rs, request.answer = .error e := by
  induction h with
  | last => cases failed
  | row => cases failed
  | failed _ got =>
      cases failed
      exact ⟨_, List.mem_singleton_self _, congrArg Prod.fst got⟩
  | read _ _ _ ih =>
      obtain ⟨request, later, answer⟩ := ih failed
      exact ⟨request, List.mem_cons_of_mem _ later, answer⟩

/-- A scan fails only with the error of a page that cannot be had. -/
theorem failing_of_error {e : Error}
    (failed : (turn.perform ⟨file, tx, some c⟩).1.1.error? = some e) :
    ∃ request ∈ requests ⟨file, tx, some c⟩ turn.before turn.request,
      request.answer = .error e := by
  obtain ⟨r, c', passes, outcome⟩ := turn.passesOver file tx c
  rw [outcome] at failed
  apply passes.failing
  rcases r with e' | _ | _
  · cases turn <;> cases failed <;> rfl
  · cases turn <;> cases failed
  · obtain ⟨n, _ | ⟨t, rest⟩⟩ := c' <;> cases turn <;> cases failed

/-- From turn to turn the transaction of the scan keeps its locks. -/
def Undisturbed : List Turn → Scan → Store → Prop
  | [], _, _ => True
  | turn :: turns, sc, s =>
    (∀ q m, s.pool.locks.Has sc.tx q m → turn.before.pool.locks.Has sc.tx q m) ∧
      Undisturbed turns (turn.perform sc).1.2 (turn.perform sc).2

/-- The pages that were locked before stay locked, and so is the one that is had. -/
theorem Asks.locked (h : Asks file tx count request)
    (held : ∀ q ∈ pages, request.before.pool.locks.Has tx q .shared) :
    ∀ q ∈ pages ++ request.uses, request.after.pool.locks.Has tx q .shared := by
  intro q hq
  rcases List.mem_append.mp hq with earlier | used
  · exact retaining.fetch request.tx request.page request.access _ tx q .shared (held q earlier)
  · cases had : request.answer with
    | error e =>
        rw [PageRequest.uses_of_error had] at used
        cases used
    | ok p =>
        have acquired := (h.replied had).acquired_of_ok
        rw [h.tx, h.access, ← page_of_mem_uses used] at acquired
        exact LockTable.has_of_acquire? acquired

theorem PassesOver.locked (h : PassesOver sc numbers c s rs r c' s') (met : Meets sc.file count s)
    (inside : ∀ n ∈ numbers, n < count) (held : ∀ q ∈ pages, s.pool.locks.Has sc.tx q .shared) :
    ∀ q ∈ pages ++ rs.flatMap PageRequest.uses, s'.pool.locks.Has sc.tx q .shared := by
  induction h generalizing pages with
  | last => simpa using held
  | row => simpa using held
  | @failed n _ _ s s₁ _ _ got =>
      have locked := (met.asks (inside n (List.mem_cons_self ..))).locked held
      have after : (sc.loadRequest n s).after = s₁ := congrArg Prod.snd got
      rwa [after, ← List.flatMap_singleton PageRequest.uses] at locked
  | @read n _ _ _ s s₁ _ _ _ _ _ got _ ih =>
      have locked := (met.asks (inside n (List.mem_cons_self ..))).locked held
      have after : (sc.loadRequest n s).after = s₁ := congrArg Prod.snd got
      rw [after] at locked
      have rest := fun n hn => inside n (List.mem_cons_of_mem _ hn)
      have all := ih (met.of_fetch got) rest locked
      rwa [List.append_assoc, ← List.flatMap_cons] at all

theorem Begins.locked (h : Begins sc s rs c s') (met : Meets sc.file count s) :
    ∀ q ∈ rs.flatMap PageRequest.uses, s'.pool.locks.Has sc.tx q .shared := by
  have asks := h.asks met
  cases h with
  | empty => exact nofun
  | @read _ _ _ got =>
      have none : ∀ q ∈ ([] : List PageId), s.pool.locks.Has sc.tx q .shared := nofun
      have locked := (asks _ (List.mem_singleton_self _)).locked none
      have after : (sc.loadRequest 0 s).after = s' := congrArg Prod.snd got
      rwa [after, List.nil_append, ← List.flatMap_singleton PageRequest.uses] at locked

/-- After the last turn the pages that have been read on the way are locked. -/
theorem locked_after (met : ∀ t ∈ before ++ [turn], Meets file count t.before)
    (quiet : Undisturbed (before ++ turn :: later) ⟨file, tx, some c⟩ s)
    (held : ∀ q ∈ pages, s.pool.locks.Has tx q .shared) :
    ∀ q ∈ pages ++ (Scan.asked (before ++ [turn]) ⟨file, tx, some c⟩).flatMap PageRequest.uses,
      (turn.perform (resumed before ⟨file, tx, some c⟩)).2.pool.locks.Has tx q .shared := by
  induction before generalizing c s pages with
  | nil =>
      obtain ⟨_, _, passes, _⟩ := turn.passesOver file tx c
      have met := met turn (List.mem_cons_self ..)
      have locked := passes.locked met (met.inside tx c) fun q hq =>
        quiet.1 q .shared (held q hq)
      simpa only [Scan.asked, resumed, List.nil_append, List.append_nil] using locked
  | cons turn₀ before ih =>
      obtain ⟨_, _, passes, outcome⟩ := turn₀.passesOver file tx c
      have met₀ := met turn₀ (List.mem_cons_self ..)
      have locked := passes.locked met₀ (met₀.inside tx c) fun q hq =>
        quiet.1 q .shared (held q hq)
      have quiet := quiet.2
      rw [outcome] at quiet
      have rest := ih (fun t ht => met t (List.mem_cons_of_mem _ ht)) quiet locked
      rw [List.cons_append, Scan.asked, resumed, outcome, List.flatMap_append, ← List.append_assoc]
      exact rest

/-- While a scan goes on its file has `count` pages, and whenever a page is asked for and had, its
rows are these. What it has when it cannot be had is of no concern: it may leave the cache until it
is asked for again, and be read with its strings cut. -/
structure Steady (sc₀ : Scan) (s₀ : Store) (sc : Scan) (turns : List Turn) (count : Nat)
    (rows : Nat → List (Option Row)) : Prop where
  begins : Meets sc₀.file count s₀
  meets : ∀ turn ∈ turns, Meets sc₀.file count turn.before
  same : ∀ r ∈ sc₀.requests s₀ .start ++ sc.asked turns, ∀ p, r.answer = .ok p →
    ∀ slots, r.before.slots r.page = .ok slots →
      slots.map (Option.map Tuple.row) = rows r.page.number

/-- After some of the turns, what has been given out and what is at hand begins the list of all
rows, and is all of it if no page follows. -/
theorem Steady.listed {sc₀ : Scan} {s₀ : Store} (h : Steady sc₀ s₀ sc turns count rows)
    (opens : sc₀.Opens s₀ sc s) {now later : List Turn} (split : turns = now ++ later) :
    ∃ c, sc.resumed now = ⟨sc₀.file, sc₀.tx, some c⟩ ∧
      Trail sc₀.file (origin sc₀.file s₀) (sc₀.requests s₀ .start ++ sc.asked now)
        (sc.given now) c ∧
      (sc.given now ++ c.rest).map Tuple.entry <+: allRows sc₀.file.table count rows ∧
      (count ≤ c.page + 1 →
        (sc.given now ++ c.rest).map Tuple.entry = allRows sc₀.file.table count rows) := by
  obtain ⟨c₀, rfl, begins⟩ := opens.begins
  obtain ⟨c, here, trail⟩ := begins.trail.resumed now sc₀.tx
  rw [List.nil_append] at trail
  refine ⟨c, here, trail, ?_⟩
  have asks : ∀ r ∈ sc₀.requests s₀ .start ++ Scan.asked now ⟨sc₀.file, sc₀.tx, some c₀⟩,
      Asks sc₀.file sc₀.tx count r := by
    intro r hr
    rcases List.mem_append.mp hr with first | later
    · exact begins.asks h.begins r first
    · exact Meets.asks_turns (fun t ht => h.meets t (split ▸ List.mem_append_left _ ht)) c₀ r later
  have shows : ∀ r ∈ sc₀.requests s₀ .start ++ Scan.asked now ⟨sc₀.file, sc₀.tx, some c₀⟩,
      Shows rows r := by
    intro r hr
    apply (asks r hr).shows
    apply h.same r
    rw [split, asked_append, ← List.append_assoc]
    exact List.mem_append_left _ hr
  rw [trail.rows]
  exact trail.listed h.begins.pages (fun r hr => (asks r hr).inside) shows

/-- A turn that gives out no row. -/
theorem given_of_idle (idle : (turn.perform (Scan.resumed before sc)).1.1.rows = []) :
    Scan.given (before ++ [turn]) sc = Scan.given before sc := by
  rw [given_append]
  simp only [given, replies, List.flatMap_singleton, idle, List.append_nil]

/-- The row at hand is the one that follows in the list, and is given out next. -/
theorem row_at_hand {all : List (Option RecordId × Row)} {given : List Tuple} (left : c.rest ≠ [])
    (listed : (given ++ c.rest).map Tuple.entry <+: all) :
    ∃ t, all[given.length]? = some t.entry ∧
      ∀ s', ((Turn.next s').perform ⟨file, tx, some c⟩).1.1 = .row (.ok (some t)) := by
  obtain ⟨n, _ | ⟨t, rest⟩⟩ := c
  · exact absurd rfl left
  · refine ⟨t, ?_, fun s' => by rw [Turn.perform, next_of_row]⟩
    obtain ⟨others, rfl⟩ := listed
    simp

/-- While a file keeps its length and its pages keep their rows, a scan of it gives out the rows of
all pages in order, each with its place, however often it fails for want of a page and is tried
again. That there is another row is said only when the next one is at hand, and that there is none
only when all are given out; by then all pages are locked, and that is the answer ever after. -/
theorem scan_is_complete {sc₀ : Scan} {s₀ : Store} (opens : sc₀.Opens s₀ sc s)
    (steady : Steady sc₀ s₀ sc turns count rows) :
    let all := allRows sc₀.file.table count rows
    (sc.given turns).map Tuple.entry <+: all ∧
    ∀ before turn later, turns = before ++ turn :: later →
      let now := sc.resumed before
      let reply := (turn.perform now).1.1
      let after := (turn.perform now).1.2
      (∀ e, reply.error? = some e →
        ∃ r ∈ now.requests turn.before turn.request, r.answer = .error e) ∧
      (reply = .more (.ok true) → ∃ t, all[(sc.given before).length]? = some t.entry ∧
        ∀ s', ((Turn.next s').perform after).1.1 = .row (.ok (some t))) ∧
      (reply.IsEnd → (sc.given before).map Tuple.entry = all ∧
        (∀ reply' ∈ after.replies later, reply'.IsEnd) ∧
        (Undisturbed turns sc s → ∀ n < count,
          (turn.perform now).2.pool.locks.Has sc₀.tx ⟨sc₀.file.table, n⟩ .shared)) := by
  intro all
  constructor
  · obtain ⟨c, _, _, listed, _⟩ := steady.listed opens (List.append_nil turns).symm
    rw [List.map_append] at listed
    exact (List.prefix_append ..).trans listed
  · rintro before turn later rfl
    have split : before ++ turn :: later = (before ++ [turn]) ++ later := by simp
    obtain ⟨c₁, here, _⟩ := steady.listed opens rfl
    obtain ⟨c₂, there, trail, listed, full⟩ := steady.listed opens split
    obtain ⟨c₀, rfl, begins⟩ := opens.begins
    obtain ⟨more, ended⟩ := begins.trail.stands there
    have after : (turn.perform (Scan.resumed before ⟨sc₀.file, sc₀.tx, some c₀⟩)).1.2 =
        ⟨sc₀.file, sc₀.tx, some c₂⟩ := by
      rw [← there, resumed_append]
      rfl
    refine ⟨?_, ?_, ?_⟩
    · intro e failed
      rw [here] at failed ⊢
      exact failing_of_error failed
    · intro reply
      rw [given_of_idle (congrArg Reply.rows reply)] at listed
      rw [after]
      exact row_at_hand (more reply) listed
    · intro reply
      obtain ⟨used, last⟩ := ended reply
      rw [given_of_idle (rows_of_end reply), used, List.append_nil] at full
      have reached : count ≤ c₂.page + 1 := by
        rwa [steady.meets turn (List.mem_append_right _ (List.mem_cons_self ..)) |>.pages] at last
      refine ⟨full reached, ?_, fun quiet n inside => ?_⟩
      · rw [after]
        apply ends_from used
        intro turn' ht
        rwa [(steady.meets turn' (by simp [ht])).pages]
      · have met : ∀ t ∈ before ++ [turn], Meets sc₀.file count t.before := fun t ht =>
          steady.meets t (split ▸ List.mem_append_left _ ht)
        have locked := locked_after met quiet (begins.locked steady.begins)
        rw [← List.flatMap_append] at locked
        apply locked
        exact trail.read_of_end steady.begins.pages reached inside

/-- Two pages with a row on each. -/
def rowOnEachPage : Store :=
  sample (Bytes.resize [1] pageSize ++ Bytes.resize [1] pageSize) 1 Nat.one_pos

/-- The same store on a medium that may fail. -/
def onMedium (faults : Faults TableId) (s : Store) : Store :=
  { s with disk := { s.disk with faults } }

theorem Meets.onMedium (h : Meets file count s) (faults : Faults TableId) :
    Meets file count (onMedium faults s) :=
  ⟨h.arises.elsewhere h.arises.coherent.catalog _ s.parked, h.unhooked, h.pages⟩

/-- The second page cannot be read at first, and then it can. -/
theorem interrupted_scan_is_complete :
    let sc₀ : Scan := ⟨sampleEntry.file, ⟨1⟩, none⟩
    let opened := sc₀.start Store.fetch rowOnEachPage
    let first := Turn.next (onMedium { read := fun _ offset => offset == pageSize } opened.2)
    let second := Turn.next (first.perform opened.1.2).2
    let third := Turn.next (onMedium {} (second.perform (opened.1.2.resumed [first])).2)
    let fourth := Turn.hasNext (third.perform (opened.1.2.resumed [first, second])).2
    let rows := fun _ => some [some (.string "")] :: List.replicate 30 none
    (opened.1.2.replies [first, second, third, fourth]).map Reply.error? =
        [none, some (.io .refused), none, none] ∧
      (opened.1.2.given [first, second, third]).map Tuple.entry = allRows (.file 0) 2 rows ∧
      ∀ n < 2, (fourth.perform (opened.1.2.resumed [first, second, third])).2.pool.locks.Has ⟨1⟩
        ⟨.file 0, n⟩ .shared := by
  intro sc₀ opened first second third fourth rows
  obtain ⟨well, pages, errors, ended, same⟩ : opened.1.1 = .ok () ∧
      sampleEntry.file.numPages rowOnEachPage.disk = 2 ∧
      (opened.1.2.replies [first, second, third, fourth]).map Reply.error? =
        [none, some (.io .refused), none, none] ∧
      (hasNext Store.fetch (opened.1.2.resumed [first, second, third]) fourth.before).1.1 =
        .ok false ∧
      ∀ r ∈ sc₀.requests rowOnEachPage .start ++ opened.1.2.asked [first, second, third, fourth],
        ∀ slots ∈ (r.before.slots r.page).toOption,
          slots.map (Option.map Tuple.row) = rows r.page.number := by
    decide +kernel
  have opens : sc₀.Opens rowOnEachPage opened.1.2 opened.2 :=
    .inl (Prod.ext (Prod.ext well rfl) rfl)
  have met₀ : Meets sampleEntry.file 2 rowOnEachPage :=
    ⟨arises_sample Nat.one_pos (by decide),
      (opened_sample Nat.one_pos (by decide)).plain.unhooked _, pages⟩
  have met₁ : Meets sampleEntry.file 2 first.before := (opens.meets met₀).onMedium _
  have met₂ : Meets sampleEntry.file 2 second.before := opens.meets_after [] met₁
  have met₃ : Meets sampleEntry.file 2 third.before := (opens.meets_after [first] met₂).onMedium _
  have met₄ : Meets sampleEntry.file 2 fourth.before := opens.meets_after [first, second] met₃
  have steady : Steady sc₀ rowOnEachPage opened.1.2 [first, second, third, fourth] 2 rows := by
    constructor
    case begins => exact met₀
    case meets =>
      intro turn ht
      simp only [List.mem_cons, List.not_mem_nil, or_false] at ht
      rcases ht with rfl | rfl | rfl | rfl
      · exact met₁
      · exact met₂
      · exact met₃
      · exact met₄
    case same =>
      intro r hr _ _ slots had
      exact same r hr slots (by rw [had]; rfl)
  obtain ⟨_, all⟩ := scan_is_complete opens steady
  obtain ⟨_, _, done⟩ := all [first, second, third] fourth [] rfl
  have reply : (fourth.perform (opened.1.2.resumed [first, second, third])).1.1 =
      .more (.ok false) := congrArg Reply.more ended
  obtain ⟨given, _, locked⟩ := done (by rw [reply]; trivial)
  have quiet : Undisturbed [first, second, third, fourth] opened.1.2 opened.2 :=
    ⟨fun _ _ h => h, fun _ _ h => h, fun _ _ h => h, fun _ _ h => h, trivial⟩
  exact ⟨errors, given, locked quiet⟩

end Scan
end HeapStore
