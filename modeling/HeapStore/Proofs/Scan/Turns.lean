import HeapStore.Proofs.Scan
import HeapStore.Proofs.Store.Climb
import HeapStore.Scan.Turn

/-!
How far a scan is, turn after turn, whatever becomes of the store in between. The pages that it has
read are consecutive, and what it has given out, with what it has at hand, are the rows of these
pages as they were read. A page is asked for only when no row of the pages before is left.
-/

namespace HeapStore

namespace PageRequest
variable {request : PageRequest} {p : HeapPage} {e : Error}

theorem uses_of_ok (had : request.answer = .ok p) : request.uses = [request.page] := by
  rw [uses, had]

theorem rows_of_ok (had : request.answer = .ok p) : request.rows = p.tuples := by
  rw [rows, had]

theorem uses_of_error (failed : request.answer = .error e) : request.uses = [] := by
  rw [uses, failed]

theorem rows_of_error (failed : request.answer = .error e) : request.rows = [] := by
  rw [rows, failed]

end PageRequest

namespace Scan
open Store
variable {file : HeapFile} {tx : TxId} {sc sc' : Scan} {c c' : Cursor} {s s' : Store}
  {rs asked : List PageRequest} {given : List Tuple} {t : Tuple} {turn : Turn} {turns : List Turn}
  {first last n : Nat} {r : Except Error Bool} {request : PageRequest}

/-- How a scan passes over the pages numbered `numbers`, with its requests. It stops at a row, at a
page that cannot be had, or when no page is left. -/
inductive PassesOver (sc : Scan) : List Nat → Cursor → Store → List PageRequest →
    Except Error Bool → Cursor → Store → Prop
  | last {c : Cursor} {s : Store} : PassesOver sc [] c s [] (.ok !c.rest.isEmpty) c s
  | row {n : Nat} {numbers : List Nat} {c : Cursor} {s : Store} (left : c.rest ≠ []) :
      PassesOver sc (n :: numbers) c s [] (.ok true) c s
  | failed {n : Nat} {numbers : List Nat} {c : Cursor} {s s' : Store} {e : Error}
      (used : c.rest = [])
      (got : Store.fetch sc.tx ⟨sc.file.table, n⟩ .readOnly s = (.error e, s')) :
      PassesOver sc (n :: numbers) c s [sc.loadRequest n s] (.error e) c s'
  | read {n : Nat} {numbers : List Nat} {c c' : Cursor} {s s₁ s' : Store} {p : HeapPage}
      {rs : List PageRequest} {r : Except Error Bool} (used : c.rest = [])
      (got : Store.fetch sc.tx ⟨sc.file.table, n⟩ .readOnly s = (.ok p, s₁))
      (rest : PassesOver sc numbers ⟨n, p.tuples⟩ s₁ rs r c' s') :
      PassesOver sc (n :: numbers) c s (sc.loadRequest n s :: rs) r c' s'

theorem passesOver_of_advance (sc : Scan) (numbers : List Nat) (c : Cursor) (s : Store) :
    PassesOver sc numbers c s (sc.advanceRequests numbers c s)
      (sc.advance Store.fetch numbers c s).1.1 (sc.advance Store.fetch numbers c s).1.2
      (sc.advance Store.fetch numbers c s).2 := by
  induction numbers generalizing c s with
  | nil => exact .last
  | cons n numbers ih =>
      by_cases used : c.rest = []
      case neg =>
        have left : c.rest.isEmpty = false := by simpa using used
        simp only [advance, advanceRequests, left]
        exact .row used
      case pos =>
        simp only [advance, advanceRequests, used, List.isEmpty_nil, if_true, bind_run, ExceptT.run,
          load, bind_apply, loadRequest, PageRequest.answer, PageRequest.after]
        cases got : Store.fetch sc.tx ⟨sc.file.table, n⟩ .readOnly s with
        | mk answer s₁ =>
        cases answer with
        | error e => exact .failed used got
        | ok p => exact .read used got (ih ⟨n, p.tuples⟩ s₁)

/-- What it comes to if a scan that stands at `c`, in a file of `last` pages, passes over pages
until it has a row at hand. -/
structure Passed (file : HeapFile) (last : Nat) (c : Cursor) (rs : List PageRequest)
    (r : Except Error Bool) (c' : Cursor) : Prop where
  pages : ∃ k, c'.page = c.page + k ∧
    rs.flatMap PageRequest.uses = (List.range' (c.page + 1) k).map (PageId.mk file.table)
  rows : c'.rest = c.rest ++ rs.flatMap PageRequest.rows
  waits : ∀ before r after, rs = before ++ r :: after →
    c.rest ++ before.flatMap PageRequest.rows = []
  more : r = .ok true → c'.rest ≠ []
  ended : r = .ok false → c'.rest = [] ∧ last ≤ c'.page + 1

theorem Passed.stay (more : r = .ok true → c.rest ≠ [])
    (ended : r = .ok false → c.rest = [] ∧ last ≤ c.page + 1) : Passed file last c [] r c where
  pages := ⟨0, rfl, rfl⟩
  rows := (List.append_nil _).symm
  waits _ _ _ none := by simp at none
  more := more
  ended := ended

theorem Passed.failed {e : Error} (empty : c.rest = []) (failed : request.answer = .error e) :
    Passed file last c [request] (.error e) c := by
  constructor
  case pages => exact ⟨0, rfl, by simp [PageRequest.uses_of_error failed]⟩
  case rows => simp [PageRequest.rows_of_error failed]
  case waits =>
    intro before r after split
    obtain ⟨rfl, _⟩ := (List.singleton_eq_append_iff.mp split).resolve_right (by simp)
    simpa using empty
  case more => exact nofun
  case ended => exact nofun

/-- The page that follows is read, and its rows are at hand then. -/
theorem Passed.read {p : HeapPage} (empty : c.rest = [])
    (page : request.page = ⟨file.table, c.page + 1⟩) (had : request.answer = .ok p)
    (h : Passed file last ⟨c.page + 1, p.tuples⟩ rs r c') :
    Passed file last c (request :: rs) r c' := by
  have rows := PageRequest.rows_of_ok had
  obtain ⟨k, reached, pages⟩ := h.pages
  constructor
  case pages =>
    refine ⟨k + 1, by simp only [reached]; omega, ?_⟩
    rw [List.flatMap_cons, PageRequest.uses_of_ok had, page, pages, List.range'_succ]
    rfl
  case rows => rw [h.rows, empty, List.flatMap_cons, rows, List.nil_append]
  case waits =>
    intro before r after split
    cases before with
    | nil => simpa using empty
    | cons r₀ before =>
        obtain ⟨rfl, later⟩ := List.cons.inj split
        rw [empty, List.flatMap_cons, rows, List.nil_append]
        exact h.waits before r after later
  case more => exact h.more
  case ended => exact h.ended

theorem PassesOver.passed {k : Nat} {numbers : List Nat}
    (h : PassesOver sc numbers c s rs r c' s') (following : numbers = List.range' (c.page + 1) k)
    (full : last - (c.page + 1) = k) : Passed sc.file last c rs r c' := by
  induction h generalizing k with
  | @last c _ =>
      have reached : k = 0 := List.range'_eq_nil_iff.mp following.symm
      apply Passed.stay
      · intro more
        simpa using more
      · intro ended
        exact ⟨by simpa using ended, by omega⟩
  | row left => exact .stay (fun _ => left) nofun
  | failed used got => exact .failed used (by rw [PageRequest.answer, loadRequest, got])
  | @read n numbers c _ _ _ _ p _ _ used got _ ih =>
      cases k with
      | zero => cases following
      | succ k =>
          rw [List.range'_succ] at following
          obtain ⟨rfl, beyond⟩ := List.cons.inj following
          exact .read used rfl (by rw [PageRequest.answer, loadRequest, got])
            (ih beyond (by simp only; omega))

/-- How far a scan is that began with page `first`, has asked for these pages and given out these
rows, and stands at `c`. -/
structure Trail (file : HeapFile) (first : Nat) (asked : List PageRequest) (given : List Tuple)
    (c : Cursor) : Prop where
  pages : ∃ k, first + k = c.page + 1 ∧
    asked.flatMap PageRequest.uses = (List.range' first k).map (PageId.mk file.table)
  rows : given ++ c.rest = asked.flatMap PageRequest.rows
  waits : ∀ before r after, asked = before ++ r :: after →
    before.flatMap PageRequest.rows <+: given

theorem Trail.given_prefix (h : Trail file first asked given c) :
    given <+: asked.flatMap PageRequest.rows :=
  ⟨c.rest, h.rows⟩

theorem Trail.passed (h : Trail file first asked given c) (passed : Passed file last c rs r c') :
    Trail file first (asked ++ rs) given c' where
  pages := by
    obtain ⟨k, reached, pages⟩ := h.pages
    obtain ⟨k', reached', pages'⟩ := passed.pages
    refine ⟨k + k', by omega, ?_⟩
    rw [List.flatMap_append, pages, pages', ← reached, ← List.map_append, List.range'_append_1]
  rows := by
    rw [passed.rows, ← List.append_assoc, h.rows, List.flatMap_append]
  waits before r after split := by
    have now (more : List PageRequest) (rest : rs = more ++ r :: after) :
        (asked ++ more).flatMap PageRequest.rows <+: given := by
      have used := passed.waits more r after rest
      have all : (asked ++ more).flatMap PageRequest.rows = given := by
        rw [List.flatMap_append, ← h.rows, List.append_assoc, used, List.append_nil]
      exact ⟨[], (List.append_nil _).trans all⟩
    rcases List.append_eq_append_iff.mp split with ⟨more, rfl, rest⟩ | ⟨more, earlier, rest⟩
    · exact now more rest
    · cases more with
      | nil =>
          rw [List.append_nil] at earlier
          subst earlier
          simpa using now [] rest.symm
      | cons r' more =>
          obtain ⟨rfl, _⟩ := List.cons.inj rest
          exact h.waits before r more earlier

/-- The row that is given out is one that was at hand. -/
theorem Trail.take {rest : List Tuple} (h : Trail file first asked given ⟨n, t :: rest⟩) :
    Trail file first asked (given ++ [t]) ⟨n, rest⟩ where
  pages := h.pages
  rows := by rw [List.append_assoc, List.singleton_append, ← h.rows]
  waits before r after split := (h.waits before r after split).trans (List.prefix_append ..)

/-- What is replied when pages have been passed over, and where the scan stands then. -/
def Turn.settle : Turn → Except Error Bool → Cursor → Reply × Cursor
  | hasNext _, r, c => (.more r, c)
  | next _, .error e, c => (.row (.error e), c)
  | next _, .ok true, ⟨n, t :: rest⟩ => (.row (.ok (some t)), ⟨n, rest⟩)
  | next _, .ok _, c => (.row (.ok none), c)

theorem hasNext_of_cursor (here : sc.cursor = some c) (s : Store) :
    sc.hasNext Store.fetch s =
      let outcome := sc.advance Store.fetch (sc.pagesAfter c.page s) c s
      ((outcome.1.1, { sc with cursor := some outcome.1.2 }), outcome.2) := by
  have hget : (get : StateM Store Store) s = (s, s) := rfl
  simp only [hasNext, here, bind_run, hget]
  rfl

theorem perform_of_cursor (turn : Turn) (file : HeapFile) (tx : TxId) (c : Cursor) :
    turn.perform ⟨file, tx, some c⟩ =
      let outcome := advance Store.fetch ⟨file, tx, some c⟩
        (pagesAfter ⟨file, tx, some c⟩ c.page turn.before) c turn.before
      let (reply, c') := turn.settle outcome.1.1 outcome.1.2
      ((reply, ⟨file, tx, some c'⟩), outcome.2) := by
  have here : (⟨file, tx, some c⟩ : Scan).cursor = some c := rfl
  cases turn with
  | hasNext s =>
      rw [Turn.perform, hasNext_of_cursor here]
      rfl
  | next s =>
      rw [Turn.perform, next_of_cursor here]
      simp only [Turn.before]
      generalize advance Store.fetch ⟨file, tx, some c⟩ _ c s = outcome
      obtain ⟨⟨_ | _ | _, ⟨n, _ | ⟨t, rest⟩⟩⟩, s₁⟩ := outcome <;> rfl

/-- At each turn the scan passes over the pages that follow, and settles what it replies. -/
theorem Turn.passesOver (turn : Turn) (file : HeapFile) (tx : TxId) (c : Cursor) :
    ∃ r c', PassesOver ⟨file, tx, some c⟩ (pagesAfter ⟨file, tx, some c⟩ c.page turn.before) c
        turn.before (requests ⟨file, tx, some c⟩ turn.before turn.request) r c'
        (turn.perform ⟨file, tx, some c⟩).2 ∧
      (turn.perform ⟨file, tx, some c⟩).1 =
        ((turn.settle r c').1, ⟨file, tx, some (turn.settle r c').2⟩) := by
  have passes := passesOver_of_advance ⟨file, tx, some c⟩
    (pagesAfter ⟨file, tx, some c⟩ c.page turn.before) c turn.before
  have requests : requests ⟨file, tx, some c⟩ turn.before turn.request =
      advanceRequests ⟨file, tx, some c⟩ (pagesAfter ⟨file, tx, some c⟩ c.page turn.before) c
        turn.before := by
    cases turn <;> rfl
  rw [requests, perform_of_cursor]
  exact ⟨_, _, passes, rfl⟩

/-- What a turn comes to: the scan is as far as it says. -/
structure Turned (file : HeapFile) (first : Nat) (asked : List PageRequest) (given : List Tuple)
    (turn : Turn) (reply : Reply) (c : Cursor) : Prop where
  trail : Trail file first asked (given ++ reply.rows) c
  more : reply = .more (.ok true) → c.rest ≠ []
  ended : reply.IsEnd → c.rest = [] ∧ file.numPages turn.before.disk ≤ c.page + 1

theorem Trail.settled (h : Trail file first asked given c) (turn : Turn)
    (passed : Passed file (file.numPages turn.before.disk) c rs r c') :
    Turned file first (asked ++ rs) given turn (turn.settle r c').1 (turn.settle r c').2 := by
  have trail := h.passed passed
  have stays : Trail file first (asked ++ rs) (given ++ []) c' := by rwa [List.append_nil]
  cases turn with
  | hasNext s =>
      constructor
      case trail => exact stays
      case more =>
        intro more
        exact passed.more (Reply.more.inj more)
      case ended =>
        intro ended
        rcases r with _ | _ | _
        · exact ended.elim
        · exact passed.ended rfl
        · exact ended.elim
  | next s =>
      rcases r with e | _ | _
      · exact ⟨stays, nofun, False.elim⟩
      · exact ⟨stays, nofun, fun _ => passed.ended rfl⟩
      · obtain ⟨n, _ | ⟨t, rest⟩⟩ := c'
        · exact absurd rfl (passed.more rfl)
        · exact ⟨trail.take, nofun, False.elim⟩

theorem resumed_append (before later : List Turn) (sc : Scan) :
    sc.resumed (before ++ later) = (sc.resumed before).resumed later := by
  induction before generalizing sc with
  | nil => rfl
  | cons turn before ih => exact ih _

theorem replies_append (before later : List Turn) (sc : Scan) :
    sc.replies (before ++ later) = sc.replies before ++ (sc.resumed before).replies later := by
  induction before generalizing sc with
  | nil => rfl
  | cons turn before ih => exact congrArg _ (ih _)

theorem given_append (before later : List Turn) (sc : Scan) :
    sc.given (before ++ later) = sc.given before ++ (sc.resumed before).given later := by
  rw [given, replies_append, List.flatMap_append]
  rfl

theorem asked_append (before later : List Turn) (sc : Scan) :
    sc.asked (before ++ later) = sc.asked before ++ (sc.resumed before).asked later := by
  induction before generalizing sc with
  | nil => rfl
  | cons turn before ih => simp only [List.cons_append, asked, ih, resumed, List.append_assoc]

theorem Trail.turned (h : Trail file first asked given c) (turn : Turn) (tx : TxId) :
    ∃ c', (turn.perform ⟨file, tx, some c⟩).1.2 = ⟨file, tx, some c'⟩ ∧
      Turned file first (asked ++ requests ⟨file, tx, some c⟩ turn.before turn.request) given turn
        (turn.perform ⟨file, tx, some c⟩).1.1 c' := by
  obtain ⟨r, c', passes, outcome⟩ := turn.passesOver file tx c
  rw [outcome]
  exact ⟨_, rfl, h.settled turn (passes.passed rfl rfl)⟩

theorem Trail.resumed (h : Trail file first asked given c) (turns : List Turn) (tx : TxId) :
    ∃ c', Scan.resumed turns ⟨file, tx, some c⟩ = ⟨file, tx, some c'⟩ ∧
      Trail file first (asked ++ Scan.asked turns ⟨file, tx, some c⟩)
        (given ++ Scan.given turns ⟨file, tx, some c⟩) c' := by
  induction turns generalizing asked given c with
  | nil => exact ⟨c, rfl, by simpa [Scan.asked, Scan.given, replies] using h⟩
  | cons turn turns ih =>
      obtain ⟨c₁, scan, turned⟩ := h.turned turn tx
      obtain ⟨c', scan', trail⟩ := ih turned.trail
      refine ⟨c', ?_, ?_⟩
      · rw [Scan.resumed, scan, scan']
      · rw [Scan.asked, Scan.given, replies, scan, List.flatMap_cons, ← List.append_assoc,
          ← List.append_assoc]
        exact trail

/-- What the last turn tells of where the scan stands then. -/
theorem Trail.stands (h : Trail file first asked given c) {before : List Turn}
    (here : Scan.resumed (before ++ [turn]) ⟨file, tx, some c⟩ = ⟨file, tx, some c'⟩) :
    ((turn.perform (Scan.resumed before ⟨file, tx, some c⟩)).1.1 = .more (.ok true) →
      c'.rest ≠ []) ∧
    ((turn.perform (Scan.resumed before ⟨file, tx, some c⟩)).1.1.IsEnd →
      c'.rest = [] ∧ file.numPages turn.before.disk ≤ c'.page + 1) := by
  obtain ⟨c₁, scan, trail⟩ := h.resumed before tx
  obtain ⟨c₂, after, turned⟩ := trail.turned turn tx
  rw [resumed_append, scan, Scan.resumed, after] at here
  cases here
  rw [scan]
  exact ⟨turned.more, turned.ended⟩

/-- The page that a scan begins with. In an empty file it stands on the first one as if it had been
read, and does not come back to it. -/
def origin (file : HeapFile) (s : Store) : Nat :=
  if file.numPages s.disk = 0 then 1 else 0

/-- The scan is opened, or goes back to where it was opened. -/
def Opens (sc₀ : Scan) (s₀ : Store) (sc : Scan) (s : Store) : Prop :=
  sc₀.start Store.fetch s₀ = ((.ok (), sc), s) ∨ sc₀.rewind Store.fetch s₀ = ((.ok (), sc), s)

/-- How a scan begins, with its requests. An empty file has no page to read. -/
inductive Begins (sc : Scan) : Store → List PageRequest → Cursor → Store → Prop
  | empty {s : Store} (none : sc.file.numPages s.disk = 0) : Begins sc s [] ⟨0, []⟩ s
  | read {s s' : Store} {p : HeapPage} (some : sc.file.numPages s.disk ≠ 0)
      (got : Store.fetch sc.tx ⟨sc.file.table, 0⟩ .readOnly s = (.ok p, s')) :
      Begins sc s [sc.loadRequest 0 s] ⟨0, p.tuples⟩ s'

theorem begins_of_start {sc₀ : Scan} {s₀ : Store}
    (opened : sc₀.start Store.fetch s₀ = ((.ok (), sc), s)) :
    ∃ c, sc = ⟨sc₀.file, sc₀.tx, some c⟩ ∧ Begins sc₀ s₀ (sc₀.requests s₀ .start) c s := by
  rw [start_apply] at opened
  rw [requests]
  split at opened
  next none =>
    cases opened
    rw [if_pos none]
    exact ⟨_, rfl, .empty none⟩
  next pages =>
    rw [if_neg pages]
    cases got : Store.fetch sc₀.tx ⟨sc₀.file.table, 0⟩ .readOnly s₀ with
    | mk answer s₁ =>
    rw [got] at opened
    cases answer with
    | error e => cases opened
    | ok p =>
        cases opened
        exact ⟨_, rfl, .read pages got⟩

/-- Where a scan was before does not matter. -/
theorem Begins.of_close (h : Begins sc.close s rs c s') : Begins sc s rs c s' := by
  cases h with
  | empty none => exact .empty none
  | read some got => exact .read some got

theorem Opens.begins {sc₀ : Scan} {s₀ : Store} (opens : sc₀.Opens s₀ sc s) :
    ∃ c, sc = ⟨sc₀.file, sc₀.tx, some c⟩ ∧ Begins sc₀ s₀ (sc₀.requests s₀ .start) c s := by
  rcases opens with opened | rewound
  · exact begins_of_start opened
  · obtain ⟨c, here, begins⟩ := begins_of_start (rewound : sc₀.close.start _ _ = _)
    exact ⟨c, here, begins.of_close⟩

theorem Begins.trail (h : Begins sc s rs c s') : Trail sc.file (origin sc.file s) rs [] c := by
  cases h with
  | empty none =>
      rw [origin, if_pos none]
      exact ⟨⟨0, rfl, rfl⟩, rfl, by simp⟩
  | @read _ p some got =>
      have had : (sc.loadRequest 0 s).answer = .ok p := congrArg Prod.fst got
      rw [origin, if_neg some]
      constructor
      case pages => exact ⟨1, rfl, by rw [List.flatMap_singleton, PageRequest.uses_of_ok had]; rfl⟩
      case rows => rw [List.flatMap_singleton, PageRequest.rows_of_ok had, List.nil_append]
      case waits =>
        intro before r after split
        obtain ⟨rfl, _⟩ := (List.singleton_eq_append_iff.mp split).resolve_right (by simp)
        exact List.nil_prefix

theorem perform_store (turn : Turn) (sc : Scan) :
    (turn.perform sc).2 = (turn.request.perform sc turn.before).2 := by
  cases turn <;> rfl

/-- No turn changes any file. -/
theorem disk_perform (turn : Turn) (sc : Scan) : (turn.perform sc).2.disk = turn.before.disk := by
  rw [perform_store]
  have fetch (q : PageId) := lenient_disk.fetch sc.tx q .readOnly
  exact lenient_disk.request fetch turn.request turn.before

/-- However a file grows or shrinks under a scan, the scan reads pages that follow each other, gives
out their rows in order, and asks for a page only when the rows of the pages before are all given
out. When it comes to its end it has read all pages that there are then from the first one on that
it has read; in a file that was empty when it was opened, that is the second page of the file. -/
theorem scan_leaves_no_gap {sc₀ : Scan} {s₀ : Store} (opens : sc₀.Opens s₀ sc s)
    (turns : List Turn) :
    let asked := sc₀.requests s₀ .start ++ sc.asked turns
    (∃ k, asked.flatMap PageRequest.uses =
      (List.range' (origin sc₀.file s₀) k).map (PageId.mk sc₀.file.table)) ∧
    sc.given turns <+: asked.flatMap PageRequest.rows ∧
    (∀ before r after, asked = before ++ r :: after →
      before.flatMap PageRequest.rows <+: sc.given turns) ∧
    ∀ before turn, turns = before ++ [turn] → (turn.perform (sc.resumed before)).1.1.IsEnd →
      sc.given turns = asked.flatMap PageRequest.rows ∧
      ∀ n, origin sc₀.file s₀ ≤ n →
        n < sc₀.file.numPages (turn.perform (sc.resumed before)).2.disk →
        ⟨sc₀.file.table, n⟩ ∈ asked.flatMap PageRequest.uses := by
  intro asked
  obtain ⟨c₀, rfl, begins⟩ := opens.begins
  have begun := begins.trail
  obtain ⟨c, here, trail⟩ := begun.resumed turns sc₀.tx
  refine ⟨trail.pages.imp fun _ => And.right, trail.given_prefix, trail.waits, ?_⟩
  rintro before turn rfl ended
  obtain ⟨used, all⟩ := (begun.stands here).2 ended
  obtain ⟨k, reached, pages⟩ := trail.pages
  have rows := trail.rows
  rw [used, List.append_nil] at rows
  refine ⟨rows, fun n from_first inside => ?_⟩
  rw [disk_perform] at inside
  have read : n ∈ List.range' (origin sc₀.file s₀) k := List.mem_range'_1.mpr (by omega)
  exact pages ▸ List.mem_map_of_mem read

/-- A page is added when the scan has given out the only row of the first one. -/
theorem scan_reads_added_page :
    let s₀ := sample (Bytes.resize [1] pageSize) 1 Nat.one_pos
    let opened := start Store.fetch ⟨sampleEntry.file, ⟨1⟩, none⟩ s₀
    let turns := [.next opened.2, .hasNext (append sampleEntry.file opened.2).2]
    let asked := requests ⟨sampleEntry.file, ⟨1⟩, none⟩ s₀ .start ++ opened.1.2.asked turns
    opened.1.1 = .ok () ∧ (opened.1.2.given turns).length = 1 ∧
      ∀ n < 2, ⟨.file 0, n⟩ ∈ asked.flatMap PageRequest.uses := by
  intro s₀ opened turns asked
  obtain ⟨well, before, after, one, ended⟩ : opened.1.1 = .ok () ∧
      sampleEntry.file.numPages s₀.disk ≠ 0 ∧
      sampleEntry.file.numPages (append sampleEntry.file opened.2).2.disk = 2 ∧
      (opened.1.2.given turns).length = 1 ∧
      (hasNext Store.fetch (opened.1.2.resumed [.next opened.2])
        (append sampleEntry.file opened.2).2).1.1 = .ok false := by
    decide +kernel
  have opens : Opens ⟨sampleEntry.file, ⟨1⟩, none⟩ s₀ opened.1.2 opened.2 :=
    .inl (Prod.ext (Prod.ext well rfl) rfl)
  obtain ⟨_, _, _, all⟩ := scan_leaves_no_gap opens turns
  have reply : ((Turn.hasNext (append sampleEntry.file opened.2).2).perform
      (opened.1.2.resumed [.next opened.2])).1.1 = .more (.ok false) := congrArg Reply.more ended
  refine ⟨well, one, fun n below => (all [.next opened.2] _ rfl ?_).2 n ?_ ?_⟩
  · rw [reply]
    trivial
  · rw [origin, if_neg before]
    exact Nat.zero_le n
  · rw [disk_perform]
    exact after ▸ below

/-- The first row of a file is stored when a scan of it has been opened, by the same transaction.
The scan comes to its end without having asked for any page. -/
theorem scan_opened_empty_misses_first_row :
    let s₀ := sample [] 1 Nat.one_pos
    let opened := start Store.fetch ⟨sampleEntry.file, ⟨1⟩, none⟩ s₀
    let stored := insert ⟨1⟩ (.file 0) (sampleRow "a") opened.2
    let turn := Turn.hasNext stored.2
    opened.1.1 = .ok () ∧ stored.1.1 = .ok () ∧ sampleEntry.file.numPages stored.2.disk = 1 ∧
      (turn.perform opened.1.2).1.1 = .more (.ok false) ∧
      requests ⟨sampleEntry.file, ⟨1⟩, none⟩ s₀ .start ++ opened.1.2.asked [turn] = [] := by
  intro s₀ opened stored turn
  obtain ⟨well, put, pages, ended, unasked⟩ : opened.1.1 = .ok () ∧ stored.1.1 = .ok () ∧
      sampleEntry.file.numPages stored.2.disk = 1 ∧
      (hasNext Store.fetch opened.1.2 stored.2).1.1 = .ok false ∧
      (requests ⟨sampleEntry.file, ⟨1⟩, none⟩ s₀ .start ++ opened.1.2.asked [turn]).length = 0 := by
    decide +kernel
  exact ⟨well, put, pages, congrArg Reply.more ended, List.eq_nil_of_length_eq_zero unasked⟩

end Scan
end HeapStore
