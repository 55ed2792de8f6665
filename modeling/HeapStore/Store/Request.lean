import HeapStore.Moment

/-!
The pages that are asked for in the course of an act, in order, and the store that each request
meets. What is made of the answers is the history of the pages in use: a page is used when it is
had, and when a row of it has been stored or deleted.
-/

namespace HeapStore

structure PageRequest where
  tx : TxId
  page : PageId
  access : Access
  before : Store

namespace PageRequest

def answer (r : PageRequest) : Except Error HeapPage :=
  (Store.fetch r.tx r.page r.access r.before).1

def after (r : PageRequest) : Store :=
  (Store.fetch r.tx r.page r.access r.before).2

/-- The page that is asked for, if it is had. -/
def uses (r : PageRequest) : List PageId :=
  match r.answer with
  | .ok _ => [r.page]
  | .error _ => []

end PageRequest

namespace Store

/-- The requests of `tryPages`. -/
def tryRequests (f : HeapFile) (tx : TxId) : List Nat → Store → List PageRequest
  | [], _ => []
  | n :: numbers, s =>
    let r : PageRequest := ⟨tx, ⟨f.table, n⟩, .readWrite, s⟩
    r :: match r.answer with
      | .error _ => []
      | .ok p =>
        if p.emptySlots = 0 then
          tryRequests f tx numbers (letGo (s.pool.locks.holds tx r.page) tx r.page r.after).2
        else []

/-- The requests of `search`. -/
def searchRequests (f : HeapFile) (tx : TxId) (t : Tuple) : Nat → Nat → Store → List PageRequest
  | 0, _, _ => []
  | passes + 1, first, s =>
    let count := f.numPages s.disk
    let numbers := List.range' first (count - first)
    tryRequests f tx numbers s ++
      match tryPages f tx t numbers s with
      | (.ok none, s₁) =>
        match append f s₁ with
        | (.ok (), s₂) => searchRequests f tx t passes (max first count) s₂
        | (.error _, _) => []
      | _ => []

def insertRequests (f : HeapFile) (tx : TxId) (t : Tuple) (s : Store) : List PageRequest :=
  if t.schema.types = f.schema.types then
    searchRequests f tx t (HeapFile.maxPages + 1) 0 s
  else []

def deleteRequests (f : HeapFile) (tx : TxId) (rid : RecordId) (s : Store) : List PageRequest :=
  if rid.page.table = f.table then [⟨tx, rid.page, .readWrite, s⟩] else []

end Store

namespace Scan

def loadRequest (sc : Scan) (n : Nat) (s : Store) : PageRequest :=
  ⟨sc.tx, ⟨sc.file.table, n⟩, .readOnly, s⟩

/-- The requests of `advance`. -/
def advanceRequests (sc : Scan) : List Nat → Cursor → Store → List PageRequest
  | [], _, _ => []
  | n :: numbers, c, s =>
    if c.rest.isEmpty then
      let r := sc.loadRequest n s
      r :: match r.answer with
        | .error _ => []
        | .ok p => sc.advanceRequests numbers ⟨n, p.tuples⟩ r.after
    else []

def requests (sc : Scan) (s : Store) : Request → List PageRequest
  | .start | .rewind => if sc.file.numPages s.disk = 0 then [] else [sc.loadRequest 0 s]
  | .hasNext | .next =>
    match sc.cursor with
    | none => []
    | some c => sc.advanceRequests (sc.pagesAfter c.page s) c s

end Scan

namespace Act

/-- The requests of an act. No hook makes any. -/
def requests (s : Store) : Act → List PageRequest
  | call (.get tx page access) => [⟨tx, page, access, s⟩]
  | call (.insert tx table t) =>
    match s.catalog.find table with
    | .ok e => Store.insertRequests e.file tx t s
    | .error _ => []
  | call (.delete tx (some rid)) =>
    match s.catalog.find rid.page.table with
    | .ok e => Store.deleteRequests e.file tx rid s
    | .error _ => []
  | insertInto file tx t => Store.insertRequests file tx t s
  | deleteFrom file tx (some rid) => Store.deleteRequests file tx rid s
  | scan sc request => sc.requests s request
  | call _ | deleteFrom _ _ none => []

/-- The page of the row that an act has stored or deleted, if it has gone well. -/
def modified (s : Store) : Act → List PageId
  | call (.insert tx table t) =>
    match Store.insert tx table t s with
    | ((.ok _, t), _) => (t.rid.map RecordId.page).toList
    | ((.error _, _), _) => []
  | call (.delete tx rid) =>
    match Store.delete tx rid s with
    | (.ok _, _) => (rid.map RecordId.page).toList
    | (.error _, _) => []
  | insertInto file tx t =>
    match Store.insertInto file tx t s with
    | (.ok (_, rid), _) => [rid.page]
    | (.error _, _) => []
  | deleteFrom file tx rid =>
    match Store.deleteFrom file tx rid s with
    | (.ok _, _) => (rid.map RecordId.page).toList
    | (.error _, _) => []
  | call _ | scan .. => []

end Act

namespace Moment

/-- The requests of a moment at which no table has a hook. -/
def requests (m : Moment) (s : Store) : List PageRequest :=
  match m.what with
  | .act a => a.requests (m.enter s)
  | .look _ | .edit _ | .latch .. => []

def modified (m : Moment) (s : Store) : List PageId :=
  match m.what with
  | .act a => a.modified (m.enter s)
  | .look _ | .edit _ | .latch .. => []

/-- The pages used at a moment, the last use last. -/
def uses (m : Moment) (s : Store) : List PageId :=
  (m.requests s).flatMap PageRequest.uses ++ m.modified s

end Moment

/-- The pages used in a course of moments, the last use last. -/
def Store.history : List Moment → Store → List PageId
  | [], _ => []
  | m :: moments, s => m.uses s ++ history moments (m.perform s).2

end HeapStore
