import HeapStore.Store.Rows

/-!
Pages that are shared. The cache does not have the pages, it refers to them, and so does whoever has
got one: what is done to a page through one reference is seen through all of them. A page that is
read once more is another page in memory, for all that the two may look the same. Tables are taken
to have no hooks.
-/

namespace HeapStore
open Std

/-- Refers to a page in memory. Every page that is made gets a number of its own. -/
structure PageRef where
  number : Nat
  deriving DecidableEq

/-- The first `made` pages in memory have been made so far. The page that somebody is writing to is
latched, whoever refers to it. -/
structure Shared where
  disk : Disk TableId
  catalog : Catalog
  config : Config
  locks : LockTable
  parked : List Pool
  frames : PageRef → Frame
  made : Nat
  capacity : Nat
  capacity_pos : 0 < capacity
  table : ExtTreeMap PageId PageRef
  ids : List PageId

abbrev SharedM := ExceptT Error (StateM Shared)

namespace Shared

def page (m : Shared) (r : PageRef) : HeapPage :=
  (m.frames r).page

/-- What is seen if nobody asks which page in memory it is. -/
def seen (m : Shared) : Store where
  disk := m.disk
  catalog := m.catalog
  parked := m.parked
  pool := {
    config := m.config
    locks := m.locks
    cache := {
      capacity := m.capacity
      capacity_pos := m.capacity_pos
      table := m.table.map fun _ r => m.frames r
      ids := m.ids } }

/-- Does what is no concern of the cache. -/
def apart {α : Type} (x : StoreM α) : SharedM α := fun m =>
  let (r, s) := x m.seen
  (r, { m with disk := s.disk, catalog := s.catalog, locks := s.pool.locks })

/-- Makes a page. -/
def make (p : HeapPage) : SharedM PageRef := fun m =>
  let r : PageRef := ⟨m.made⟩
  (.ok r, { m with
    frames := fun r' => if r' = r then { page := p } else m.frames r'
    made := m.made + 1 })

/-- Makes the page in memory another one, for all who refer to it. -/
def write (r : PageRef) (p : HeapPage) : SharedM Unit :=
  modify fun m => { m with
    frames := fun r' => if r' = r then { m.frames r with page := p } else m.frames r' }

def touch (m : Shared) (q : PageId) : Shared :=
  { m with ids := m.ids.erase q ++ [q] }

def drop (m : Shared) (q : PageId) : Shared :=
  { m with table := m.table.erase q, ids := m.ids.erase q }

def place (m : Shared) (q : PageId) (r : PageRef) : Shared :=
  { m with table := m.table.insert q r }.touch q

def victim? (m : Shared) : Option PageId :=
  m.ids.find? fun q => m.table[q]?.any fun r => (m.frames r).evictable

/-- Caches a page under an id as the most recently used, making room first if need be: the page that
had to go. -/
def insert (q : PageId) (r : PageRef) : SharedM (Option PageId) := fun m =>
  if q ∈ m.table ∨ m.table.size < m.capacity then (.ok none, m.place q r)
  else match m.victim? with
    | some victim => (.ok (some victim), (m.drop victim).place q r)
    | none => (.error .evictionImpossible, m)

/-- The cached page, which is thereby used. -/
def cached? (q : PageId) : SharedM (Option PageRef) := fun m =>
  match m.table[q]? with
  | some r => (.ok (some r), m.touch q)
  | none => (.ok none, m)

def fetch (tx : TxId) (q : PageId) (a : Access) : SharedM PageRef := do
  apart (Store.acquire tx q a.mode)
  match ← cached? q with
  | some r => return r
  | none =>
    let e ← apart (Store.lookup q.table)
    let r ← make (← apart (Store.readDirect e.file q))
    match ← cached? q with
    | some r => return r
    | none =>
      let _ ← insert q r
      return r

def tryPages (f : HeapFile) (tx : TxId) (t : Tuple) :
    List Nat → SharedM (Option (PageRef × RecordId))
  | [] => return none
  | n :: numbers => do
    let q : PageId := ⟨f.table, n⟩
    let held := (← get).locks.holds tx q
    let r ← fetch tx q .readWrite
    let p := (← get).page r
    if p.emptySlots = 0 then
      apart (Store.letGo held tx q)
      tryPages f tx t numbers
    else
      let (p, rid) ← apart (Store.ofExcept (p.insert t))
      write r (p.mark (some tx))
      return some (r, rid)

def search (f : HeapFile) (tx : TxId) (t : Tuple) : Nat → Nat → SharedM (PageRef × RecordId)
  | 0, first => throw (.pageFull ⟨f.table, first⟩)
  | passes + 1, first => do
    let count := f.numPages (← get).disk
    match ← tryPages f tx t (List.range' first (count - first)) with
    | some placed => return placed
    | none =>
      apart (Store.append f)
      search f tx t passes (max first count)

/-- Puts a row into a heap file: the changed page, and where the row is. -/
def putRow (f : HeapFile) (tx : TxId) (t : Tuple) : SharedM (PageRef × RecordId) := do
  apart (Store.ensure (t.schema.types = f.schema.types)
    (.schemaMismatch (.tableSchema t.schema f.schema)))
  search f tx t (HeapFile.maxPages + 1) 0

/-- Stores a row in a heap file: the changed page, and the row as the call leaves it. -/
def insertInto (f : HeapFile) (tx : TxId) (t : Tuple) :
    StateM Shared (Except Error PageRef × Tuple) := do
  match ← (putRow f tx t).run with
  | .error e => return (.error e, t)
  | .ok (r, rid) => return (.ok r, t.located (some rid))

/-- Deletes the row at a record id of this heap file: the changed page. -/
def deleteFrom (f : HeapFile) (tx : TxId) (rid : Option RecordId) : SharedM PageRef := do
  match rid with
  | none => throw .noRecordId
  | some loc =>
    apart (Store.ensure (loc.page.table = f.table) (.tupleNotFound loc))
    let r ← fetch tx loc.page .readWrite
    let p ← apart (Store.ofExcept (((← get).page r).erase rid))
    write r (p.mark (some tx))
    return r

/-- Marks a page that `tx` has changed and caches it, unless it is the very page that is cached,
which is only used then. -/
def cacheDirty (tx : TxId) (r : PageRef) : SharedM Unit := do
  write r (((← get).page r).mark (some tx))
  let q := ((← get).page r).id
  if (← get).table[q]? = some r then
    let _ ← cached? q
  else
    let _ ← insert q r

/-- Stores a row in a table. Gives the row as the call leaves it, too. -/
def insertRow (tx : TxId) (table : TableId) (t : Tuple) :
    StateM Shared (Except Error Unit × Tuple) := do
  match ← (apart (Store.lookup table)).run with
  | .error e => return (.error e, t)
  | .ok e =>
    match ← insertInto e.file tx t with
    | (.error e, t) => return (.error e, t)
    | (.ok r, t) => return (← (cacheDirty tx r).run, t)

/-- Deletes the row at a record id. -/
def deleteRow (tx : TxId) (rid : Option RecordId) : SharedM Unit := do
  match rid with
  | none => throw .noRecordId
  | some loc =>
    let e ← apart (Store.lookup loc.page.table)
    cacheDirty tx (← deleteFrom e.file tx rid)

end Shared
end HeapStore
