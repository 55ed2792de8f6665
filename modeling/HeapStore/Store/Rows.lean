import HeapStore.Store.Fetch

/-!
Storing and deleting rows. A row goes to the first page that has a free slot; if none has, the
file grows by a page. Full pages that were locked only to look at them are let go again.
-/

namespace HeapStore.Store

/-- Lets go of a full page, unless the lock on it was held before. -/
def letGo (held : Bool) (tx : TxId) (page : PageId) : StoreM Unit :=
  if held then pure () else release tx page

/-- Tries the pages numbered `numbers` in turn. `none` if all of them are full. -/
def tryPages (f : HeapFile) (tx : TxId) (t : Tuple) :
    List Nat → StoreM (Option (HeapPage × RecordId))
  | [] => return none
  | n :: numbers => do
    let page : PageId := ⟨f.table, n⟩
    let held := (← get).pool.locks.holds tx page
    let p ← fetch tx page .readWrite
    if p.emptySlots = 0 then
      letGo held tx page
      tryPages f tx t numbers
    else
      let (p, rid) ← ofExcept (p.insert t)
      let p := p.mark (some tx)
      put p
      return some (p, rid)

/-- Looks at the pages from `first` on and appends a page when they are all full, up to `passes`
times. Where no page has a slot the file grows until there is no room for another page. -/
def search (f : HeapFile) (tx : TxId) (t : Tuple) : Nat → Nat → StoreM (HeapPage × RecordId)
  | 0, first => throw (.pageFull ⟨f.table, first⟩)
  | passes + 1, first => do
    let count := f.numPages (← get).disk
    match ← tryPages f tx t (List.range' first (count - first)) with
    | some placed => return placed
    | none =>
      append f
      search f tx t passes (max first count)

/-- Stores a row in a heap file: the changed page, and where the row is. Each pass adds a page to
the file, and no file has more than `HeapFile.maxPages` of them. -/
def insertInto (f : HeapFile) (tx : TxId) (t : Tuple) : StoreM (HeapPage × RecordId) := do
  ensure (t.schema.types = f.schema.types) (.schemaMismatch (.tableSchema t.schema f.schema))
  search f tx t (HeapFile.maxPages + 1) 0

/-- Deletes the row at a record id of this heap file: the changed page. -/
def deleteFrom (f : HeapFile) (tx : TxId) (rid : Option RecordId) : StoreM HeapPage := do
  match rid with
  | none => throw .noRecordId
  | some loc =>
    ensure (loc.page.table = f.table) (.tupleNotFound loc)
    let p ← fetch tx loc.page .readWrite
    let p ← ofExcept (p.erase rid)
    let p := p.mark (some tx)
    put p
    return p

/-- What the hook of a table does between a change and its admission to the cache. -/
def afterMutate (table : TableId) : StoreM Unit := do
  match (← get).catalog.hook? table with
  | none => return
  | some hook =>
    onCatalog (·.setHook table { hook with afterMutate := [] })
    runActions fetch hook.afterMutate

/-- Caches a page that `tx` has just changed, or makes it the most recently used. -/
def readmit (tx : TxId) (p : HeapPage) : StoreM Unit :=
  keep p.id (p.mark (some tx))

/-- Stores a row in a table. Besides the answer gives the row as the call leaves it: with its
location once it has been stored, even if the call fails after that. -/
def insert (tx : TxId) (table : TableId) (t : Tuple) :
    StateM Store (Except Error Unit × Tuple) := do
  let placed := do
    let e ← lookup table
    let (p, rid) ← insertInto e.file tx t
    return (p, rid)
  match ← placed.run with
  | .error e => return (.error e, t)
  | .ok (p, rid) =>
    let r ← (do afterMutate table; readmit tx p : StoreM Unit).run
    return (r, t.located (some rid))

/-- Deletes the row at a record id. -/
def delete (tx : TxId) (rid : Option RecordId) : StoreM Unit := do
  match rid with
  | none => throw .noRecordId
  | some loc =>
    let e ← lookup loc.page.table
    let p ← deleteFrom e.file tx rid
    afterMutate loc.page.table
    readmit tx p

end HeapStore.Store
