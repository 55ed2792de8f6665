import HeapStore.Store.Basic

/-!
Getting a page: the lock first, then the cached page or else the page as its file has it, which
is then cached. The lock is kept even if the page cannot be had. A lock that another transaction
is in the way of is not waited for: calls come one after the other, so nobody lets go of a lock
in the meantime, and the request times out.
-/

namespace HeapStore.Store

def acquire (tx : TxId) (page : PageId) (mode : LockMode) : StoreM Unit := do
  match (← get).pool.locks.acquire? tx page mode with
  | some locks => onLocks fun _ => locks
  | none => throw (.lockTimeout tx page)

/-- The cached page, which is thereby used. Nothing happens to the cache if there is none. -/
def cached? (page : PageId) : StoreM (Option HeapPage) := do
  let p := (← get).pool.cache.find? page
  onCache (·.use page)
  return p

/-- Caches a page under an id as the most recently used. -/
def keep (page : PageId) (p : HeapPage) : StoreM Unit := fun s =>
  let (evicted, cache) := s.pool.cache.insert page p
  (evicted.map fun _ => (), { s with pool.cache := cache })

/-- Reads a page from the file of its table. A hook first loses its pending actions; they are run
by `interrupt` when the page has been read. -/
def read (interrupt : List Action → StoreM Unit) (e : Entry) (page : PageId) :
    StoreM HeapPage := do
  match e.hook with
  | none => readDirect e.file page
  | some hook =>
    onCatalog (·.setHook e.file.table { hook with onRead := [] })
    ensure (hook.failRead = false) (.io .refused)
    let p ← readDirect e.file page
    interrupt hook.onRead
    return p

/-- Gets a page. What `interrupt` does while the page is read may have cached it already, and
then the cached one counts. -/
def fetchWith (interrupt : List Action → StoreM Unit) (tx : TxId) (page : PageId)
    (access : Access) : StoreM HeapPage := do
  acquire tx page access.mode
  match ← cached? page with
  | some p => return p
  | none =>
    let p ← read interrupt (← lookup page.table) page
    match ← cached? page with
    | some p => return p
    | none => keep page p; return p

def runAction (fetch : TxId → PageId → Access → StoreM HeapPage) : Action → StoreM Unit
  | .discard page => discard page
  | .fetch tx page access => do let _ ← fetch tx page access
  | .dirty tx page => do put ((← fetch tx page .readWrite).mark (some tx))

/-- Runs actions one by one, up to the first that fails. -/
def runActions (fetch : TxId → PageId → Access → StoreM HeapPage) (actions : List Action) :
    StoreM Unit :=
  actions.forM (runAction fetch)

/-- Gets a page while actions are pending, at most `depth` of them. Each nested read takes at
least one away. -/
def fetchNested : Nat → TxId → PageId → Access → StoreM HeapPage
  | 0 => fetchWith fun _ => pure ()
  | depth + 1 => fetchWith (runActions (fetchNested depth))

def fetch (tx : TxId) (page : PageId) (access : Access) : StoreM HeapPage := do
  fetchNested (← get).pendingReads tx page access

/-- Exchanges the pool in use and the `k`-th parked one. -/
def exchange (k : Nat) (s : Store) : Store :=
  match s.parked[k]? with
  | some pool => { s with pool, parked := s.parked.set k s.pool }
  | none => s

/-- Gets a page through pool number `k`: a parked one, or the one in use. Actions that are set
off act on the pool in use all the same. -/
def fetchThrough (k : Nat) (tx : TxId) (page : PageId) (access : Access) : StoreM HeapPage :=
  fun s =>
    let (r, s) := fetchWith (fun actions s =>
      let (r, s) := runActions fetch actions (exchange k s)
      (r, exchange k s)) tx page access (exchange k s)
    (r, exchange k s)

end HeapStore.Store
