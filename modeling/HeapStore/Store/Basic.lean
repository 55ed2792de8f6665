import HeapStore.Cache
import HeapStore.Catalog
import HeapStore.Config
import HeapStore.Lock.Table

/-!
The state that calls act on: the disk, the catalog, and a buffer pool with its locks and its
cache. A call answers or fails, and leaves a state in either case; locks taken before a failure
stay taken.
-/

namespace HeapStore
open Std

structure Pool where
  config : Config
  locks : LockTable
  cache : Cache

/-- A pool caches at least one page and at most `Config.maxCapacity`. -/
def Pool.new? (config : Config) : Option Pool :=
  if h : 0 < config.capacity ∧ config.capacity ≤ Config.maxCapacity then
    some ⟨config, {}, { capacity := config.capacity, capacity_pos := h.1 }⟩
  else none

/-- `parked` are the pools that were in use before, in order; scans may still go through them. -/
structure Store where
  disk : Disk TableId := {}
  catalog : Catalog := {}
  pool : Pool
  parked : List Pool := []

abbrev StoreM := ExceptT Error (StateM Store)

namespace Store

/-- Actions that reads can still set off. -/
def pendingReads (s : Store) : Nat :=
  s.catalog.tables.values.foldr (fun e n => e.hook.elim 0 (·.onRead.length) + n) 0

/-- Puts a fresh pool in place of the present one, which is parked. -/
def replacePool? (s : Store) (config : Config) : Option Store :=
  (Pool.new? config).map fun pool => { s with pool, parked := s.parked ++ [s.pool] }

def ofExcept {α : Type} (r : Except Error α) : StoreM α :=
  ExceptT.mk (pure r)

/-- Fails with `e` unless `c` holds. -/
def ensure (c : Prop) [Decidable c] (e : Error) : StoreM Unit :=
  if c then pure () else throw e

def onCatalog (f : Catalog → Catalog) : StoreM Unit :=
  modify fun s => { s with catalog := f s.catalog }

def onLocks (f : LockTable → LockTable) : StoreM Unit :=
  modify fun s => { s with pool.locks := f s.pool.locks }

def onCache (f : Cache → Cache) : StoreM Unit :=
  modify fun s => { s with pool.cache := f s.pool.cache }

def lookup (table : TableId) : StoreM Entry := do
  ofExcept ((← get).catalog.find table)

/-- Whether a page is cached. To ask is not to use it. -/
def isCached (page : PageId) : StoreM Bool := do
  return (← get).pool.cache.contains page

/-- Puts a changed page in place of the cached one. -/
def put (p : HeapPage) : StoreM Unit :=
  onCache (·.update p)

/-- Drops a page from the cache without writing it. -/
def discard (page : PageId) : StoreM Unit :=
  onCache (·.remove page)

/-- Gives up one lock before its transaction has ended. -/
def release (tx : TxId) (page : PageId) : StoreM Unit :=
  onLocks (·.release tx page)

def readDirect (f : HeapFile) (page : PageId) : StoreM HeapPage := do
  ofExcept (f.readPage (← get).disk page)

def writeDirect (f : HeapFile) (p : HeapPage) : StoreM HeapPage := do
  let (p, disk) ← ofExcept (f.writePage (← get).disk p)
  modify fun s => { s with disk }
  return p

def append (f : HeapFile) : StoreM Unit := do
  let disk ← ofExcept (f.appendPage (← get).disk)
  modify fun s => { s with disk }

/-- Writes a page to the file of its table. -/
def write (e : Entry) (p : HeapPage) : StoreM HeapPage := do
  ensure (e.refusesWrites = false) (.io .refused)
  writeDirect e.file p

end Store
end HeapStore
