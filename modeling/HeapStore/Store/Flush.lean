import HeapStore.Store.Basic

/-!
Writing cached pages to their files. A page that has been written is clean; its before-image
stays what it was, so it can still go back.
-/

namespace HeapStore.Store

def writeBack (p : HeapPage) : StoreM Unit := do
  if p.isDirty then
    put (← write (← lookup p.id.table) p)

/-- Runs `f` on a cached page. -/
def withCached (page : PageId) (f : HeapPage → StoreM Unit) : StoreM Unit := do
  match (← get).pool.cache.find? page with
  | some p => f p
  | none => return

def flushPage (page : PageId) : StoreM Unit :=
  withCached page writeBack

/-- Writes every dirty page, the least recently used first, up to the first that fails. -/
def flushAll : StoreM Unit := do
  (← get).pool.cache.ids.forM flushPage

/-- Writes the pages that `tx` has dirtied, in the order of their ids. -/
def flushTx (tx : TxId) : StoreM Unit := do
  ((← get).pool.locks.pagesOf tx).forM fun page =>
    withCached page fun p => do
      if p.dirtiedBy = some tx then writeBack p

end HeapStore.Store
