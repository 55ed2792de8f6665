import HeapStore.Store.Flush

/-!
The end of a transaction. A commit writes the pages that the transaction has changed; an abort
goes back to their before-images, and writes those that are on disk with the change already.
-/

namespace HeapStore.Store

/-- Writes a page if `tx` has dirtied it. -/
def writeOwn (tx : TxId) (p : HeapPage) : StoreM HeapPage :=
  if p.dirtiedBy = some tx then do write (← lookup p.id.table) p else pure p

/-- A page that is clean after the commit does not go back any more. -/
def commitPage (tx : TxId) (p : HeapPage) : StoreM Unit := do
  let p ← writeOwn tx p
  put (if p.isDirty then p else p.snapshot)

/-- Goes back to the before-image of a page that `tx` has dirtied. A clean page that differs
from it was written with what is now given up, so it is written again. -/
def rollbackPage (tx : TxId) (p : HeapPage) : StoreM Unit := do
  if p.dirtiedBy = some tx then
    put (← ofExcept p.restore)
  else if !p.isDirty && p.image != p.beforeImage then
    let p ← ofExcept p.restore
    put p
    put (← write (← lookup p.id.table) p)

def commit (tx : TxId) : StoreM Unit := do
  ((← get).pool.locks.pagesOf tx).forM fun page =>
    withCached page (commitPage tx)

def rollback (tx : TxId) : StoreM Unit := do
  let locks := (← get).pool.locks
  (locks.pagesOf tx).forM fun page => do
    if locks.mode? tx page = some .exclusive then
      withCached page (rollbackPage tx)

inductive Ending where
  | commit
  | abort
  deriving DecidableEq, Repr

/-- Ends a transaction. Its locks go in any case, also when a page could not be written. -/
def complete (tx : TxId) (ending : Ending) : StoreM Unit :=
  fun s =>
    let (r, s) := match ending with
      | .commit => commit tx s
      | .abort => rollback tx s
    (r, { s with pool.locks := s.pool.locks.releaseAll tx })

end HeapStore.Store
