import HeapStore.Error
import HeapStore.Lock.Table

/-!
The calls of a lock table as data, and runs of them. Who waits for a lock asks for it time and
again, and while other calls are made in between it counts as a request for each time it asks.
-/

namespace HeapStore

inductive LockCall where
  | tryAcquire (tx : TxId) (page : PageId) (mode : LockMode)
  | acquire (tx : TxId) (page : PageId) (mode : LockMode) (retries : Nat)
  | release (tx : TxId) (page : PageId)
  | releaseAll (tx : TxId)

namespace LockTable

/-- The table once the holders of `page` have been looked up, which makes an entry for them. -/
def probe (t : LockTable) (page : PageId) : LockTable :=
  { t with pages := t.pages.insert page (t.on page) }

/-- Asks for a lock once. A page that was listed for the request alone is taken off again. -/
def tryAcquire (t : LockTable) (tx : TxId) (page : PageId) (mode : LockMode) : Bool × LockTable :=
  match (t.probe page).acquire? tx page mode with
  | some t' => (true, t')
  | none =>
      let seen := t.probe page
      (false, if (t.on page).isFree then { seen with pages := seen.pages.erase page } else seen)

/-- Asks for a lock until it is granted, at most `retries` times more. -/
def await (tx : TxId) (page : PageId) (mode : LockMode) :
    Nat → LockTable → Except Error Unit × LockTable
  | 0, t =>
      match t.tryAcquire tx page mode with
      | (true, t') => (.ok (), t')
      | (false, t') => (.error (.lockTimeout tx page), t')
  | retries + 1, t =>
      match t.tryAcquire tx page mode with
      | (true, t') => (.ok (), t')
      | (false, t') => await tx page mode retries t'

end LockTable

def LockCall.perform : LockCall → LockTable → LockTable
  | tryAcquire tx page mode, t => (t.tryAcquire tx page mode).2
  | acquire tx page mode retries, t => (LockTable.await tx page mode retries t).2
  | release tx page, t => t.release tx page
  | releaseAll tx, t => t.releaseAll tx

namespace LockTable

/-- The table after calls that were made one after the other, from an empty one on. -/
def after (calls : List LockCall) : LockTable :=
  calls.foldl (fun t c => c.perform t) {}

/-- Asks for a lock until it is granted, once more after each list of calls that are made
`between`. -/
def awaitAmong (tx : TxId) (page : PageId) (mode : LockMode) :
    List (List LockCall) → LockTable → Except Error Unit × LockTable
  | [], t => await tx page mode 0 t
  | calls :: between, t =>
      match t.tryAcquire tx page mode with
      | (true, t') => (.ok (), t')
      | (false, t') => awaitAmong tx page mode between (calls.foldl (fun t c => c.perform t) t')

end LockTable

end HeapStore
