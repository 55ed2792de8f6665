import HeapStore.Ident
import HeapStore.Lock.Mode

/-!
Page locks, held by transactions. The table is indexed twice, by page and by transaction, and
keeps an entry only while it says something: a page without a holder and a transaction without a
page have none.
-/

namespace HeapStore
open Std

/-- The holders of one page. Who upgrades keeps the shared lock beside the exclusive one. -/
structure PageLocks where
  shared : ExtTreeSet TxId := ∅
  exclusive : Option TxId := none

namespace PageLocks

def isFree (l : PageLocks) : Bool :=
  l.shared.isEmpty && l.exclusive.isNone

/-- No other transaction is in the way. An upgrade needs `tx` to be the only reader. -/
def grants (l : PageLocks) (tx : TxId) (mode : LockMode) : Bool :=
  let writable := l.exclusive.all (· == tx)
  match mode with
  | .shared => writable
  | .exclusive => writable && l.shared.toList.all (· == tx)

/-- A shared lock adds nothing to an exclusive one. -/
def take (l : PageLocks) (tx : TxId) : LockMode → PageLocks
  | .shared => if l.exclusive = some tx then l else { l with shared := l.shared.insert tx }
  | .exclusive => { l with exclusive := some tx }

def drop (l : PageLocks) (tx : TxId) : PageLocks where
  shared := l.shared.erase tx
  exclusive := l.exclusive.filter (· != tx)

def mode? (l : PageLocks) (tx : TxId) : Option LockMode :=
  if l.exclusive = some tx then some .exclusive
  else if tx ∈ l.shared then some .shared
  else none

end PageLocks

structure LockTable where
  pages : ExtTreeMap PageId PageLocks := ∅
  held : ExtTreeMap TxId (ExtTreeSet PageId) := ∅

namespace LockTable

def on (t : LockTable) (page : PageId) : PageLocks :=
  t.pages[page]?.getD {}

/-- Grants the lock, or `none` if another transaction is in the way. -/
def acquire? (t : LockTable) (tx : TxId) (page : PageId) (mode : LockMode) : Option LockTable :=
  if (t.on page).grants tx mode then
    some {
      pages := t.pages.insert page ((t.on page).take tx mode)
      held := t.held.alter tx fun ps => some ((ps.getD ∅).insert page) }
  else none

/-- The entry of a page after `tx` has let go of it. -/
def afterDrop (tx : TxId) (l : Option PageLocks) : Option PageLocks :=
  (l.map (·.drop tx)).filter (!·.isFree)

def release (t : LockTable) (tx : TxId) (page : PageId) : LockTable :=
  if page ∈ t.pages then
    { pages := t.pages.alter page (afterDrop tx)
      held := t.held.alter tx fun ps => (ps.map (·.erase page)).filter (!·.isEmpty) }
  else t

/-- The pages that `tx` holds, ascending. -/
def pagesOf (t : LockTable) (tx : TxId) : List PageId :=
  (t.held[tx]?.getD ∅).toList

def releaseAll (t : LockTable) (tx : TxId) : LockTable where
  pages := (t.pagesOf tx).foldl (fun m page => m.alter page (afterDrop tx)) t.pages
  held := t.held.erase tx

/-- The strongest lock that `tx` has on `page`. -/
def mode? (t : LockTable) (tx : TxId) (page : PageId) : Option LockMode :=
  (t.on page).mode? tx

def holds (t : LockTable) (tx : TxId) (page : PageId) : Bool :=
  (t.mode? tx page).isSome

/-- The readers of `page`, ascending. -/
def readers (t : LockTable) (page : PageId) : List TxId :=
  (t.on page).shared.toList

def writer? (t : LockTable) (page : PageId) : Option TxId :=
  (t.on page).exclusive

end LockTable
end HeapStore
