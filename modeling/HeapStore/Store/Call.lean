import HeapStore.Store.Complete
import HeapStore.Store.Rows

/-!
The calls of a pool as data, and runs of them. A run answers every call; one that fails is no end
of the run, the next call finds the store as the failed one has left it.
-/

namespace HeapStore

inductive Call where
  | get (tx : TxId) (page : PageId) (access : Access)
  | insert (tx : TxId) (table : TableId) (t : Tuple)
  | delete (tx : TxId) (rid : Option RecordId)
  | flushPage (page : PageId)
  | flushAll
  | flushTx (tx : TxId)
  | discard (page : PageId)
  | release (tx : TxId) (page : PageId)
  | complete (tx : TxId) (ending : Store.Ending)

/-- What a call hands out: a page, or the row as it has been stored. -/
inductive Answer where
  | page (p : HeapPage)
  | row (t : Tuple)
  | done
  deriving DecidableEq

structure Event where
  call : Call
  answer : Except Error Answer

namespace Call

/-- The calls by which transactions read, change and end. -/
def IsTransactional : Call → Prop
  | get .. | insert .. | delete .. | complete .. => True
  | flushPage _ | flushAll | flushTx _ | discard _ | release .. => False

/-- Pages are dropped and locks are let go of only in the due course of other calls. -/
def IsOrderly : Call → Prop
  | discard _ | release .. => False
  | get .. | insert .. | delete .. | complete .. | flushPage _ | flushAll | flushTx _ => True

/-- The transaction that makes the call. -/
def tx? : Call → Option TxId
  | get tx .. | insert tx .. | delete tx _ | complete tx _ | flushTx tx | release tx _ => some tx
  | flushPage _ | flushAll | discard _ => none

def perform : Call → StoreM Answer
  | get tx page access => .page <$> Store.fetch tx page access
  | insert tx table t => fun s =>
    let ((r, t), s) := Store.insert tx table t s
    (r.map fun _ => .row t, s)
  | delete tx rid => (fun _ => .done) <$> Store.delete tx rid
  | flushPage page => (fun _ => .done) <$> Store.flushPage page
  | flushAll => (fun _ => .done) <$> Store.flushAll
  | flushTx tx => (fun _ => .done) <$> Store.flushTx tx
  | discard page => (fun _ => .done) <$> Store.discard page
  | release tx page => (fun _ => .done) <$> Store.release tx page
  | complete tx ending => (fun _ => .done) <$> Store.complete tx ending

end Call

namespace Store

/-- Makes calls one after the other: what they answered, and the store afterwards. -/
def run : List Call → Store → List Event × Store
  | [], s => ([], s)
  | c :: calls, s =>
    let (answer, s) := c.perform s
    let (events, s) := run calls s
    (⟨c, answer⟩ :: events, s)

end Store
end HeapStore
