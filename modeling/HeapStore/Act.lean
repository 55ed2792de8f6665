import HeapStore.Scan
import HeapStore.Store.Call

/-!
What clients do with a store: they make calls, change heap files behind the back of the tables, and
take steps of their scans. All of it is answered, and goes on after an error.
-/

namespace HeapStore

/-- What can be asked of a scan. -/
inductive Scan.Request where
  | start
  | rewind
  | hasNext
  | next

inductive Act where
  | call (c : Call)
  | insertInto (file : HeapFile) (tx : TxId) (t : Tuple)
  | deleteFrom (file : HeapFile) (tx : TxId) (rid : Option RecordId)
  | scan (sc : Scan) (request : Scan.Request)

/-- What comes of a request: whether it went well, and the store. -/
def Scan.Request.perform (sc : Scan) : Request → Store → Except Error Unit × Store
  | start, s =>
    let ((r, _), s) := sc.start Store.fetch s
    (r, s)
  | rewind, s =>
    let ((r, _), s) := sc.rewind Store.fetch s
    (r, s)
  | hasNext, s =>
    let ((r, _), s) := sc.hasNext Store.fetch s
    (r.map fun _ => (), s)
  | next, s =>
    let ((r, _), s) := sc.next Store.fetch s
    (r.map fun _ => (), s)

namespace Act

/-- The transaction that acts. -/
def tx? : Act → Option TxId
  | call c => c.tx?
  | insertInto _ tx _ | deleteFrom _ tx _ => some tx
  | scan sc _ => some sc.tx

/-- What transactions do that leave files, pages and locks to the pool. -/
def IsTransactional : Act → Prop
  | call c => c.IsTransactional
  | scan .. => True
  | insertInto .. | deleteFrom .. => False

/-- Nothing is stored or deleted, and no transaction ends. -/
def IsReading : Act → Prop
  | call (.get ..) | scan .. => True
  | call _ | insertInto .. | deleteFrom .. => False

def perform : Act → Store → Except Error Unit × Store
  | call c, s =>
    let (r, s) := c.perform s
    (r.map fun _ => (), s)
  | insertInto file tx t, s =>
    let (r, s) := Store.insertInto file tx t s
    (r.map fun _ => (), s)
  | deleteFrom file tx rid, s =>
    let (r, s) := Store.deleteFrom file tx rid s
    (r.map fun _ => (), s)
  | scan sc request, s => request.perform sc s

end Act

/-- One act after the other: what they were answered, and the store afterwards. -/
def Store.undergo : List Act → Store → List (Except Error Unit) × Store
  | [], s => ([], s)
  | a :: acts, s =>
    let (r, s) := a.perform s
    let (rs, s) := undergo acts s
    (r :: rs, s)

end HeapStore
