import HeapStore.Store.Request

/-!
A scan in the course of time. Once it is open it takes one turn after the other, and each of them
meets the store as others have left it by then: other transactions act in between, files grow and
shrink, reads fail and succeed again.
-/

namespace HeapStore

/-- The rows of the page that is asked for, if it is had. -/
def PageRequest.rows (r : PageRequest) : List Tuple :=
  match r.answer with
  | .ok p => p.tuples
  | .error _ => []

namespace Scan

/-- What an open scan is asked, and the store that it meets: whether there is another row, or for
that row. -/
inductive Turn where
  | hasNext (before : Store)
  | next (before : Store)

inductive Reply where
  | more (r : Except Error Bool)
  | row (r : Except Error (Option Tuple))

namespace Reply

/-- The row that is given out. -/
def rows : Reply → List Tuple
  | row (.ok (some t)) => [t]
  | row (.ok none) | row (.error _) | more _ => []

/-- The scan says that it has come to its end. -/
def IsEnd : Reply → Prop
  | more (.ok false) | row (.ok none) => True
  | more (.ok true) | more (.error _) | row (.ok (some _)) | row (.error _) => False

/-- The error that the scan fails with. -/
def error? : Reply → Option Error
  | more (.error e) | row (.error e) => some e
  | more (.ok _) | row (.ok _) => none

end Reply

namespace Turn

def before : Turn → Store
  | hasNext s | next s => s

def request : Turn → Request
  | hasNext _ => .hasNext
  | next _ => .next

def perform (sc : Scan) : Turn → (Reply × Scan) × Store
  | hasNext s =>
    let ((r, sc), s) := sc.hasNext Store.fetch s
    ((.more r, sc), s)
  | next s =>
    let ((r, sc), s) := sc.next Store.fetch s
    ((.row r, sc), s)

end Turn

/-- The scan after some turns. -/
def resumed : List Turn → Scan → Scan
  | [], sc => sc
  | t :: turns, sc => resumed turns (t.perform sc).1.2

def replies : List Turn → Scan → List Reply
  | [], _ => []
  | t :: turns, sc => (t.perform sc).1.1 :: replies turns (t.perform sc).1.2

/-- The rows that are given out in some turns. -/
def given (turns : List Turn) (sc : Scan) : List Tuple :=
  (sc.replies turns).flatMap Reply.rows

/-- The pages that are asked for in some turns. -/
def asked : List Turn → Scan → List PageRequest
  | [], _ => []
  | t :: turns, sc => sc.requests t.before t.request ++ asked turns (t.perform sc).1.2

end Scan
end HeapStore
