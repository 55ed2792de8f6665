import HeapStore.Store.Fetch

/-!
Scans: the rows of a heap file, page by page and slot by slot, under shared locks that the scan
does not give back. A scan that fails on a page stays where it is and can be tried again.
-/

namespace HeapStore

/-- The page that was read last, and its rows that have not been given out. -/
structure Cursor where
  page : Nat
  rest : List Tuple
  deriving DecidableEq

/-- A scan without a cursor is closed and has no rows. -/
structure Scan where
  file : HeapFile
  tx : TxId
  cursor : Option Cursor := none
  deriving DecidableEq

namespace Scan

/-- How a scan gets its pages. -/
abbrev Fetch := TxId → PageId → Access → StoreM HeapPage

variable (fetch : Fetch)

def load (sc : Scan) (n : Nat) : StoreM (List Tuple) := do
  return (← fetch sc.tx ⟨sc.file.table, n⟩ .readOnly).tuples

/-- The numbers of the pages that follow page `n`. -/
def pagesAfter (sc : Scan) (n : Nat) (s : Store) : List Nat :=
  List.range' (n + 1) (sc.file.numPages s.disk - (n + 1))

/-- Goes to the first page. In an empty file there is none to read. -/
def start (sc : Scan) : StateM Store (Except Error Unit × Scan) := do
  let first := if sc.file.numPages (← get).disk = 0 then pure [] else load fetch sc 0
  match ← first.run with
  | .error e => return (.error e, sc)
  | .ok rows => return (.ok (), { sc with cursor := some ⟨0, rows⟩ })

def close (sc : Scan) : Scan :=
  { sc with cursor := none }

def rewind (sc : Scan) : StateM Store (Except Error Unit × Scan) :=
  sc.close.start fetch

/-- Passes over pages without rows. -/
def advance (sc : Scan) : List Nat → Cursor → StateM Store (Except Error Bool × Cursor)
  | [], c => return (.ok !c.rest.isEmpty, c)
  | n :: numbers, c =>
    if c.rest.isEmpty then do
      match ← (load fetch sc n).run with
      | .error e => return (.error e, c)
      | .ok rows => advance sc numbers ⟨n, rows⟩
    else return (.ok true, c)

def hasNext (sc : Scan) : StateM Store (Except Error Bool × Scan) := do
  match sc.cursor with
  | none => return (.ok false, sc)
  | some c =>
    let (r, c) ← advance fetch sc (sc.pagesAfter c.page (← get)) c
    return (r, { sc with cursor := some c })

/-- Takes the row that is given out next off the cursor. -/
def pop (sc : Scan) : Option Tuple × Scan :=
  match sc.cursor with
  | some ⟨page, t :: rest⟩ => (some t, { sc with cursor := some ⟨page, rest⟩ })
  | _ => (none, sc)

def next (sc : Scan) : StateM Store (Except Error (Option Tuple) × Scan) := do
  let (r, sc) ← sc.hasNext fetch
  match r with
  | .error e => return (.error e, sc)
  | .ok false => return (.ok none, sc)
  | .ok true => return (.ok sc.pop.1, sc.pop.2)

/-- The rows of the pages numbered `numbers`, up to the first page that cannot be had. -/
def loadAll (sc : Scan) : List Nat → StateM Store (List Tuple × Option Error)
  | [] => return ([], none)
  | n :: numbers => do
    match ← (load fetch sc n).run with
    | .error e => return ([], some e)
    | .ok rows =>
      let (more, e) ← loadAll sc numbers
      return (rows ++ more, e)

/-- Everything a new scan gives out, and the error that ends it early if there is one. -/
def rows (file : HeapFile) (tx : TxId) : StoreM (List Tuple × Option Error) := do
  let sc : Scan := { file, tx }
  if file.numPages (← get).disk = 0 then return ([], none)
  let first ← load fetch sc 0
  let (more, e) ← loadAll fetch sc (sc.pagesAfter 0 (← get))
  return (first ++ more, e)

end Scan
end HeapStore
