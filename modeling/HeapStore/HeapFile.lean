import HeapStore.Disk
import HeapStore.Page.Image

/-!
Heap files: page `n` of a table is the `n`-th run of `pageSize` bytes of its file, and there is
nothing else in the file. A last page that is cut short is read as if zeros followed. Where a page
starts is computed in machine words, with overflow checked, before its file is looked at.
-/

namespace HeapStore

/-- An open heap file. Opening a file again gives the same table. -/
structure HeapFile where
  table : TableId
  generation : Nat
  schema : Schema
  deriving DecidableEq

namespace HeapFile

def id (f : HeapFile) : FileId TableId :=
  ⟨f.table, f.generation⟩

/-- Opens the file of a table, making it first if there is none. -/
def create (d : Disk TableId) (table : TableId) (schema : Schema) : HeapFile × Disk TableId :=
  let (file, d) := d.create table
  (⟨table, file.generation, schema⟩, d)

def find (d : Disk TableId) (table : TableId) (schema : Schema) : Except Error HeapFile :=
  match d.find table with
  | .ok file => .ok ⟨table, file.generation, schema⟩
  | .error cause => .error (.io cause)

def numPages (f : HeapFile) (d : Disk TableId) : Nat :=
  (d.length f.id + (pageSize - 1)) / pageSize

def readPage (f : HeapFile) (d : Disk TableId) (page : PageId) : Except Error HeapPage :=
  match page.offset? with
  | none => .error (.overflow page)
  | some offset =>
    let length := d.length f.id
    if page.table ≠ f.table ∨ length ≤ offset then .error (.pageOutOfRange page)
    else match d.read f.id offset (min (length - offset) pageSize) with
      | .error cause => .error (.io cause)
      | .ok bs => HeapPage.decode page f.schema (Bytes.resize bs pageSize)

/-- No file has room for more pages than this. -/
def maxPages : Nat :=
  Disk.maxLength / pageSize

/-- Puts the bytes of a page in its place. -/
def writeBlock (f : HeapFile) (d : Disk TableId) (page : PageId) (data : List UInt8) :
    Except Error (Disk TableId) :=
  match page.offset? with
  | none => .error (.overflow page)
  | some offset =>
    match d.write f.id offset data with
    | .error cause => .error (.io cause)
    | .ok d => .ok d

/-- Writes a page in its place. The page is clean once it is written. -/
def writePage (f : HeapFile) (d : Disk TableId) (p : HeapPage) :
    Except Error (HeapPage × Disk TableId) :=
  match f.writeBlock d p.id p.image with
  | .error e => .error e
  | .ok d => .ok (p.mark none, d)

/-- Adds an empty page after the last one. -/
def appendPage (f : HeapFile) (d : Disk TableId) : Except Error (Disk TableId) :=
  f.writeBlock d ⟨f.table, f.numPages d⟩ (Bytes.zeros pageSize)

end HeapFile
end HeapStore
