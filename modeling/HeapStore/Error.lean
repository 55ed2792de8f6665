import HeapStore.Ident
import HeapStore.Schema
import HeapStore.Text.Quoted

/-!
What can go wrong, by cause, and how it is said.
-/

namespace HeapStore

inductive IoError where
  | notFound
  | unexpectedEof
  | refused
  deriving DecidableEq, Repr

/-- Why a row does not fit where it should go. -/
inductive Mismatch where
  | fieldCount (expected got : Nat)
  | fieldIndex (index count : Nat)
  | fieldType (index : Nat) (expected got : FieldType)
  | tableSchema (row table : Schema)
  | pageSchema (row page : Schema)
  | unsetFields
  deriving DecidableEq

/-- Why bytes are not a page. -/
inductive Corruption where
  | imageSize (got : Nat)
  | stringLength (slot length : Nat)
  deriving DecidableEq, Repr

/-- `overflow` is not handed to the caller as the others are: the program stops there, while it
computes where the page starts. -/
inductive Error where
  | io (cause : IoError)
  | evictionImpossible
  | lockTimeout (tx : TxId) (page : PageId)
  | unknownTable (table : TableId)
  | unknownTableName (name : String)
  | schemaMismatch (cause : Mismatch)
  | corrupted (page : PageId) (cause : Corruption)
  | pageFull (page : PageId)
  | tupleNotFound (rid : RecordId)
  | noRecordId
  | pageOutOfRange (page : PageId)
  | overflow (page : PageId)
  deriving DecidableEq

def IoError.message : IoError → String
  | notFound => "no such file"
  | unexpectedEof => "end of file"
  | refused => "access refused"

def Mismatch.message : Mismatch → String
  | fieldCount expected got => s!"expected {expected} fields, got {got}"
  | fieldIndex index count => s!"field index {index} out of range for {count} fields"
  | fieldType index expected got => s!"field {index} expects {expected}, got {got}"
  | tableSchema row table => s!"tuple ({row}) does not match table schema ({table})"
  | pageSchema row page => s!"tuple ({row}) does not match page schema ({page})"
  | unsetFields => "tuple has unset fields"

def Corruption.message : Corruption → String
  | imageSize got => s!"expected {pageSize} bytes, got {got}"
  | stringLength slot length => s!"slot {slot}: string length {length} exceeds {stringRoom}"

def Error.message : Error → String
  | io cause => "io error: " ++ cause.message
  | evictionImpossible => "buffer pool full: every cached page is dirty"
  | lockTimeout tx page => s!"{tx} timed out waiting for a lock on page {page}"
  | unknownTable table => s!"unknown table {table}"
  | unknownTableName name => "unknown table name " ++ Text.quoted name
  | schemaMismatch cause => "schema mismatch: " ++ cause.message
  | corrupted page cause => s!"page {page} is corrupted: " ++ cause.message
  | pageFull page => s!"page {page} has no empty slot"
  | tupleNotFound rid => "no tuple at " ++ rid.describe
  | noRecordId => "tuple has no record id"
  | pageOutOfRange page => s!"page {page} is beyond the end of its file"
  | overflow _ => "attempt to multiply with overflow"

end HeapStore
