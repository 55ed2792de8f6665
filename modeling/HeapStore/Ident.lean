import Std.Data.ExtTreeMap
import Std.Data.ExtTreeSet

/-!
Names of tables, pages, records and transactions, their printed forms and the order in
which they are listed. The orders are lawful, so ordered sets and maps may be keyed by them.
-/

namespace HeapStore
open Std

/-- Bytes of one page, in memory and on disk. -/
def pageSize : Nat := 4096

/-- Machine words are the numbers below this. -/
def wordSize : Nat := 1 <<< 64

/-- A table is known by a bare number or as the `i`-th file of the data directory. -/
inductive TableId where
  | num (n : Nat)
  | file (i : Nat)
  deriving DecidableEq, Repr

namespace TableId

/-- Numbered tables come first; files follow in the order of their place in the directory. -/
protected def compare : TableId → TableId → Ordering
  | num a, num b => Ord.compare a b
  | num _, file _ => .lt
  | file _, num _ => .gt
  | file a, file b => Ord.compare a b

instance : Ord TableId := ⟨TableId.compare⟩

instance : TransOrd TableId where
  eq_swap {a b} := by
    cases a <;> cases b
    · exact OrientedOrd.eq_swap (α := Nat)
    · rfl
    · rfl
    · exact OrientedOrd.eq_swap (α := Nat)
  isLE_trans {a b c} h h' := by
    cases a <;> cases b <;> cases c
    · exact @TransCmp.isLE_trans Nat Ord.compare inferInstance _ _ _ h h'
    · rfl
    · exact absurd h' Bool.noConfusion
    · rfl
    · exact absurd h Bool.noConfusion
    · exact absurd h Bool.noConfusion
    · exact absurd h' Bool.noConfusion
    · exact @TransCmp.isLE_trans Nat Ord.compare inferInstance _ _ _ h h'

instance : LawfulEqOrd TableId where
  eq_of_compare {a b} h := by
    cases a <;> cases b
    · exact congrArg num (LawfulEqOrd.eq_of_compare (α := Nat) h)
    · cases h
    · cases h
    · exact congrArg file (LawfulEqOrd.eq_of_compare (α := Nat) h)

/-- A table number in lower-case hexadecimal; a file by its place. -/
protected def toString : TableId → String
  | num n => "table#" ++ String.ofList (Nat.toDigits 16 n)
  | file i => "table#T" ++ toString i

instance : ToString TableId := ⟨TableId.toString⟩

def describe : TableId → String
  | num n => "TableId(" ++ toString n ++ ")"
  | file i => "TableId(T" ++ toString i ++ ")"

end TableId

structure PageId where
  table : TableId
  number : Nat
  deriving DecidableEq, Repr

namespace PageId

instance : Ord PageId := ⟨compareLex (compareOn table) (compareOn number)⟩

instance : TransOrd PageId :=
  inferInstanceAs (TransCmp (compareLex (compareOn table) (compareOn number)))

instance : LawfulEqOrd PageId where
  eq_of_compare {a b} h := by
    have h' : compareLex (compareOn table) (compareOn number) a b = .eq := h
    rw [compareLex_eq_eq] at h'
    cases a
    cases b
    cases LawfulEqOrd.eq_of_compare (α := TableId) h'.1
    cases LawfulEqOrd.eq_of_compare (α := Nat) h'.2
    rfl

/-- Where the page starts in its file. -/
def offset (page : PageId) : Nat :=
  page.number * pageSize

/-- The offset as it is computed, by a product of machine words. Overflow is checked, so the program
stops at a page number of `1 <<< 52` or more. Below that the product is the same as without overflow
checks, where it would wrap around. -/
def offset? (page : PageId) : Option Nat :=
  if page.offset < wordSize then some page.offset else none

instance : ToString PageId := ⟨fun page => toString page.table ++ "/" ++ toString page.number⟩

def describe (page : PageId) : String :=
  "PageId \x7b table_id: " ++ page.table.describe ++
    ", page_number: " ++ toString page.number ++ " \x7d"

end PageId

@[ext] structure RecordId where
  page : PageId
  slot : Nat
  deriving DecidableEq, Repr

def RecordId.describe (rid : RecordId) : String :=
  "RecordId \x7b page_id: " ++ rid.page.describe ++ ", slot: " ++ toString rid.slot ++ " \x7d"

structure TxId where
  number : Nat
  deriving DecidableEq, Repr

namespace TxId

instance : Ord TxId := ⟨compareOn number⟩

instance : TransOrd TxId := inferInstanceAs (TransCmp (compareOn number))

instance : LawfulEqOrd TxId where
  eq_of_compare {a b} h := by
    cases a
    cases b
    cases LawfulEqOrd.eq_of_compare (α := Nat) h
    rfl

instance : ToString TxId := ⟨fun tx => "tx" ++ toString tx.number⟩

end TxId

/-- Hands out transaction ids, each once and in ascending order. -/
structure TxSource where
  next : Nat := 1

def TxSource.issue (source : TxSource) : TxId × TxSource :=
  (⟨source.next⟩, ⟨source.next + 1⟩)

end HeapStore
