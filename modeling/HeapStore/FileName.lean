import HeapStore.Error
import HeapStore.Text.Utf8
import Std.Data.ExtTreeMap

/-!
Names that a directory gives to files.
-/

namespace HeapStore
open Std

structure FileName where
  text : String
  deriving DecidableEq, Repr

namespace FileName

instance : Ord FileName := ⟨compareOn text⟩

instance : TransOrd FileName := inferInstanceAs (TransCmp (compareOn text))

instance : LawfulEqOrd FileName where
  eq_of_compare {a b} h := by
    cases a
    cases b
    cases LawfulEqOrd.eq_of_compare (α := String) h
    rfl

/-- Most bytes of a name. -/
def room : Nat := 255

/-- A name with a slash leads into another directory, and there is none. The names of the
directory itself and of the one above it are not for files. -/
def ofString? (s : String) : Except IoError FileName :=
  if '\x00' ∈ s.toList then .error .refused
  else if '/' ∈ s.toList then .error .notFound
  else if s ∈ ["", ".", ".."] ∨ room < Utf8.size s.toList then .error .refused
  else .ok ⟨s⟩

end FileName
end HeapStore
