import HeapStore.Bytes
import HeapStore.Error
import Std.Data.ExtTreeMap

/-!
A directory of files. A name stands for one file at a time; a file that is removed lives on for
whoever has it open, and a later file of that name is another file. Reads and writes are
positioned. The medium may fail at any place; a failed write leaves the file as it was.
-/

namespace HeapStore
open Std

structure FileId (κ : Type) where
  name : κ
  generation : Nat
  deriving DecidableEq, Repr

namespace FileId
variable {κ : Type} [Ord κ]

instance : Ord (FileId κ) := ⟨compareLex (compareOn name) (compareOn generation)⟩

instance [TransOrd κ] : TransOrd (FileId κ) :=
  inferInstanceAs (TransCmp (compareLex (compareOn name) (compareOn generation)))

instance [LawfulEqOrd κ] : LawfulEqOrd (FileId κ) where
  compare_self {a} := by
    have h : compareLex (compareOn name) (compareOn generation) a a = .eq := by
      rw [compareLex_eq_eq]
      exact ⟨ReflOrd.compare_self (α := κ), ReflOrd.compare_self (α := Nat)⟩
    exact h
  eq_of_compare {a b} h := by
    have h' : compareLex (compareOn name) (compareOn generation) a b = .eq := h
    rw [compareLex_eq_eq] at h'
    cases a
    cases b
    cases LawfulEqOrd.eq_of_compare (α := κ) h'.1
    cases LawfulEqOrd.eq_of_compare (α := Nat) h'.2
    rfl

end FileId

/-- Where the medium fails, by name of the file and offset of the access. -/
structure Faults (κ : Type) where
  read : κ → Nat → Bool := fun _ _ => false
  write : κ → Nat → Bool := fun _ _ => false

/-- No file is longer than this, and an access that ends further on is refused. -/
def Disk.maxLength : Nat := 1 <<< 63 - 1

/-- What a file holds. -/
abbrev FileContent := { bs : List UInt8 // bs.length ≤ Disk.maxLength }

structure Disk (κ : Type) [Ord κ] where
  contents : ExtTreeMap (FileId κ) FileContent := ∅
  current : ExtTreeMap κ Nat := ∅
  created : Nat := 0
  faults : Faults κ := {}

namespace Disk
variable {κ : Type} [Ord κ] [TransOrd κ]

/-- The file of that name, or a new empty one. -/
def create (d : Disk κ) (name : κ) : FileId κ × Disk κ :=
  match d.current[name]? with
  | some generation => (⟨name, generation⟩, d)
  | none =>
    let file := ⟨name, d.created⟩
    (file, { d with
      contents := d.contents.insert file ⟨[], Nat.zero_le _⟩
      current := d.current.insert name d.created
      created := d.created + 1 })

def find (d : Disk κ) (name : κ) : Except IoError (FileId κ) :=
  match d.current[name]? with
  | some generation => .ok ⟨name, generation⟩
  | none => .error .notFound

def remove (d : Disk κ) (name : κ) : Except IoError (Disk κ) :=
  if name ∈ d.current then .ok { d with current := d.current.erase name }
  else .error .notFound

def content (d : Disk κ) (file : FileId κ) : List UInt8 :=
  match d.contents[file]? with
  | some bs => bs.val
  | none => []

def length (d : Disk κ) (file : FileId κ) : Nat :=
  (d.content file).length

/-- Puts `bs` in place of the whole file, if it is not too long for one. -/
def replace (d : Disk κ) (file : FileId κ) (bs : List UInt8) : Disk κ :=
  { d with
    contents :=
      if h : bs.length ≤ maxLength then d.contents.insert file ⟨bs, h⟩ else d.contents }

/-- Exactly `n` bytes from `offset` on. To read no bytes succeeds anywhere. -/
def read (d : Disk κ) (file : FileId κ) (offset n : Nat) : Except IoError (List UInt8) :=
  if n = 0 then .ok []
  else if d.faults.read file.name offset then .error .refused
  else match Bytes.readAt? (d.content file) offset n with
    | some bs => .ok bs
    | none => .error (if offset + n ≤ maxLength then .unexpectedEof else .refused)

def write (d : Disk κ) (file : FileId κ) (offset : Nat) (data : List UInt8) :
    Except IoError (Disk κ) :=
  if data = [] then .ok d
  else if d.faults.write file.name offset ∨ maxLength < offset + data.length then .error .refused
  else .ok (d.replace file (Bytes.writeAt (d.content file) offset data))

end Disk

/-- An open file; not every one may be written to. -/
structure Handle (κ : Type) where
  file : FileId κ
  writable : Bool

namespace Handle
variable {κ : Type} [Ord κ] [TransOrd κ]

def write (h : Handle κ) (d : Disk κ) (offset : Nat) (data : List UInt8) :
    Except IoError (Disk κ) :=
  if data = [] ∨ h.writable then d.write h.file offset data else .error .refused

end Handle
end HeapStore
