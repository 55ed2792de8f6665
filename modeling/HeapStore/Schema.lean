/-!
Field types and schemas. A schema has at least one column. Names are labels only: what a page
can hold is decided by the types, position by position.
-/

namespace HeapStore

/-- Bytes of text that a string field keeps on a page. -/
def stringRoom : Nat := 128

inductive FieldType where
  | int
  | string
  deriving DecidableEq, Repr

namespace FieldType

/-- Bytes of a field in a slot; a string stores its length in front of its text. -/
def width : FieldType → Nat
  | int => 4
  | string => 4 + stringRoom

instance : ToString FieldType where
  toString
    | int => "INT"
    | string => "STRING"

theorem width_pos (t : FieldType) : 0 < t.width := by
  cases t <;> decide

end FieldType

structure Column where
  type : FieldType
  name : Option String
  deriving DecidableEq, Repr

instance : ToString Column :=
  ⟨fun c => c.name.getD "" ++ "(" ++ toString c.type ++ ")"⟩

structure Schema where
  columns : List Column
  columns_ne : columns ≠ []
  deriving DecidableEq

namespace Schema

def ofTypes? (types : List FieldType) : Option Schema :=
  if h : types.map (Column.mk · none) ≠ [] then some ⟨_, h⟩ else none

/-- Every column gets a name, or there is no schema. -/
def named? (types : List FieldType) (names : List String) : Option Schema :=
  if types.length = names.length then
    if h : (types.zip names).map (fun c => Column.mk c.1 (some c.2)) ≠ [] then some ⟨_, h⟩ else none
  else none

def merge (s t : Schema) : Schema :=
  ⟨s.columns ++ t.columns, by simp [s.columns_ne]⟩

def types (s : Schema) : List FieldType :=
  s.columns.map Column.type

/-- Bytes of one row. -/
def width (s : Schema) : Nat :=
  s.types.foldr (·.width + ·) 0

def indexOf? (s : Schema) (name : String) : Option Nat :=
  s.columns.findIdx? (·.name == some name)

instance : ToString Schema :=
  ⟨fun s => String.intercalate ", " (s.columns.map toString)⟩

theorem types_ne (s : Schema) : s.types ≠ [] := by
  simp [types, s.columns_ne]

theorem width_pos (s : Schema) : 0 < s.width := by
  have h := s.types_ne
  unfold width
  cases ht : s.types with
  | nil => exact absurd ht h
  | cons t ts =>
    have := t.width_pos
    simp only [List.foldr_cons]
    omega

@[simp] theorem types_merge (s t : Schema) : (s.merge t).types = s.types ++ t.types := by
  simp [merge, types]

end Schema
end HeapStore
