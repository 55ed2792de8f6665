import HeapStore.HeapFile
import HeapStore.Hook

/-!
The catalog: which file a table has, what the table is called, and what its hook does if it has
one. Ids and names go with each other one to one.
-/

namespace HeapStore
open Std

structure Entry where
  name : String
  file : HeapFile
  hook : Option Hook := none
  deriving DecidableEq

def Entry.refusesWrites (e : Entry) : Bool :=
  e.hook.any (·.failWrite)

structure Catalog where
  tables : ExtTreeMap TableId Entry := ∅
  names : ExtTreeMap String TableId := ∅

namespace Catalog

/-- Takes the name away from a table that had it under another id. -/
def dropNamesake (c : Catalog) (name : String) (id : TableId) : ExtTreeMap TableId Entry :=
  match c.names[name]? with
  | some old => if old = id then c.tables else c.tables.erase old
  | none => c.tables

/-- Registers a table. One that has the name under another id is dropped, and the table loses
the name it had before. -/
def add (c : Catalog) (e : Entry) : Catalog :=
  let id := e.file.table
  let tables := c.dropNamesake e.name id
  let names := c.names.insert e.name id
  { tables := tables.insert id e
    names :=
      match tables[id]? with
      | some old => if old.name = e.name then names else names.erase old.name
      | none => names }

def find (c : Catalog) (id : TableId) : Except Error Entry :=
  match c.tables[id]? with
  | some e => .ok e
  | none => .error (.unknownTable id)

def idOf (c : Catalog) (name : String) : Except Error TableId :=
  match c.names[name]? with
  | some id => .ok id
  | none => .error (.unknownTableName name)

def nameOf (c : Catalog) (id : TableId) : Except Error String :=
  (c.find id).map Entry.name

def schemaOf (c : Catalog) (id : TableId) : Except Error Schema :=
  (c.find id).map (·.file.schema)

def hook? (c : Catalog) (id : TableId) : Option Hook :=
  c.tables[id]?.bind Entry.hook

/-- Changes what the hook of a table does. A table without a hook does not get one. -/
def setHook (c : Catalog) (id : TableId) (hook : Hook) : Catalog :=
  { c with tables := c.tables.alter id fun e =>
      e.map fun e => { e with hook := e.hook.map fun _ => hook } }

/-- All registered ids, ascending. -/
def ids (c : Catalog) : List TableId :=
  c.tables.keys

end Catalog
end HeapStore
