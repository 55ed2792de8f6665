import HeapStore.Catalog.Call

/-!
Names and ids of tables go with each other one to one, whatever has been registered. To register a
table takes away what stood in its way, a table of that name and the name it had, and nothing else.
-/

namespace HeapStore
open Std

namespace Catalog
variable {c : Catalog} {e : Entry} {id : TableId} {name : String}

theorem getElem?_dropNamesake (c : Catalog) (name : String) (id id' : TableId) :
    (c.dropNamesake name id)[id']? =
      if id' ≠ id ∧ c.names[name]? = some id' then none else c.tables[id']? := by
  unfold dropNamesake
  split
  next old named =>
    by_cases same : old = id
    · rw [if_pos same, if_neg]
      rintro ⟨other, named'⟩
      exact other (Option.some.inj (named'.symm.trans named) ▸ same)
    · simp only [same, if_false, ExtTreeMap.getElem?_erase, Std.compare_eq_iff_eq, named,
        Option.some.injEq]
      by_cases here : old = id'
      · rw [if_pos here, if_pos ⟨here ▸ same, here⟩]
      · rw [if_neg here, if_neg fun h => here h.2]
  next none => simp [none]

/-- What is registered once a table has been added. -/
theorem getElem?_tables_add (c : Catalog) (e : Entry) (id : TableId) :
    (c.add e).tables[id]? =
      if id = e.file.table then some e
      else if c.names[e.name]? = some id then none else c.tables[id]? := by
  simp only [add, ExtTreeMap.getElem?_insert, Std.compare_eq_iff_eq, getElem?_dropNamesake]
  by_cases here : id = e.file.table
  · simp [here]
  · simp [here, Ne.symm here]

theorem getElem?_names_add (c : Catalog) (e : Entry) (name : String) :
    (c.add e).names[name]? =
      if name = e.name then some e.file.table
      else if c.tables[e.file.table]?.map Entry.name = some name then none else c.names[name]? := by
  have before : (c.dropNamesake e.name e.file.table)[e.file.table]? = c.tables[e.file.table]? := by
    simp [getElem?_dropNamesake]
  simp only [add, before]
  cases c.tables[e.file.table]? with
  | none =>
      simp only [ExtTreeMap.getElem?_insert, Std.compare_eq_iff_eq, Option.map_none, reduceCtorEq,
        if_false, @eq_comm _ name]
  | some old =>
      simp only [Option.map_some, Option.some.injEq]
      by_cases renamed : old.name = e.name
      · simp only [renamed, if_true, ExtTreeMap.getElem?_insert, Std.compare_eq_iff_eq]
        by_cases here : e.name = name
        · simp [here]
        · simp [here, Ne.symm here]
      · simp only [renamed, if_false, ExtTreeMap.getElem?_erase, ExtTreeMap.getElem?_insert,
          Std.compare_eq_iff_eq]
        by_cases here : e.name = name
        · simp [← here, renamed]
        · simp [here, Ne.symm here]

/-- The two indexes say the same, and every table is registered under its own id. -/
structure Matched (c : Catalog) : Prop where
  names : ∀ (name : String) (id : TableId),
    c.names[name]? = some id ↔ c.tables[id]?.map Entry.name = some name
  files : ∀ (id : TableId) (e : Entry), c.tables[id]? = some e → e.file.table = id

theorem matched_default : Matched {} where
  names name id := by simp
  files id e h := by simp at h

theorem Matched.add (h : c.Matched) (e : Entry) : (c.add e).Matched where
  names name id := by
    rw [getElem?_names_add, getElem?_tables_add]
    by_cases table : id = e.file.table
    · subst table
      by_cases called : name = e.name
      · simp [called]
      · simp only [called, if_false, if_true, Option.map_some, Option.some.injEq, Ne.symm called,
          iff_false, h.names]
        split
        next => exact nofun
        next other => exact fun named => other ((h.names ..).mp named)
    · by_cases called : name = e.name
      · subst called
        simp only [if_true, Option.some.injEq, Ne.symm table, false_iff, table, if_false]
        split
        next => exact nofun
        next other => exact fun named => other ((h.names ..).mpr named)
      · simp only [table, called, if_false]
        split
        next named =>
          rw [← h.names] at named
          refine iff_of_false nofun fun registered => ?_
          split at registered
          next => cases registered
          next =>
            rw [← h.names, named] at registered
            exact table (Option.some.inj registered).symm
        next =>
          rw [h.names]
          split
          next named =>
            rw [h.names] at named
            refine iff_of_false (fun registered => ?_) nofun
            exact called (Option.some.inj (registered.symm.trans named))
          next => exact Iff.rfl
  files id e' registered := by
    rw [getElem?_tables_add] at registered
    split at registered
    next same =>
      cases registered
      exact same.symm
    next =>
      split at registered
      next => cases registered
      next => exact h.files id e' registered

theorem Matched.perform (h : c.Matched) : ∀ call : CatalogCall, (call.perform c).Matched
  | .add e => h.add e
  | .clear => matched_default

theorem matched_after (calls : List CatalogCall) : (after calls).Matched := by
  have kept (c : Catalog) (h : c.Matched) (calls : List CatalogCall) :
      (calls.foldl (fun c call => call.perform c) c).Matched := by
    induction calls generalizing c with
    | nil => exact h
    | cons call calls ih => exact ih _ (h.perform call)
  exact kept {} matched_default calls

theorem find_eq_ok : c.find id = .ok e ↔ c.tables[id]? = some e := by
  unfold find
  cases c.tables[id]? <;> simp

theorem idOf_eq_ok : c.idOf name = .ok id ↔ c.names[name]? = some id := by
  unfold idOf
  cases c.names[name]? <;> simp

theorem nameOf_eq_ok : c.nameOf id = .ok name ↔ c.tables[id]?.map Entry.name = some name := by
  unfold nameOf find
  cases c.tables[id]? <;> simp [Except.map]

theorem find_of_none (h : c.tables[id]? = none) : c.find id = .error (.unknownTable id) := by
  simp only [find, h]

theorem find_congr {c' : Catalog} (h : c'.tables[id]? = c.tables[id]?) : c'.find id = c.find id := by
  simp only [find, h]

theorem idOf_of_none (h : c.names[name]? = none) :
    c.idOf name = .error (.unknownTableName name) := by
  simp only [idOf, h]

theorem idOf_congr {c' : Catalog} (h : c'.names[name]? = c.names[name]?) :
    c'.idOf name = c.idOf name := by
  simp only [idOf, h]

/-- A name and an id that go with each other; every registered id has its name, and every name its
registered id. The ids are listed in ascending order, each once, and are the ids of the files. -/
structure OneToOne (c : Catalog) : Prop where
  names : ∀ name id, c.idOf name = .ok id ↔ c.nameOf id = .ok name
  named : ∀ id ∈ c.ids, ∃ name, c.nameOf id = .ok name
  known : ∀ name id, c.idOf name = .ok id → id ∈ c.ids
  files : ∀ id e, c.find id = .ok e → e.file.table = id
  listed : ∀ id, id ∈ c.ids ↔ ∃ e, c.find id = .ok e
  ascending : c.ids.Pairwise fun a b => compare a b = .lt

theorem mem_ids : id ∈ c.ids ↔ ∃ e, c.tables[id]? = some e := by
  rw [ids, ExtTreeMap.mem_keys, ExtTreeMap.mem_iff_isSome_getElem?, Option.isSome_iff_exists]

theorem Matched.oneToOne (h : c.Matched) : c.OneToOne where
  names name id := by rw [idOf_eq_ok, nameOf_eq_ok, h.names]
  named id listed := by
    obtain ⟨e, registered⟩ := mem_ids.mp listed
    exact ⟨e.name, nameOf_eq_ok.mpr (by rw [registered, Option.map_some])⟩
  known name id known := by
    obtain ⟨e, registered, _⟩ := Option.map_eq_some_iff.mp ((h.names ..).mp (idOf_eq_ok.mp known))
    exact mem_ids.mpr ⟨e, registered⟩
  files id e found := h.files id e (find_eq_ok.mp found)
  listed id := by simp only [mem_ids, find_eq_ok]
  ascending := ExtTreeMap.ordered_keys

/-- The table is registered with its name. A table that had the name under another id is gone, and so
is the name that the table had before; all else is as it was. -/
structure Registers (c : Catalog) (e : Entry) (c' : Catalog) : Prop where
  table : c'.find e.file.table = .ok e
  id : c'.idOf e.name = .ok e.file.table
  name : c'.nameOf e.file.table = .ok e.name
  namesake : ∀ id, id ≠ e.file.table → c.nameOf id = .ok e.name →
    c'.find id = .error (.unknownTable id)
  former : ∀ name, name ≠ e.name → c.nameOf e.file.table = .ok name →
    c'.idOf name = .error (.unknownTableName name)
  tables : ∀ id, id ≠ e.file.table → c.nameOf id ≠ .ok e.name → c'.find id = c.find id
  names : ∀ name, name ≠ e.name → c.nameOf e.file.table ≠ .ok name → c'.idOf name = c.idOf name

theorem Matched.registers (h : c.Matched) (e : Entry) : Registers c e (c.add e) where
  table := find_eq_ok.mpr (by rw [getElem?_tables_add, if_pos rfl])
  id := idOf_eq_ok.mpr (by rw [getElem?_names_add, if_pos rfl])
  name := nameOf_eq_ok.mpr (by rw [getElem?_tables_add, if_pos rfl, Option.map_some])
  namesake id other named := by
    have named := (h.names ..).mpr (nameOf_eq_ok.mp named)
    exact find_of_none (by rw [getElem?_tables_add, if_neg other, if_pos named])
  former name other named := by
    have named := nameOf_eq_ok.mp named
    exact idOf_of_none (by rw [getElem?_names_add, if_neg other, if_pos named])
  tables id other unnamed := by
    have unnamed : ¬ c.names[e.name]? = some id := by rwa [h.names, ← nameOf_eq_ok]
    exact find_congr (by rw [getElem?_tables_add, if_neg other, if_neg unnamed])
  names name other unnamed := by
    rw [ne_eq, nameOf_eq_ok] at unnamed
    exact idOf_congr (by rw [getElem?_names_add, if_neg other, if_neg unnamed])

/-- Whatever tables have been added and taken away, names and ids go with each other; and another
table that is added now takes no more than its place and its name. -/
theorem one_to_one_after (calls : List CatalogCall) (e : Entry) :
    (after calls).OneToOne ∧ Registers (after calls) e ((after calls).add e) :=
  ⟨(matched_after calls).oneToOne, (matched_after calls).registers e⟩

end Catalog
end HeapStore
