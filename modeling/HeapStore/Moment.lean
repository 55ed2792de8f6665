import HeapStore.Act

/-!
What may happen to a store in the course of time. Clients act, ask what is cached, change pages that
they have in hand and hold on to pages to write to them, and meanwhile tables come and go and files
change, or fail, in any way.
-/

namespace HeapStore

/-- A client that changes a page in hand (`edit`) changes the cached page, unless that has gone. -/
inductive Happening where
  | act (a : Act)
  | look (page : PageId)
  | edit (p : HeapPage)
  | latch (page : PageId) (latched : Bool)

def Happening.perform : Happening → Store → Except Error Unit × Store
  | act a, s => a.perform s
  | look page, s =>
    let (r, s) := Store.isCached page s
    (r.map fun _ => (), s)
  | edit p, s => Store.put p s
  | latch page latched, s => Store.onCache (·.setLatch page latched) s

/-- What happens, and the tables and the files as they are then. -/
structure Moment where
  what : Happening
  catalog : Catalog
  disk : Disk TableId

namespace Moment

/-- The store as the moment finds it. -/
def enter (m : Moment) (s : Store) : Store :=
  { s with catalog := m.catalog, disk := m.disk }

def perform (m : Moment) (s : Store) : Except Error Unit × Store :=
  m.what.perform (m.enter s)

end Moment

/-- One moment after the other: what came of them, and the store afterwards. -/
def Store.course : List Moment → Store → List (Except Error Unit) × Store
  | [], s => ([], s)
  | m :: moments, s =>
    let (r, s) := m.perform s
    let (rs, s) := course moments s
    (r :: rs, s)

end HeapStore
