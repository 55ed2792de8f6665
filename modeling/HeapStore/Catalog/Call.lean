import HeapStore.Catalog

/-!
The calls that change a catalog as data, and runs of them.
-/

namespace HeapStore

inductive CatalogCall where
  | add (e : Entry)
  | clear

def CatalogCall.perform : CatalogCall → Catalog → Catalog
  | add e, c => c.add e
  | clear, _ => {}

/-- The catalog after calls that were made one after the other, from an empty one on. -/
def Catalog.after (calls : List CatalogCall) : Catalog :=
  calls.foldl (fun c call => call.perform c) {}

end HeapStore
