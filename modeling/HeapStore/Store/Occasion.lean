import HeapStore.Store.Trial

/-!
Calls that are made while the medium may fail in either way: it takes no write in some places, and
gives nothing back in others, and these may be different for each call of a run.
-/

namespace HeapStore

structure Occasion extends Trial where
  withholds : TableId → Nat → Bool := fun _ _ => false

namespace Occasion

/-- The store as the call finds it. -/
def enter (o : Occasion) (s : Store) : Store :=
  { o.toTrial.enter s with disk.faults.read := o.withholds }

def perform (o : Occasion) (s : Store) : Except Error Answer × Store :=
  o.call.perform (o.enter s)

end Occasion

/-- Makes calls one after the other, each on its occasion: what they answered, and the store
afterwards. -/
def Store.serve : List Occasion → Store → List Event × Store
  | [], s => ([], s)
  | o :: occasions, s =>
    let (answer, s) := o.perform s
    let (events, s) := serve occasions s
    (⟨o.call, answer⟩ :: events, s)

end HeapStore
