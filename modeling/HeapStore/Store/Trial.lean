import HeapStore.Store.Stops

/-!
Calls that are made while tables come and go and files refuse writes. Which tables a call finds
registered and where the medium takes no write is said with the call, so it may be different for
each call of a run.
-/

namespace HeapStore

structure Trial where
  call : Call
  catalog : Catalog
  refuses : TableId → Nat → Bool := fun _ _ => false

namespace Trial

/-- The store as the call finds it. -/
def enter (t : Trial) (s : Store) : Store :=
  { s with catalog := t.catalog, disk.faults.write := t.refuses }

def perform (t : Trial) (s : Store) : Except Error Answer × Store :=
  t.call.perform (t.enter s)

def stops (t : Trial) (s : Store) : List Store :=
  t.call.stops (t.enter s)

end Trial

namespace Store

/-- Makes calls one after the other, each as it may: what they answered, and the store afterwards. -/
def attempt : List Trial → Store → List Event × Store
  | [], s => ([], s)
  | t :: trials, s =>
    let (answer, s) := t.perform s
    let (events, s) := attempt trials s
    (⟨t.call, answer⟩ :: events, s)

/-- The stops of all calls. -/
def attemptStops : List Trial → Store → List Store
  | [], _ => []
  | t :: trials, s => t.stops s ++ attemptStops trials (t.perform s).2

end Store
end HeapStore
