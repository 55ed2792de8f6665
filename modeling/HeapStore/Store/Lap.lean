import HeapStore.Store.Request

/-!
The laps of a search: how often it sets out through the file, each time from the first page that it
has not looked at yet.
-/

namespace HeapStore

/-- A lap starts at page `first`, in the store that it meets. -/
structure Lap where
  first : Nat
  before : Store

namespace Lap

/-- The pages that a lap may come to: from its first one on, all there are when it starts. -/
def numbers (f : HeapFile) (lap : Lap) : List Nat :=
  List.range' lap.first (f.numPages lap.before.disk - lap.first)

/-- `none` if all pages are full. -/
def outcome (f : HeapFile) (tx : TxId) (t : Tuple) (lap : Lap) :
    Except Error (Option (HeapPage × RecordId)) × Store :=
  Store.tryPages f tx t (lap.numbers f) lap.before

def requests (f : HeapFile) (tx : TxId) (lap : Lap) : List PageRequest :=
  Store.tryRequests f tx (lap.numbers f) lap.before

end Lap

namespace Store

/-- The laps of `search`. -/
def searchLaps (f : HeapFile) (tx : TxId) (t : Tuple) : Nat → Nat → Store → List Lap
  | 0, _, _ => []
  | passes + 1, first, s =>
    let lap : Lap := ⟨first, s⟩
    lap :: match lap.outcome f tx t with
      | (.ok none, s₁) =>
        match append f s₁ with
        | (.ok (), s₂) => searchLaps f tx t passes (max first (f.numPages s.disk)) s₂
        | (.error _, _) => []
      | _ => []

def insertLaps (f : HeapFile) (tx : TxId) (t : Tuple) (s : Store) : List Lap :=
  if t.schema.types = f.schema.types then
    searchLaps f tx t (HeapFile.maxPages + 1) 0 s
  else []

/-- The requests of a search are those of its laps. -/
theorem searchRequests_eq_flatMap (f : HeapFile) (tx : TxId) (t : Tuple) (passes first : Nat)
    (s : Store) : searchRequests f tx t passes first s =
      (searchLaps f tx t passes first s).flatMap (Lap.requests f tx) := by
  induction passes generalizing first s with
  | zero => rfl
  | succ passes ih =>
      simp only [searchRequests, searchLaps, List.flatMap_cons]
      congr 1
      simp only [Lap.outcome, Lap.numbers]
      obtain ⟨e | none | placed, s₁⟩ :=
        tryPages f tx t (List.range' first (f.numPages s.disk - first)) s
      case error => rfl
      case ok.some => rfl
      case ok.none =>
        simp only
        obtain ⟨e | _, s₂⟩ := append f s₁
        · rfl
        · exact ih _ _

theorem insertRequests_eq_flatMap (f : HeapFile) (tx : TxId) (t : Tuple) (s : Store) :
    insertRequests f tx t s = (insertLaps f tx t s).flatMap (Lap.requests f tx) := by
  unfold insertRequests insertLaps
  split
  · exact searchRequests_eq_flatMap f tx t _ 0 s
  · rfl

end Store
end HeapStore
