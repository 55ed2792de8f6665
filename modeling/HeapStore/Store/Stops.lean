import HeapStore.Store.Call

/-!
The stores that a call goes through, one for each page it has asked for. In between pages come into
the cache and leave it.
-/

namespace HeapStore
namespace Store

/-- The stops of `tryPages`. -/
def tryStops (f : HeapFile) (tx : TxId) : List Nat → Store → List Store
  | [], _ => []
  | n :: numbers, s =>
    let page : PageId := ⟨f.table, n⟩
    match fetch tx page .readWrite s with
    | (.error _, s₁) => [s₁]
    | (.ok p, s₁) =>
      s₁ :: if p.emptySlots = 0 then
          tryStops f tx numbers (letGo (s.pool.locks.holds tx page) tx page s₁).2
        else []

/-- The stops of `search`. -/
def searchStops (f : HeapFile) (tx : TxId) (t : Tuple) : Nat → Nat → Store → List Store
  | 0, _, _ => []
  | passes + 1, first, s =>
    let count := f.numPages s.disk
    let numbers := List.range' first (count - first)
    tryStops f tx numbers s ++
      match tryPages f tx t numbers s with
      | (.ok none, s₁) =>
        match append f s₁ with
        | (.ok (), s₂) => searchStops f tx t passes (max first count) s₂
        | (.error _, _) => []
      | _ => []

end Store

/-- The stops of a call. The last one of a call that changes a page has the page as it was. -/
def Call.stops (s : Store) : Call → List Store
  | get tx page access => [(Store.fetch tx page access s).2]
  | insert tx table t =>
    match s.catalog.find table with
    | .ok e =>
      if t.schema.types = e.file.schema.types then
        Store.searchStops e.file tx t (HeapFile.maxPages + 1) 0 s
      else []
    | .error _ => []
  | delete tx (some rid) =>
    match s.catalog.find rid.page.table with
    | .ok _ => [(Store.fetch tx rid.page .readWrite s).2]
    | .error _ => []
  | delete _ none | flushPage _ | flushAll | flushTx _ | discard _ | release .. | complete .. => []

/-- The stops of all calls of a run. -/
def Store.runStops : List Call → Store → List Store
  | [], _ => []
  | c :: calls, s => c.stops s ++ runStops calls (c.perform s).2

end HeapStore
