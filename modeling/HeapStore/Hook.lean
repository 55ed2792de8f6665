import HeapStore.Ident
import HeapStore.Lock.Mode

/-!
Hooks: what happens between a pool and the file of a table that is registered with one.
-/

namespace HeapStore

/-- What a hook may do to the pool in the middle of a call. -/
inductive Action where
  | discard (page : PageId)
  | fetch (tx : TxId) (page : PageId) (access : Access)
  | dirty (tx : TxId) (page : PageId)
  deriving DecidableEq, Repr

/-- The actions are run once: those of `onRead` when the next page has been read, those of
`afterMutate` when the next row has been stored or deleted. -/
structure Hook where
  failRead : Bool := false
  failWrite : Bool := false
  onRead : List Action := []
  afterMutate : List Action := []
  deriving DecidableEq, Repr

end HeapStore
