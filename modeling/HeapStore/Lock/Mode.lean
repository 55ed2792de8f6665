/-!
What a transaction may do with a page, and the lock that this takes.
-/

namespace HeapStore

inductive LockMode where
  | shared
  | exclusive
  deriving DecidableEq, Repr

/-- The stronger lock does for the weaker one. -/
instance : LE LockMode := ⟨fun m m' => m = .shared ∨ m' = .exclusive⟩

inductive Access where
  | readOnly
  | readWrite
  deriving DecidableEq, Repr

def Access.mode : Access → LockMode
  | readOnly => .shared
  | readWrite => .exclusive

end HeapStore
