/-!
Settings of a buffer pool.
-/

namespace HeapStore

/-- Times are in milliseconds; without a timeout there is no limit to a wait. -/
structure Config where
  capacity : Nat := 50
  lockPoll : Nat := 10
  lockTimeout : Option Nat := none
  deriving DecidableEq, Repr

/-- The greatest number of pages for which a cache can be laid out. -/
def Config.maxCapacity : Nat := 7 <<< 55

end HeapStore
