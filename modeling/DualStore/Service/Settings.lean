/-! Settings of the service. -/

namespace DualStore

structure Settings where
  /-- Milliseconds that a call to the index may take. -/
  indexTimeout : Nat := 5000
  /-- Every batch is validated. -/
  validateWrites : Bool := false
  /-- Quads in one request of a rebuild. -/
  chunkSize : Nat := 500
  /-- The greatest number of quads that are compared one by one. -/
  diffThreshold : Nat := 10000
  deriving DecidableEq, Repr

end DualStore
