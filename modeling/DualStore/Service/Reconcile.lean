import DualStore.Service.Basic

/-! Working off the backlog. -/

namespace DualStore

/-- What became of the entries of one pass. Entries of spaces that are gone are not counted. -/
structure Summary where
  rebuilt : Nat := 0
  /-- Rebuilt, but recorded again in the meantime. -/
  retained : Nat := 0
  failed : Nat := 0
  deriving DecidableEq, Repr

namespace Service

variable {ι : Type}

/-- Removes an entry unless its scope was recorded again. -/
def complete (e : Entry) : ServiceM ι Bool := modifyGet fun s =>
  let (done, backlog) := s.backlog.complete e
  (done, { s with backlog })

variable [TripleIndex ι]

/-- Rebuilds the scope of an entry. -/
def reconcileEntry (sum : Summary) (e : Entry) : ServiceM ι Summary := do
  if !(← get).registry.contains e.space then
    let _ ← complete e
    return sum
  else
    let rebuilt ← try let _ ← rebuild e.space e.graph; pure true catch _ => pure false
    if !rebuilt then return { sum with failed := sum.failed + 1 }
    else if ← complete e then return { sum with rebuilt := sum.rebuilt + 1 }
    else return { sum with retained := sum.retained + 1 }

/-- Rebuilds the scopes of entries one after the other. -/
def reconcileEntries (sum : Summary) : List Entry → ServiceM ι Summary
  | [] => return sum
  | e :: entries => do reconcileEntries (← reconcileEntry sum e) entries

/-- One pass over the whole backlog. -/
def reconcilePending : ServiceM ι Summary := do reconcileEntries {} (← get).backlog.pending

/-- One pass over the entries of a space. -/
def reconcileSpace (space : String) : ServiceM ι Summary := do
  reconcileEntries {} ((← get).backlog.pendingFor space)

/-- Records scopes, with a pass after each. Returns the sizes of the backlog after the passes. -/
def recordAndReconcile : List (String × Option Term × String) → ServiceM ι (List Nat)
  | [] => return []
  | (space, graph, reason) :: rest => do
    let _ ← record space graph reason
    let _ ← reconcilePending
    return (← get).backlog.size :: (← recordAndReconcile rest)

/-- A pass to begin with, and then one for each scope that comes up. -/
def serve (recorded : List (String × Option Term × String)) : ServiceM ι (List Nat) := do
  let _ ← reconcilePending
  return (← get).backlog.size :: (← recordAndReconcile recorded)

end Service
end DualStore
