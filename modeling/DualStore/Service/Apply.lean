import DualStore.Service.Basic

/-! Applying batches to both sides. -/

namespace DualStore

/-- How far a committed batch got on the side of the index. -/
inductive Status where
  | applied
  /-- Applied, and every report on its graphs is consistent. -/
  | validated
  /-- Not applied; its graphs are recorded in the backlog. -/
  | pending
  deriving DecidableEq, Repr

structure Outcome where
  status : Status
  counts : Counts
  indexFault : Option IndexFault := none
  /-- Reports on the graphs of a batch that was to be validated. -/
  reports : List Report := []
  deriving DecidableEq

namespace Status

def name : Status → String
  | applied => "IndexApplied"
  | validated => "Validated"
  | pending => "ReconcilePending"

end Status

namespace Outcome

/-- Both sides hold the batch. -/
def isComplete (o : Outcome) : Bool := o.status ≠ .pending

/-- The index has yet to catch up. -/
def isPending (o : Outcome) : Bool := o.status = .pending

/-- Fails with the first report that is not consistent. -/
def ensureConsistent (o : Outcome) : Except Error Unit :=
  match o.reports.find? (!·.isConsistent) with
  | some report => .error (.consistency report)
  | none => .ok ()

end Outcome

namespace Service

variable {ι : Type}

/-- Commits a batch to its store. -/
def commit (b : Batch) : ServiceM ι Counts := do
  let store ← store b.space
  let (store, counts) ← liftInvalid ((store.apply b).mapError .quad)
  setRegistry ((← get).registry.put b.space store)
  return counts

/-- The batch that a body stands for, as seen from the store of a space. -/
def batchFor (space : String) (body : Body) (action : Action) : ServiceM ι Batch := do
  let store ← store space
  let (b, next) ← liftInvalid (body.batch store.source space action (← get).side.next)
  setNext next
  return b

variable [TripleIndex ι]

/-- Reports on graphs. A graph that cannot be checked is left out. -/
def checkGraphs (space : String) : List Term → ServiceM ι (List Report)
  | [] => return []
  | graph :: graphs => do
    let report? ← try pure (some (← check space (some graph))) catch _ => pure none
    return report?.toList ++ (← checkGraphs space graphs)

/-- Applies a batch to its store and then to the index. An error means that nothing was done. -/
def applyBatch (b : Batch) (validate : Bool) : ServiceM ι Outcome := do
  let counts ← commit b
  let settings := (← get).settings
  match ← tryIndex (Scope.apply settings b) with
  | .error fault =>
    recordAll b.space fault.message b.graphs.toList
    return { status := .pending, counts, indexFault := some fault }
  | .ok () =>
    if validate || settings.validateWrites then
      let reports ← checkGraphs b.space b.graphs.toList
      let status := if reports.all (·.isConsistent) then .validated else .applied
      return { status, counts, reports }
    else return { status := .applied, counts }

/-- Applies what a body stands for. -/
def update (space : String) (body : Body) (action : Action) (validate : Bool) :
    ServiceM ι Outcome := do
  applyBatch (← batchFor space body action) validate

end Service
end DualStore
