import DualStore.Service.Apply

/-! The mailbox of a space. What is to be done to the index waits there and is done one message at a
time, in the order in which the messages were sent. Stores are written to in the meantime. -/

namespace DualStore

/-- Something that is to be done to the index of a space. -/
inductive Message where
  /-- A batch that was committed. -/
  | apply (b : Batch)
  | check (graph : Option Term)
  | rebuild (graph : Option Term)
  deriving DecidableEq

/-- The answer to a message. -/
inductive Reply where
  /-- The batch is in the index, or its graphs are recorded because of the fault. -/
  | outcome (fault? : Option IndexFault)
  | report (report : Report)
  /-- The number of quads of the scope that was rebuilt. -/
  | rebuilt (quads : Nat)
  deriving DecidableEq

/-- Something was done, or read, and not recorded for later. -/
def Reply.isDone : Reply → Bool
  | outcome fault? => fault?.isNone
  | report _ | rebuilt _ => true

/-- A service and the messages that one of its spaces has yet to handle, the oldest first. -/
structure Queued (ι : Type) where
  service : Service ι
  mailbox : List Message := []

namespace Service

variable {ι : Type} [TripleIndex ι]

/-- Handles a message of a space. -/
def deliver (space : String) : Message → ServiceM ι Reply
  | .apply b => do
    match ← tryIndex (Scope.apply (← get).settings b) with
    | .error fault =>
      recordAll b.space fault.message b.graphs.toList
      return .outcome (some fault)
    | .ok () => return .outcome none
  | .check graph => return .report (← check space graph)
  | .rebuild graph => return .rebuilt (← rebuild space graph)

end Service
end DualStore
