import DualStore.Solution.Group
import DualStore.Solution.Template

/-! Plans of updates: the quads that each operation inserts and deletes, as seen from the quads at
hand. An operation of a request sees the effects of those before it. -/

namespace DualStore

/-- What is wrong with the graph of an operation. -/
inductive GraphFault where
  | present (graph : Term)
  | missing (graph : Term)
  deriving DecidableEq, Repr

def GraphFault.message : GraphFault → String
  | present graph => s!"graph {graph} already exists"
  | missing graph => s!"graph {graph} does not exist"

namespace TransferMode

/-- What the destination holds is deleted first. -/
def replaces : TransferMode → Bool
  | copy | move => true
  | add => false

/-- What the source holds is deleted afterwards. -/
def empties : TransferMode → Bool
  | move => true
  | copy | add => false

end TransferMode

def Operation.inserts (quads : List Quad) : List Operation := quads.map fun q => ⟨.insert, q⟩
def Operation.deletes (quads : List Quad) : List Operation := quads.map fun q => ⟨.delete, q⟩

/-- The pattern that a template is when it says itself where it applies. -/
def QuadTemplate.pattern (t : QuadTemplate) : Element :=
  match t.graph with
  | none => .triple t.triple
  | some graph => .graph graph [.triple t.triple]

namespace Update

/-- Deletes the instances of one template and then inserts those of another, over all solutions of
a pattern. -/
def planModify (src : Source) (next : Nat) (delete insert : List QuadTemplate) (pattern : Group) :
    List Operation × Nat :=
  let (named, next) := QuadTemplate.nameBlanks (delete ++ insert) next (pattern.solutions src)
  (Operation.deletes (QuadTemplate.quads delete named) ++
    Operation.inserts (QuadTemplate.quads insert named), next)

/-- Deletes all that a target holds. A single graph holds something, or else it is missing. -/
def planDrop (src : Source) (silent : Bool) :
    GraphTarget → Except GraphFault (List Operation)
  | .default => .ok (Operation.deletes (src.quadsIn .defaultGraph))
  | .all => .ok (Operation.deletes (src.matching {}))
  | .named => .ok (Operation.deletes ((src.matching {}).filter (!·.inDefaultGraph)))
  | .graph t =>
    let quads := src.quadsIn t
    if quads.isEmpty && !silent then .error (.missing t) else .ok (Operation.deletes quads)

/-- Puts the triples of one graph into another. The default graph is always there. -/
def planTransfer (src : Source) (mode : TransferMode) (silent : Bool)
    (source destination : Option Term) : Except GraphFault (List Operation) :=
  if source = destination then .ok []
  else
    let sourceGraph := source.getD .defaultGraph
    let graph := destination.getD .defaultGraph
    let quads := src.quadsIn sourceGraph
    if quads.isEmpty && source.isSome && !silent then .error (.missing sourceGraph)
    else .ok <|
      (if mode.replaces then Operation.deletes (src.quadsIn graph) else []) ++
        Operation.inserts (quads.map (·.withGraph graph)) ++
        (if mode.empties then Operation.deletes quads else [])

/-- The operations on quads that an update stands for. New blank nodes are numbered from `next`
on. -/
def plan (src : Source) (next : Nat) : Update → Except GraphFault (List Operation × Nat)
  | insertData quads => .ok (Operation.inserts quads, next)
  | deleteData quads => .ok (Operation.deletes quads, next)
  | deleteWhere templates => .ok (planModify src next templates [] (templates.map (·.pattern)))
  | modify delete insert pattern => .ok (planModify src next delete insert pattern)
  | create silent graph =>
    if !silent && !(src.quadsIn graph).isEmpty then .error (.present graph) else .ok ([], next)
  | drop silent target | clear silent target => (planDrop src silent target).map (·, next)
  | transfer mode silent source destination =>
    (planTransfer src mode silent source destination).map (·, next)

/-- Plans updates one after the other, after operations that are staged already. -/
def planFrom (src : Source) (staged : List Operation) (next : Nat) :
    List Update → Except GraphFault (List Operation × Nat)
  | [] => .ok (staged, next)
  | u :: us => do
    let (ops, next) ← u.plan (src.after staged) next
    planFrom src (staged ++ ops) next us

/-- Plans the updates of one request. -/
def planAll (src : Source) (next : Nat) (us : List Update) :
    Except GraphFault (List Operation × Nat) :=
  planFrom src [] next us

end Update
end DualStore
