import DualStore.Solution.Basic

/-! Templates: the quads that they stand for in a solution. A blank node of a template is a new one
in each solution, and the same label stands for the same node within a solution. -/

namespace DualStore

namespace QuadTemplate

/-- The nodes in the order in which they are looked at. -/
def nodes (t : QuadTemplate) : List Node :=
  t.graph.toList ++ [t.triple.subject, t.triple.predicate, t.triple.object]

end QuadTemplate

namespace Node

def label? : Node → Option String
  | term (.blank label) => some label
  | _ => none

/-- The term of a node, blank nodes being named by `name`. -/
def instantiate (sol : Solution) (name : String → Term) : Node → Option Term
  | term (.blank label) => some (name label)
  | term t => some t
  | var v => sol.get? v

end Node

namespace QuadTemplate

/-- The quad of a template, if all its variables have terms and it is well formed. -/
def instantiate (t : QuadTemplate) (sol : Solution) (name : String → Term) : Option Quad := do
  let graph ← match t.graph with
    | none => some none
    | some g => (g.instantiate sol name).map some
  let subject ← t.triple.subject.instantiate sol name
  let predicate ← t.triple.predicate.instantiate sol name
  let object ← t.triple.object.instantiate sol name
  let q := Quad.of subject predicate object graph
  if q.check.isOk then some q else none

/-- The labels that need a blank node in a solution: those in front of the first variable without
a term, template by template. -/
def labels (ts : List QuadTemplate) (sol : Solution) : List String :=
  (ts.flatMap fun t =>
    (t.nodes.takeWhile fun n => (n.value? sol).isSome).filterMap Node.label?).eraseDups

/-- Names the blank nodes of templates for each solution, by consecutive numbers from `next` on.
Returns the first number that is left. -/
def nameBlanks (ts : List QuadTemplate) (next : Nat) :
    List Solution → List (Solution × (String → Term)) × Nat
  | [] => ([], next)
  | sol :: sols =>
    let labels := labels ts sol
    let (named, last) := nameBlanks ts (next + labels.length) sols
    ((sol, fun label => Term.fresh (next + labels.idxOf label)) :: named, last)

/-- The quads of templates over all named solutions. -/
def quads (ts : List QuadTemplate) (named : List (Solution × (String → Term))) : List Quad :=
  named.flatMap fun (sol, name) => ts.filterMap (·.instantiate sol name)

end QuadTemplate
end DualStore
