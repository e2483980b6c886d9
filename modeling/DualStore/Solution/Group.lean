import DualStore.Solution.Basic
import DualStore.Source

/-! The solutions of groups of patterns. An element extends each solution found so far in every way
that its own quads allow. -/

namespace DualStore

namespace TriplePattern

/-- What a triple pattern asks a source for, given a solution. Without a `GRAPH` around it the
pattern is about the default graph. -/
def request (t : TriplePattern) (active : Option Node) (sol : Solution) : QuadPattern where
  subject := t.subject.value? sol
  predicate := t.predicate.value? sol
  object := t.object.value? sol
  graph := match active with
    | none => some .defaultGraph
    | some graph => graph.value? sol

/-- Extends a solution by one quad. `GRAPH` ranges over the named graphs only. -/
def unify (t : TriplePattern) (active : Option Node) (sol : Solution) (q : Quad) :
    Option Solution := do
  let sol ← match active with
    | none => some sol
    | some graph => if q.inDefaultGraph then none else sol.unify graph q.graph
  let sol ← sol.unify t.subject q.subject
  let sol ← sol.unify t.predicate q.predicate
  sol.unify t.object q.object

/-- The solutions that extend `sol`. -/
def extend (src : Source) (active : Option Node) (t : TriplePattern) (sol : Solution) :
    List Solution :=
  (src.matching (t.request active sol)).filterMap (t.unify active sol)

end TriplePattern

mutual

/-- The solutions of an element that extend given ones. -/
def Element.extend (src : Source) (active : Option Node) (sols : List Solution) :
    Element → List Solution
  | .triple t => sols.flatMap (t.extend src active)
  | .graph name inner => extendGroup src (some name) sols inner
  | .union alternatives => extendUnion src active sols alternatives
  | .group inner => extendGroup src active sols inner

/-- The elements of a group extend one after the other. -/
def extendGroup (src : Source) (active : Option Node) (sols : List Solution) :
    List Element → List Solution
  | [] => sols
  | e :: es => extendGroup src active (e.extend src active sols) es

/-- Every alternative extends the same solutions. -/
def extendUnion (src : Source) (active : Option Node) (sols : List Solution) :
    List (List Element) → List Solution
  | [] => []
  | g :: gs => extendGroup src active sols g ++ extendUnion src active sols gs

end

/-- The solutions of a group over a source. -/
def Group.solutions (src : Source) (g : Group) : List Solution := extendGroup src none [∅] g

end DualStore
