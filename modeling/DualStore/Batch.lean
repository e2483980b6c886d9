import DualStore.Collection.SortedSet
import DualStore.Quad.Basic

/-! Batches of insertions and deletions against one space. A quad that a batch touches several
times ends up as its last operation says. -/

namespace DualStore

inductive Action where
  | insert
  | delete
  deriving DecidableEq, Repr

structure Operation where
  action : Action
  quad : Quad
  deriving DecidableEq, Repr

/-- Operations in order, against one space. -/
structure Batch where
  space : String
  ops : List Operation
  deriving DecidableEq, Repr

/-- How many quads became present, and how many absent. -/
structure Counts where
  inserted : Nat := 0
  deleted : Nat := 0
  deriving DecidableEq, Repr

namespace Action

def name : Action → String
  | insert => "insert"
  | delete => "delete"

end Action

namespace Operation

def text (op : Operation) : String := s!"{op.action.name} {op.quad}"

def apply (s : SortedSet Quad) (op : Operation) : SortedSet Quad :=
  match op.action with
  | .insert => s.insert op.quad
  | .delete => s.erase op.quad

/-- Applies operations one after the other. -/
def applyAll (s : SortedSet Quad) (ops : List Operation) : SortedSet Quad := ops.foldl apply s

/-- The last operation on each quad, at its place. -/
def lastOnly : List Operation → List Operation
  | [] => []
  | op :: ops => if ops.any (·.quad == op.quad) then lastOnly ops else op :: lastOnly ops

theorem mem_apply {s : SortedSet Quad} {op : Operation} {q : Quad} :
    q ∈ apply s op ↔ if q = op.quad then op.action = .insert else q ∈ s := by
  obtain ⟨action, quad⟩ := op
  cases action <;> by_cases h : q = quad <;> simp [apply, h]

end Operation

namespace Batch

/-- A batch that does the same to each quad. -/
def ofQuads (space : String) (action : Action) (quads : List Quad) : Batch :=
  ⟨space, quads.map fun q => ⟨action, q⟩⟩

/-- The operations of both batches, against the space of the first. -/
def extend (b c : Batch) : Batch := { b with ops := b.ops ++ c.ops }

def size (b : Batch) : Nat := b.ops.length

def isEmpty (b : Batch) : Bool := b.ops.isEmpty

/-- The last operation on each quad that the batch touches, in the order of these operations. -/
def effective (b : Batch) : List Operation := Operation.lastOnly b.ops

/-- The graphs that the batch may change. -/
def graphs (b : Batch) : SortedSet Term := .ofList (b.ops.map (·.quad.graph))

end Batch
end DualStore
