import DualStore.Grammar.Update
import DualStore.Invalid
import DualStore.LinkedData.Read
import DualStore.Plan
import DualStore.Records

/-! What can be applied to a space, and the batches that it stands for. -/

namespace DualStore

inductive Body where
  /-- A linked-data document, for a graph of its own or the given one. -/
  | document (content : Json) (graph : Option Term)
  | records (content : Json)
  | update (text : String)

namespace Update

/-- The batch that the text of an update stands for. New blank nodes are numbered from `next` on;
the first number that is left is returned as well. -/
def batchOf (src : Source) (space : String) (next : Nat) (text : String) :
    Except Invalid (Batch × Nat) := do
  let updates ← (Update.ofText text).mapError .request
  let (ops, next) ← (planAll src next updates).mapError .graph
  return (⟨space, ops⟩, next)

end Update

namespace Body

/-- The batch that a body stands for, as seen from the quads of `src`. The action is for the quads
of documents and records; an update says itself what it does. -/
def batch (body : Body) (src : Source) (space : String) (action : Action) (next : Nat) :
    Except Invalid (Batch × Nat) :=
  match body with
  | .document content graph => do
    let (quads, next) ← (LinkedData.quadsOf content graph next).mapError .document
    return (.ofQuads space action quads, next)
  | .records content => do
    let quads ← (QuadRecord.quadsOf content).mapError .records
    return (.ofQuads space action quads, next)
  | .update text => Update.batchOf src space next text

end Body
end DualStore
