import DualStore.Error
import DualStore.Index.Basic
import DualStore.Index.Request
import DualStore.Service.Settings
import DualStore.Store.Basic

/-! Comparing the store of a space with its index, and rebuilding the index from the store. -/

namespace DualStore

/-- Work on the index with errors of the service. -/
abbrev CheckM (ι : Type) := ExceptT Error (StateM (IndexState ι))

namespace CheckM

variable {ι : Type}

def writing {α : Type} (act : IndexM ι α) : CheckM ι α := ExceptT.adapt Error.indexWrite act

def querying {α : Type} (act : IndexM ι α) : CheckM ι α := ExceptT.adapt Error.indexQuery act

end CheckM

/-- Consecutive pieces of `size` elements, the last of which may be shorter. Pieces are never
empty. -/
def chunks {α : Type} (size : Nat) : List α → List (List α)
  | [] => []
  | a :: l => (a :: l.take (size - 1)) :: chunks size (l.drop (size - 1))
termination_by l => l.length
decreasing_by
  have := List.length_drop (i := size - 1) (l := l)
  simp only [List.length_cons]
  omega

namespace Scope

variable {ι : Type} [TripleIndex ι]

/-! ## Checking -/

/-- The number of quads that the index holds. -/
def indexCount (space : String) (graph : Option Term) : IndexM ι Nat := do
  match (← IndexM.query space (Request.count graph)).count? "count" with
  | some n => return n
  | none => throw .noCount

/-- The quad of a row with the columns `s`, `p`, `o` and, in a named graph, `g`. -/
def quadOfRow (row : Solution) : Except IndexFault Quad :=
  match row.get? "s", row.get? "p", row.get? "o" with
  | some subject, some predicate, some object => .ok (.of subject predicate object (row.get? "g"))
  | _, _, _ => .error .incompleteRow

/-- The quads that an answer to a question about contents lists. -/
def quadsOfAnswer (graph : Option Term) (answer : Answer) : Except IndexFault (SortedSet Quad) :=
  match answer.deskolemize, graph with
  | .triples ts, some graph => .ok (.ofList (ts.map (·.inGraph graph)))
  | .rows sols, none => (sols.mapM quadOfRow).map .ofList
  | answer, _ => .error (.unexpected answer)

/-- The quads that the index holds. -/
def indexQuads (space : String) (graph : Option Term) : IndexM ι (SortedSet Quad) := do
  liftExcept (quadsOfAnswer graph (← IndexM.query space (Request.contents graph)))
where
  liftExcept {α : Type} (r : Except IndexFault α) : IndexM ι α := fun s => (r, s)

def differenceOf (primary index : SortedSet Quad) : Difference :=
  ⟨(primary.diff index).toList, (index.diff primary).toList⟩

/-- Compares the numbers of quads on both sides, and the quads themselves if the numbers differ and
neither is above the threshold. -/
def check (settings : Settings) (space : String) (store : Store) (graph : Option Term) :
    CheckM ι Report := do
  let primaryCount := store.count graph
  let indexCount ← CheckM.querying (indexCount space graph)
  if primaryCount ≠ indexCount ∧ max primaryCount indexCount ≤ settings.diffThreshold then
    let index ← CheckM.querying (indexQuads space graph)
    let primary := SortedSet.ofList (store.scan (.ofGraph graph))
    return ⟨space, graph, primaryCount, indexCount, some (differenceOf primary index)⟩
  else return ⟨space, graph, primaryCount, indexCount, none⟩

/-! ## Rebuilding -/

/-- Inserts pieces of quads one after the other. -/
def replay (settings : Settings) (space : String) : List (List Quad) → IndexM ι Unit
  | [] => return
  | quads :: rest => do
    IndexM.updateWithin settings.indexTimeout space (Request.insertData quads)
    replay settings space rest

/-- Empties the index and fills it from the store. Returns the number of quads. -/
def rebuild (settings : Settings) (space : String) (store : Store) (graph : Option Term) :
    CheckM ι Nat := CheckM.writing do
  IndexM.create space
  IndexM.updateWithin settings.indexTimeout space (Request.drop graph)
  let quads := store.scan (.ofGraph graph)
  replay settings space (chunks settings.chunkSize quads)
  return quads.length

/-! ## Applying -/

/-- Brings a batch to the index. A batch that does nothing needs no call. -/
def apply (settings : Settings) (b : Batch) : IndexM ι Unit :=
  match Request.ofBatch? b with
  | none => return
  | some text => IndexM.updateWithin settings.indexTimeout b.space text

end Scope
end DualStore
