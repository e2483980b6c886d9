import DualStore.Body
import DualStore.Grammar.Query
import DualStore.Index.Basic

/-! An index in memory. While it is not available every call fails, as it would with a server that
cannot be reached. -/

namespace DualStore

structure MemoryIndex where
  datasets : SortedMap String (SortedSet Quad) := ∅
  available : Bool := true
  /-- Milliseconds by which updates are held back. -/
  delay : Nat := 0
  deriving DecidableEq

namespace MemoryIndex

def checkAvailable (i : MemoryIndex) : Except IndexFault Unit :=
  if i.available then .ok () else .error .unavailable

def dataset (i : MemoryIndex) (space : String) : Except IndexFault (SortedSet Quad) :=
  match i.datasets.get? space with
  | some quads => .ok quads
  | none => .error (.noDataset space)

def create (space : String) (i : MemoryIndex) : Except IndexFault MemoryIndex := do
  i.checkAvailable
  if i.datasets.contains space then return i
  return { i with datasets := i.datasets.insert space ∅ }

def remove (space : String) (i : MemoryIndex) : Except IndexFault MemoryIndex := do
  i.checkAvailable
  return { i with datasets := i.datasets.erase space }

/-- Updates a dataset as a whole, or not at all. -/
def update (space text : String) (next : Nat) (i : MemoryIndex) :
    Except IndexFault (MemoryIndex × Nat) := do
  i.checkAvailable
  let quads ← i.dataset space
  let (b, next) ← (Update.batchOf (.ofSet quads) space next text).mapError .refused
  let quads := Operation.applyAll quads b.effective
  return ({ i with datasets := i.datasets.insert space quads }, next)

def query (space text : String) (next : Nat) (i : MemoryIndex) :
    Except IndexFault (Answer × Nat) := do
  i.checkAvailable
  let q ← (Query.ofText text).mapError fun fault => .refused (.request fault)
  return q.answer (.ofSet (← i.dataset space)) next

instance : TripleIndex MemoryIndex := ⟨create, remove, delay, update, query⟩

end MemoryIndex
end DualStore
