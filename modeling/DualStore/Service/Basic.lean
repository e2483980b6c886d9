import DualStore.Backlog
import DualStore.Body
import DualStore.Grammar.Query
import DualStore.LinkedData.Write
import DualStore.Service.Check
import DualStore.Space.Registry

/-! The service: spaces whose stores decide, and an index that follows them. A batch is committed to
its store first. If the index then fails, the store is not undone; the graphs of the batch are
recorded in the backlog. -/

namespace DualStore

structure Service (ι : Type) where
  registry : Registry := {}
  backlog : Backlog := {}
  side : IndexState ι
  settings : Settings := {}

/-- Work of the service. What was done before an error stays done. -/
abbrev ServiceM (ι : Type) := ExceptT Error (StateM (Service ι))

namespace Service

variable {ι : Type}

/-! ## Parts -/

def liftExcept {α : Type} (r : Except Error α) : ServiceM ι α := fun s => (r, s)

def liftInvalid {α : Type} (r : Except Invalid α) : ServiceM ι α :=
  liftExcept (r.mapError .validation)

def liftCheck {α : Type} (act : CheckM ι α) : ServiceM ι α := fun s =>
  let (r, side) := act s.side
  (r, { s with side })

/-- The outcome of calls to the index, be it a failure. -/
def tryIndex {α : Type} (act : IndexM ι α) : ServiceM ι (Except IndexFault α) := fun s =>
  let (r, side) := act s.side
  (.ok r, { s with side })

def setRegistry (registry : Registry) : ServiceM ι Unit := modify fun s => { s with registry }

/-- The numbers of new blank nodes below `next` are used up. -/
def setNext (next : Nat) : ServiceM ι Unit := modify fun s => { s with side := { s.side with next } }

def store (space : String) : ServiceM ι Store := do liftExcept ((← get).registry.get space)

/-- Records a scope whose index is to be rebuilt. -/
def record (space : String) (graph : Option Term) (reason : String) : ServiceM ι Entry :=
  modifyGet fun s =>
    let (e, backlog) := s.backlog.record space graph reason
    (e, { s with backlog })

def recordAll (space : String) (reason : String) : List Term → ServiceM ι Unit
  | [] => return
  | graph :: graphs => do
    let _ ← record space (some graph) reason
    recordAll space reason graphs

/-! ## Spaces -/

def listSpaces : ServiceM ι (List SpaceInfo) := return (← get).registry.list

def listGraphs (space : String) : ServiceM ι (List Term) := return (← store space).graphs

variable [TripleIndex ι]

/-- Adds a space. If its dataset cannot be made, the whole space is recorded. -/
def createSpace (name createdAt : String) : ServiceM ι SpaceInfo := do
  setRegistry (← liftExcept ((← get).registry.create name createdAt))
  match ← tryIndex (IndexM.create name) with
  | .ok () => pure ()
  | .error fault =>
    let _ ← record name none fault.message
  liftExcept ((← get).registry.info name)

/-- Removes a space and what is recorded of it, and then its dataset. -/
def dropSpace (name : String) : ServiceM ι Unit := do
  setRegistry (← liftExcept ((← get).registry.remove name))
  modify fun s => { s with backlog := s.backlog.forget name }
  liftCheck (CheckM.writing (IndexM.remove name))

/-! ## Reading -/

/-- The quads of the store that a pattern accepts. -/
def query (space : String) (p : QuadPattern) : ServiceM ι (List Quad) :=
  return (← store space).scan p

def queryDocument (space : String) (p : QuadPattern) : ServiceM ι Json :=
  return LinkedData.documentOf (← query space p)

/-- Passes a query on to the index. -/
def sparqlQuery (space text : String) : ServiceM ι Answer := do
  let _ ← liftInvalid ((QueryForm.detect text).mapError .request)
  unless (← get).registry.contains space do throw (.notFound (.space space))
  return (← liftCheck (CheckM.querying (IndexM.query space text))).deskolemize

/-- Compares the store of a space and its index, for one graph or all. -/
def check (space : String) (graph : Option Term) : ServiceM ι Report := do
  let store ← store space
  liftCheck (Scope.check (← get).settings space store graph)

/-- Rebuilds the index of a space, for one graph or all. Returns the number of quads. -/
def rebuild (space : String) (graph : Option Term) : ServiceM ι Nat := do
  let store ← store space
  liftCheck (Scope.rebuild (← get).settings space store graph)

end Service
end DualStore
