import DualStore.Index.Fault

/-! What the service needs of an index: one dataset per space, which is updated and queried by
text. -/

namespace DualStore

/-- An index. A call that fails leaves it as it was. Updates and queries number new blank nodes from
the given number on and return the first number that is left. -/
class TripleIndex (ι : Type) where
  /-- Makes the dataset of a space, unless it is there. -/
  create (space : String) (index : ι) : Except IndexFault ι
  /-- Removes the dataset of a space, if it is there. -/
  remove (space : String) (index : ι) : Except IndexFault ι
  /-- How many milliseconds updates are held back. -/
  delay (index : ι) : Nat
  update (space text : String) (next : Nat) (index : ι) : Except IndexFault (ι × Nat)
  query (space text : String) (next : Nat) (index : ι) : Except IndexFault (Answer × Nat)

/-- An index, and the number of the next new blank node. -/
structure IndexState (ι : Type) where
  index : ι
  next : Nat := 0
  deriving DecidableEq

/-- Calls to an index. What calls before a failure did stays done. -/
abbrev IndexM (ι : Type) := ExceptT IndexFault (StateM (IndexState ι))

namespace IndexM

variable {ι : Type} [TripleIndex ι]

def create (space : String) : IndexM ι Unit := fun s =>
  match TripleIndex.create space s.index with
  | .ok index => (.ok (), { s with index })
  | .error fault => (.error fault, s)

def remove (space : String) : IndexM ι Unit := fun s =>
  match TripleIndex.remove space s.index with
  | .ok index => (.ok (), { s with index })
  | .error fault => (.error fault, s)

def update (space text : String) : IndexM ι Unit := fun s =>
  match TripleIndex.update space text s.next s.index with
  | .ok (index, next) => (.ok (), ⟨index, next⟩)
  | .error fault => (.error fault, s)

def query (space text : String) : IndexM ι Answer := fun s =>
  match TripleIndex.query space text s.next s.index with
  | .ok (answer, next) => (.ok answer, { s with next })
  | .error fault => (.error fault, s)

/-- An update that is given up, without effect, if it is held back for longer than `limit`
milliseconds. -/
def updateWithin (limit : Nat) (space text : String) : IndexM ι Unit := fun s =>
  if limit < TripleIndex.delay s.index then (.error (.timedOut limit), s)
  else update space text s

end IndexM
end DualStore
