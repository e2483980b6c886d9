import DualStore.Error
import DualStore.Store.Basic

/-! The spaces and their stores. -/

namespace DualStore

structure SpaceInfo where
  name : String
  createdAt : String
  deriving DecidableEq, Repr

structure Space where
  info : SpaceInfo
  store : Store
  deriving DecidableEq

/-- Spaces by name. -/
structure Registry where
  spaces : SortedMap String Space := ∅
  deriving DecidableEq

namespace Registry

def contains (r : Registry) (name : String) : Bool := r.spaces.contains name

/-- The space of a name, if there is one. -/
def find (r : Registry) (name : String) : Except Error Space :=
  match r.spaces.get? name with
  | some space => .ok space
  | none => .error (.notFound (.space name))

def checkName (name : String) : Except Error Unit :=
  (checkSpaceName name).mapError fun fault => .validation (.space fault)

def info (r : Registry) (name : String) : Except Error SpaceInfo := (r.find name).map (·.info)

/-- The store of a space whose name is well formed. -/
def get (r : Registry) (name : String) : Except Error Store := do
  checkName name
  return (← r.find name).store

/-- Adds an empty space. -/
def create (r : Registry) (name createdAt : String) : Except Error Registry := do
  checkName name
  if r.contains name then throw (.validation (.space (.alreadyExists name)))
  return ⟨r.spaces.insert name ⟨⟨name, createdAt⟩, {}⟩⟩

/-- Removes a space and all that it holds. -/
def remove (r : Registry) (name : String) : Except Error Registry := do
  checkName name
  let _ ← r.find name
  return ⟨r.spaces.erase name⟩

/-- All spaces in the order of their names. -/
def list (r : Registry) : List SpaceInfo := r.spaces.values.map (·.info)

/-- Puts back a store that was written to. -/
def put (r : Registry) (name : String) (store : Store) : Registry :=
  match r.spaces.get? name with
  | some space => ⟨r.spaces.insert name { space with store }⟩
  | none => r

/-- All stores are opened again. -/
def reopen (r : Registry) : Registry :=
  ⟨r.spaces.map fun space => { space with store := space.store.reopen }⟩

end Registry
end DualStore
