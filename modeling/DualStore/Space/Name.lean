import DualStore.Text.Quoted

/-! Names of spaces. -/

namespace DualStore

inductive SpaceFault where
  | badName (name : String)
  | alreadyExists (name : String)
  deriving DecidableEq, Repr

def SpaceFault.message : SpaceFault → String
  | badName name => s!"space name {Text.quoted name} must match [A-Za-z0-9_-]\x7b1,64\x7d"
  | alreadyExists name => s!"space {name} already exists"

/-- One to 64 ASCII letters, digits, hyphens and underscores. -/
def isSpaceName (name : String) : Bool :=
  1 ≤ name.length && name.length ≤ 64 &&
    name.toList.all fun c => c.isAlphanum || c = '_' || c = '-'

def checkSpaceName (name : String) : Except SpaceFault Unit :=
  if isSpaceName name then .ok () else .error (.badName name)

end DualStore
