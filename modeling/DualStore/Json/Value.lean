import DualStore.Collection.SortedMap
import DualStore.Decimal.Format

/-! JSON values. Members of an object are listed in order: as they were written in a text, or by
increasing key once the value is `sorted`, as every value that is processed further is. -/

namespace DualStore

inductive Json where
  | null
  | bool (b : Bool)
  | integer (n : Int)
  | double (x : Binary64)
  | string (s : String)
  | array (items : List Json)
  | object (members : List (String × Json))
  deriving Inhabited

namespace Json

/-- An object with its members by increasing key; of equal keys the last counts. -/
def ofMembers (members : List (String × Json)) : Json := object (SortedMap.ofList members).toList

/-- The value of the last member with this key. -/
def lookup? (key : String) (members : List (String × Json)) : Option Json :=
  members.reverse.lookup key

/-- The member of an object with this key. -/
def get? (key : String) : Json → Option Json
  | object members => lookup? key members
  | _ => none

def asString? : Json → Option String
  | string s => some s
  | _ => none

def asObject? : Json → Option (List (String × Json))
  | object members => some members
  | _ => none

def isString (j : Json) : Bool := j.asString?.isSome

mutual

/-- Puts the members of every object into the order of their keys. -/
def sort : Json → Json
  | array items => array (sortItems items)
  | object members => ofMembers (sortMembers members)
  | j => j

def sortItems : List Json → List Json
  | [] => []
  | j :: items => j.sort :: sortItems items

def sortMembers : List (String × Json) → List (String × Json)
  | [] => []
  | (k, j) :: members => (k, j.sort) :: sortMembers members

end

mutual

/-- Equality as values: doubles are compared as numbers. -/
def beq : Json → Json → Bool
  | null, null => true
  | bool a, bool b => a == b
  | integer a, integer b => a == b
  | double a, double b => a == b
  | string a, string b => a == b
  | array a, array b => beqItems a b
  | object a, object b => beqMembers a b
  | _, _ => false

def beqItems : List Json → List Json → Bool
  | [], [] => true
  | a :: as, b :: bs => beq a b && beqItems as bs
  | _, _ => false

def beqMembers : List (String × Json) → List (String × Json) → Bool
  | [], [] => true
  | (k, a) :: as, (l, b) :: bs => k == l && beq a b && beqMembers as bs
  | _, _ => false

end

instance : BEq Json := ⟨beq⟩

/-- Doubles are written with the fewest digits that read back, with an exponent below `1e-5` and
from `1e+16` on. -/
def doubleFormat : NumberFormat := ⟨-5, 15, true⟩

/-- The text of a number. -/
def writeDouble (x : Binary64) : String := doubleFormat.write (Decimal.shortest x)

end Json
end DualStore
