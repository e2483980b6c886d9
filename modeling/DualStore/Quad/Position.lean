/-! The four positions of a quad. -/

namespace DualStore

inductive Position where
  | subject
  | predicate
  | object
  | graph
  deriving DecidableEq, Repr

namespace Position

def name : Position → String
  | subject => "subject"
  | predicate => "predicate"
  | object => "object"
  | graph => "graph"

end Position
end DualStore
