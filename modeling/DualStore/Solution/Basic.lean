import DualStore.Grammar.Tree
import DualStore.Collection.SortedMap

/-! Solutions of patterns: terms for variables. -/

namespace DualStore

/-- The terms of the variables that have one. -/
abbrev Solution := SortedMap String Term

namespace Solution

/-- Extends a solution so that a node stands for a term; `none` if it stands for another one. -/
def unify (sol : Solution) (n : Node) (t : Term) : Option Solution :=
  match n with
  | .term u => if u = t then some sol else none
  | .var v => match sol.get? v with
    | some u => if u = t then some sol else none
    | none => some (sol.insert v t)

end Solution

/-- The term that a node stands for in a solution. -/
def Node.value? (sol : Solution) : Node → Option Term
  | term t => some t
  | var v => sol.get? v

end DualStore
