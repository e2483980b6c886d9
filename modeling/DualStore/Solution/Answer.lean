import DualStore.Solution.Group
import DualStore.Solution.Template
import DualStore.Text.Integer

/-! Answers of queries. -/

namespace DualStore

inductive Answer where
  /-- Variables without a term are missing from their row. -/
  | rows (sols : List Solution)
  | triples (ts : List Triple)
  | boolean (b : Bool)
  deriving DecidableEq

namespace Answer

/-- The number that a variable has in the first row. -/
def count? (var : String) : Answer → Option Nat
  | rows sols => do Text.unsigned? (← (← sols.head?).get? var).lexical
  | _ => none

/-- Blank nodes in place of the IRIs that stand for them in the index. Predicates are left as they
are. -/
def deskolemize : Answer → Answer
  | rows sols => .rows (sols.map (·.map Term.deskolemize))
  | triples ts =>
    .triples (ts.map fun t => ⟨t.subject.deskolemize, t.predicate, t.object.deskolemize⟩)
  | boolean b => boolean b

end Answer

namespace Query

/-- Skips `offset` items and keeps as many as `limit` says. -/
def window {α : Type} (items : List α) (offset : Nat) (limit : Option Nat) : List α :=
  match limit with
  | none => items.drop offset
  | some n => (items.drop offset).take n

/-- A number as a term. -/
def countTerm (n : Nat) : Term := .literal ⟨toString n, some Vocabulary.xsdInteger, none⟩

/-- The variables that a pattern has besides those that are written as such. -/
def isHiddenVar (name : String) : Bool := ['_', ':'].isPrefixOf name.toList

/-- The rows of a selection before its window. -/
def project (projection : Projection) (sols : List Solution) : List Solution :=
  match projection with
  | .all => sols.map (·.filter fun v _ => !isHiddenVar v)
  | .vars names => sols.map (·.filter fun v _ => names.contains v)
  | .count var distinct =>
    let counted := if distinct then sols.eraseDups else sols
    [(∅ : Solution).insert var (countTerm counted.length)]

/-- The terms that resources of a description stand for, in order. -/
def described (resources : List Node) (sols : List Solution) : SortedSet Term :=
  .ofList (sols.flatMap fun sol => resources.filterMap (·.value? sol))

/-- Answers a query from a source. New blank nodes are numbered from `next` on; the first number
that is left is returned with the answer. -/
def answer (src : Source) (next : Nat) : Query → Answer × Nat
  | select distinct projection pattern limit offset =>
    let rows := project projection (pattern.solutions src)
    (.rows (window (if distinct then rows.eraseDups else rows) offset limit), next)
  | construct template pattern limit =>
    let templates := template.map (⟨·, none⟩)
    let (named, next) :=
      QuadTemplate.nameBlanks templates next (window (pattern.solutions src) 0 limit)
    (.triples ((QuadTemplate.quads templates named).map Quad.triple).eraseDups, next)
  | ask pattern => (.boolean !(pattern.solutions src).isEmpty, next)
  | describe resources pattern =>
    let sols := match pattern with
      | some pattern => pattern.solutions src
      | none => [∅]
    (.triples ((described resources sols).toList.flatMap fun t =>
      (src.matching { subject := some t, graph := some .defaultGraph }).map Quad.triple), next)

end Query
end DualStore
