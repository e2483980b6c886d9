import DualStore.Term.Check

/-! Quads and triples of terms, and patterns over them. -/

namespace DualStore

/-- A statement and the graph it is in; the default graph has a term of its own. -/
structure Quad where
  subject : Term
  predicate : Term
  object : Term
  graph : Term
  deriving DecidableEq, Repr

/-- A statement without its graph. -/
structure Triple where
  subject : Term
  predicate : Term
  object : Term
  deriving DecidableEq, Repr

/-- A pattern over quads; a position that is not given matches every term. -/
structure QuadPattern where
  subject : Option Term := none
  predicate : Option Term := none
  object : Option Term := none
  graph : Option Term := none
  deriving DecidableEq, Repr

/-- What keeps a quad out of a store. -/
inductive QuadFault where
  | term (fault : TermFault)
  | badSubject (t : Term)
  | badPredicate (t : Term)
  | badGraph (t : Term)
  | reservedForDefaultGraph (t : Term)
  | reservedForBlanks (t : Term)
  deriving DecidableEq, Repr

def QuadFault.message : QuadFault → String
  | term fault => fault.message
  | badSubject t => s!"subject {t} must be an IRI or a blank node"
  | badPredicate t => s!"predicate {t} must be an IRI"
  | badGraph t => s!"graph {t} must be an IRI"
  | reservedForDefaultGraph t => s!"{t} is reserved for the default graph"
  | reservedForBlanks t => s!"{t} is reserved for blank nodes mirrored into the index"

namespace Triple

def inGraph (t : Triple) (graph : Term) : Quad := ⟨t.subject, t.predicate, t.object, graph⟩

/-- By subject, predicate and object. -/
instance : Ord Triple :=
  ⟨compareLex (compareOn subject) <| compareLex (compareOn predicate) (compareOn object)⟩

instance : Std.TransOrd Triple := inferInstanceAs <| Std.TransCmp <|
  compareLex (compareOn subject) <| compareLex (compareOn predicate) (compareOn object)

instance : Std.LawfulEqOrd Triple where
  eq_of_compare {s t} h := by
    obtain ⟨hs, h⟩ := compareLex_eq_eq.mp h
    obtain ⟨hp, ho⟩ := compareLex_eq_eq.mp h
    cases s; cases t
    simp only [mk.injEq]
    exact ⟨Std.LawfulEqOrd.eq_of_compare hs, Std.LawfulEqOrd.eq_of_compare hp,
      Std.LawfulEqOrd.eq_of_compare ho⟩
  compare_self := Std.ReflCmp.compare_self

def text (t : Triple) : String := s!"{t.subject} {t.predicate} {t.object} ."

end Triple

namespace Quad

/-- A quad in a graph, or in the default graph if none is given. -/
def of (subject predicate object : Term) (graph : Option Term) : Quad :=
  ⟨subject, predicate, object, graph.getD .defaultGraph⟩

def inDefaultGraph (q : Quad) : Bool := q.graph.isDefaultGraph

def withGraph (q : Quad) (graph : Term) : Quad := { q with graph }

def triple (q : Quad) : Triple := ⟨q.subject, q.predicate, q.object⟩

/-- Every blank node replaced by its IRI in the index. -/
def skolemize (q : Quad) : Quad :=
  ⟨q.subject.skolemize, q.predicate.skolemize, q.object.skolemize, q.graph.skolemize⟩

/-- By subject, predicate, object and graph. -/
instance : Ord Quad :=
  ⟨compareLex (compareOn subject) <| compareLex (compareOn predicate) <|
    compareLex (compareOn object) (compareOn graph)⟩

instance : Std.TransOrd Quad := inferInstanceAs <| Std.TransCmp <|
  compareLex (compareOn subject) <| compareLex (compareOn predicate) <|
    compareLex (compareOn object) (compareOn graph)

instance : Std.LawfulEqOrd Quad where
  eq_of_compare {s t} h := by
    obtain ⟨hs, h⟩ := compareLex_eq_eq.mp h
    obtain ⟨hp, h⟩ := compareLex_eq_eq.mp h
    obtain ⟨ho, hg⟩ := compareLex_eq_eq.mp h
    cases s; cases t
    simp only [mk.injEq]
    exact ⟨Std.LawfulEqOrd.eq_of_compare hs, Std.LawfulEqOrd.eq_of_compare hp,
      Std.LawfulEqOrd.eq_of_compare ho, Std.LawfulEqOrd.eq_of_compare hg⟩
  compare_self := Std.ReflCmp.compare_self

/-- A quad in N-Quads syntax, which does not mention the default graph. -/
def text (q : Quad) : String :=
  if q.inDefaultGraph then s!"{q.subject} {q.predicate} {q.object} ."
  else s!"{q.subject} {q.predicate} {q.object} {q.graph} ."

instance : ToString Quad := ⟨text⟩

/-! ## Checks -/

def checkTerms : List Term → Except QuadFault Unit
  | [] => .ok ()
  | t :: ts => match t.check with
    | .error fault => .error (.term fault)
    | .ok () => checkTerms ts

/-- Terms are well formed, each stands where it may, and the term of the default graph stands for
a graph only. -/
def check (q : Quad) : Except QuadFault Unit := do
  checkTerms [q.subject, q.predicate, q.object, q.graph]
  unless q.subject.isIri || q.subject.isBlank do throw (.badSubject q.subject)
  unless q.predicate.isIri do throw (.badPredicate q.predicate)
  unless q.graph.isIri do throw (.badGraph q.graph)
  match [q.subject, q.predicate, q.object].find? Term.isDefaultGraph with
  | some t => throw (.reservedForDefaultGraph t)
  | none => return

/-- Besides, no term is an IRI that stands for a blank node: it would be read back from the index
as that blank node. -/
def checkStorable (q : Quad) : Except QuadFault Unit := do
  q.check
  match [q.subject, q.predicate, q.object, q.graph].find? Term.isSkolem with
  | some t => throw (.reservedForBlanks t)
  | none => return

end Quad

namespace QuadPattern

/-- Every quad, or those of one graph. -/
def ofGraph (graph : Option Term) : QuadPattern := { graph }

def accepts (p : QuadPattern) (q : Quad) : Bool :=
  p.subject.all (· == q.subject) && p.predicate.all (· == q.predicate) &&
    p.object.all (· == q.object) && p.graph.all (· == q.graph)

end QuadPattern
end DualStore
