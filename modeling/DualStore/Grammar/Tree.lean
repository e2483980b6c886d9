import DualStore.Batch

/-! Syntax trees of queries and updates. -/

namespace DualStore

/-- A variable or a term. A blank node of a pattern is a variable whose name starts with `_:`. -/
inductive Node where
  | var (name : String)
  | term (t : Term)
  deriving DecidableEq, Repr

structure TriplePattern where
  subject : Node
  predicate : Node
  object : Node
  deriving DecidableEq, Repr

/-- A triple of an update's template and the graph it is for; none is the default graph. -/
structure QuadTemplate where
  triple : TriplePattern
  graph : Option Node
  deriving DecidableEq, Repr

/-- An element of a group of patterns. -/
inductive Element where
  | triple (t : TriplePattern)
  | graph (name : Node) (inner : List Element)
  | union (alternatives : List (List Element))
  | group (inner : List Element)
  deriving Repr

abbrev Group := List Element

/-- What a graph is dropped or cleared by. -/
inductive GraphTarget where
  | default
  | named
  | all
  | graph (t : Term)
  deriving DecidableEq, Repr

/-- How one graph goes into another. -/
inductive TransferMode where
  /-- The destination is replaced. -/
  | copy
  /-- The destination is replaced and the source emptied. -/
  | move
  /-- The destination is extended. -/
  | add
  deriving DecidableEq, Repr

/-- One operation of an update. With `silent`, a graph that is missing or exists already is no
error. A graph that is not given is the default graph. -/
inductive Update where
  | insertData (quads : List Quad)
  | deleteData (quads : List Quad)
  | deleteWhere (templates : List QuadTemplate)
  | modify (delete insert : List QuadTemplate) (pattern : Group)
  | create (silent : Bool) (graph : Term)
  | drop (silent : Bool) (target : GraphTarget)
  | clear (silent : Bool) (target : GraphTarget)
  | transfer (mode : TransferMode) (silent : Bool) (source destination : Option Term)
  deriving Repr

/-- What the rows of a selection show. -/
inductive Projection where
  | all
  | vars (names : List String)
  /-- One row with the number of solutions, or of distinct ones. -/
  | count (var : String) (distinct : Bool)
  deriving DecidableEq, Repr

inductive Query where
  | select (distinct : Bool) (projection : Projection) (pattern : Group) (limit : Option Nat)
    (offset : Nat)
  | construct (template : List TriplePattern) (pattern : Group) (limit : Option Nat)
  | ask (pattern : Group)
  | describe (resources : List Node) (pattern : Option Group)
  deriving Repr

/-- The four forms of queries. -/
inductive QueryForm where
  | select
  | construct
  | ask
  | describe
  deriving DecidableEq, Repr

namespace QueryForm

def returnsTriples : QueryForm → Bool
  | construct | describe => true
  | select | ask => false

end QueryForm

def Query.form : Query → QueryForm
  | select .. => .select
  | construct .. => .construct
  | ask .. => .ask
  | describe .. => .describe

end DualStore
