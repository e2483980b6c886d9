import DualStore.Batch

/-! The requests that the index is sent. Blank nodes are written as the IRIs that stand for them, so
that a later request can name the same node again. -/

namespace DualStore.Request

/-! ## Updates -/

def line (indent : String) (q : Quad) : String :=
  s!"{indent}{q.subject.skolemize} {q.predicate} {q.object.skolemize} .\n"

def lines (indent : String) (quads : List Quad) : String :=
  String.join (quads.map (line indent))

/-- The named graphs of quads, in order. -/
def namedGraphs (quads : List Quad) : SortedSet Term :=
  .ofList ((quads.filter (!·.inDefaultGraph)).map (·.graph))

def graphBlock (quads : List Quad) (graph : Term) : String :=
  s!"  GRAPH {graph} \x7b\n" ++ lines "    " (quads.filter (·.graph == graph)) ++ "  \x7d\n"

/-- Quads in braces, graph by graph; the default graph comes first. -/
def block (quads : List Quad) : String :=
  "\x7b\n" ++ lines "  " (quads.filter (·.inDefaultGraph)) ++
    String.join ((namedGraphs quads).toList.map (graphBlock quads)) ++ "\x7d"

def insertData (quads : List Quad) : String := "INSERT DATA " ++ block quads
def deleteData (quads : List Quad) : String := "DELETE DATA " ++ block quads

/-- The quads that a batch does something to in the end. -/
def quadsOf (action : Action) (b : Batch) : List Quad :=
  (b.effective.filter (·.action = action)).map (·.quad)

/-- The deletions and then the insertions of a batch; `none` if it has neither. -/
def ofBatch? (b : Batch) : Option String :=
  match quadsOf .delete b, quadsOf .insert b with
  | [], [] => none
  | deleted, [] => some (deleteData deleted)
  | [], inserted => some (insertData inserted)
  | deleted, inserted => some (deleteData deleted ++ " ;\n" ++ insertData inserted)

/-- Empties one graph, or all. -/
def drop : Option Term → String
  | none => "DROP SILENT ALL"
  | some graph =>
    if graph.isDefaultGraph then "DROP SILENT DEFAULT" else s!"DROP SILENT GRAPH {graph}"

/-! ## Queries -/

/-- The pattern of all that one graph holds, or all graphs. -/
def pattern : Option Term → String
  | none => "\x7b ?s ?p ?o \x7d UNION \x7b GRAPH ?g \x7b ?s ?p ?o \x7d \x7d"
  | some graph =>
    if graph.isDefaultGraph then "?s ?p ?o" else s!"GRAPH {graph} \x7b ?s ?p ?o \x7d"

/-- Asks for the number of quads. -/
def count (graph : Option Term) : String :=
  s!"SELECT (COUNT(*) AS ?count) WHERE \x7b {pattern graph} \x7d"

/-- Asks for the triples of a graph, or for rows `?s ?p ?o ?g` of all quads. -/
def contents : Option Term → String
  | none => s!"SELECT ?s ?p ?o ?g WHERE \x7b {pattern none} \x7d"
  | some graph => s!"CONSTRUCT \x7b ?s ?p ?o \x7d WHERE \x7b {pattern (some graph)} \x7d"

end DualStore.Request
