import DualStore.Json.Value
import DualStore.Quad.Basic

/-! Documents of quads: one node object per subject, and every value in the shortest form that says
what it is. -/

namespace DualStore.LinkedData

/-- How a document refers to an IRI or a blank node. -/
def nodeId : Term → String
  | .blank label => "_:" ++ label
  | t => t.lexical

/-- The JSON value that stands for a literal by itself. -/
def native? (lexical datatype : String) : Option Json :=
  if datatype = Vocabulary.xsdInteger then
    (Text.signed? lexical).bind fun n => if toString n = lexical then some (.integer n) else none
  else if datatype = Vocabulary.xsdDouble then (Binary64.ofText? lexical).map .double
  else if datatype = Vocabulary.xsdBoolean then
    if lexical = "true" then some (.bool true)
    else if lexical = "false" then some (.bool false)
    else none
  else none

/-- The value of a property. -/
def valueOf : Term → Json
  | .literal l => match l.language, l.datatype with
    | some tag, _ => .ofMembers [("@value", .string l.lexical), ("@language", .string tag)]
    | none, none => .string l.lexical
    | none, some datatype => (native? l.lexical datatype).getD
      (.ofMembers [("@value", .string l.lexical), ("@type", .string datatype)])
  | t => .ofMembers [("@id", .string (nodeId t))]

/-- A list with a value at its end, unless it has one that is equal. -/
def addNew (values : List Json) (j : Json) : List Json :=
  if values.any (· == j) then values else values ++ [j]

/-- One value stands for itself, several as an array. -/
def oneOrMany : List Json → Json
  | [j] => j
  | values => .array values

/-- The object of a quad is shown as a type. -/
def isTypeQuad (q : Quad) : Bool := q.predicate.lexical = Vocabulary.rdfType && q.object.isIri

def typesOf (quads : List Quad) : List Json :=
  ((quads.filter isTypeQuad).map fun q => Json.string (nodeId q.object)).foldl addNew []

/-- The keys of a node object besides its types, in the order of their first quads. -/
def propertiesOf (quads : List Quad) : List String :=
  ((quads.filter (!isTypeQuad ·)).map (·.predicate.lexical)).eraseDups

def valuesOf (quads : List Quad) (key : String) : List Json :=
  ((quads.filter fun q => !isTypeQuad q && q.predicate.lexical = key).map
    fun q => valueOf q.object).foldl addNew []

/-- The node object of a subject. A subject that has no type gets one if asked for. -/
def nodeOf (subject : Term) (quads : List Quad) (defaultType : Bool) : Json :=
  let types := typesOf quads
  let types := if types.isEmpty && defaultType then [.string Vocabulary.rdfsResource] else types
  .ofMembers <| ("@id", .string (nodeId subject)) ::
    (if types.isEmpty then [] else [("@type", oneOrMany types)]) ++
    (propertiesOf quads).map fun key => (key, oneOrMany (valuesOf quads key))

def subjectsOf (quads : List Quad) : List Term := (quads.map (·.subject)).eraseDups

/-- The document of quads, whatever their graphs. A single subject makes up a document by
itself. -/
def documentOf (quads : List Quad) : Json :=
  match subjectsOf quads with
  | [subject] => nodeOf subject quads true
  | subjects => .ofMembers [("@graph", .array (subjects.map fun t =>
      nodeOf t (quads.filter (·.subject = t)) false))]

end DualStore.LinkedData
