import DualStore.Body
import DualStore.Json.Read
import DualStore.LinkedData.Write
import DualStore.Solution.Answer

/-! What the command line reads and shows: files told apart by their shape, terms in arguments, and
answers as JSON. -/

namespace DualStore

/-- The content of a file. -/
inductive Input where
  | json (content : Json)
  | text (content : String)

namespace Input

/-- Text that opens like JSON and reads as JSON is JSON. -/
def ofText (text : String) : Input :=
  let trimmed := text.toList.dropWhile Text.isBlank
  if trimmed.head? = some '\x7b' ∨ trimmed.head? = some '[' then
    match Json.read? (String.ofList trimmed) with
    | some j => .json j
    | none => .text text
  else .text text

/-- A list of objects, at least one, that all have a text as `subject`. -/
def isRecordList : Json → Bool
  | .array items => !items.isEmpty && items.all fun j => (j.get? "subject").any (·.isString)
  | _ => false

/-- What is to be applied; `none` if a graph is given for something else than a document. -/
def body? (input : Input) (graph : Option Term) : Option Body :=
  match input with
  | .text content => if graph.isSome then none else some (.update content)
  | .json content =>
    if isRecordList content then if graph.isSome then none else some (.records content)
    else some (.document content graph)

end Input

/-- A term in N-Triples syntax, or an IRI without its brackets. -/
def Term.ofArgument (text : String) : Except Invalid Term :=
  if ['<', '\x22', '_'].any (some · == text.toList.head?) then (Term.ofText text).mapError .request
  else (Term.ofIri text).mapError .term

/-- Rows are shown as objects of terms in N-Triples syntax, triples as a document. -/
def Answer.json : Answer → Json
  | rows sols => .array (sols.map fun sol =>
      .ofMembers (sol.toList.map fun e => (e.1, .string e.2.text)))
  | triples ts => LinkedData.documentOf (ts.map (·.inGraph .defaultGraph))
  | boolean b => .bool b

end DualStore
