import DualStore.Index.Fault
import DualStore.Json.Value

/-! Reading documents in the JSON format of query results: an object with rows or with a boolean.
The objects of the format may also be arrays of their fields in order; other fields do not count. -/

namespace DualStore.Results

/-! ## Shapes -/

/-- The fields of an object by the given names, `null` where they are left out; none of them is
there twice. An array has exactly these fields. -/
def fields? (names : List String) : Json → Option (List Json)
  | .object members =>
    if names.all fun name => (members.filter (·.1 = name)).length ≤ 1 then
      some (names.map fun name => (members.lookup name).getD .null)
    else none
  | .array items => if items.length = names.length then some items else none
  | _ => none

def optional? {α : Type} (read : Json → Option α) : Json → Option (Option α)
  | .null => some none
  | j => (read j).map some

def flag? : Json → Option Bool
  | .bool b => some b
  | _ => none

/-- A term as it is written. -/
inductive Entry where
  | uri (value : String)
  | bnode (value : String)
  | literal (value : String) (datatype lang : Option String)
  deriving DecidableEq, Repr

/-- The fields of a term besides its type, which comes first in an array. -/
def untyped? : Json → Option (String × Json)
  | .array (.string type :: items) => some (type, .array items)
  | .object members => match members.filter (·.1 = "type") with
    | [(_, .string type)] => some (type, .object (members.filter (·.1 ≠ "type")))
    | _ => none
  | _ => none

def entry? (j : Json) : Option Entry := do
  let (type, j) ← untyped? j
  match type with
  | "uri" => match ← fields? ["value"] j with
    | [.string value] => some (.uri value)
    | _ => none
  | "bnode" => match ← fields? ["value"] j with
    | [.string value] => some (.bnode value)
    | _ => none
  | "literal" => match ← fields? ["value", "datatype", "xml:lang"] j with
    | [.string value, datatype, lang] =>
      some (.literal value (← optional? Json.asString? datatype) (← optional? Json.asString? lang))
    | _ => none
  | "typed-literal" => match ← fields? ["value", "datatype"] j with
    | [.string value, .string datatype] => some (.literal value (some datatype) none)
    | _ => none
  | _ => none

abbrev Row := SortedMap String Entry

/-- A row; of equal variables the last counts. -/
def row? : Json → Option Row
  | .object members => do
    some (.ofList (← members.mapM fun m => do some (m.1, ← entry? m.2)))
  | _ => none

def rows? (j : Json) : Option (List Row) := do
  match ← fields? ["bindings"] j with
  | [.array rows] => rows.mapM row?
  | _ => none

/-- The rows and the boolean of a document. -/
def document? (j : Json) : Option (Option (List Row) × Option Bool) := do
  match ← fields? ["results", "boolean"] j with
  | [results, boolean] => some (← optional? rows? results, ← optional? flag? boolean)
  | _ => none

/-! ## Answers -/

/-- The term of an entry. A language goes before a datatype. -/
def Entry.term : Entry → Except TermFault Term
  | uri value => Term.ofIri value
  | bnode value => Term.ofLabel value
  | literal value _ (some lang) => Term.tagged value lang
  | literal value (some datatype) none => Term.typed value datatype
  | literal value none none => .ok (.plain value)

def solution (row : Row) : Except TermFault Solution := do
  return .ofList (← row.toList.mapM fun e => do return (e.1, ← e.2.term))

/-- The answer that a document gives. A boolean goes before rows. -/
def answer (j : Json) : Except IndexFault Answer :=
  match document? j with
  | none => .error .undecodable
  | some (_, some b) => .ok (.boolean b)
  | some (none, none) => .error .noResult
  | some (some rows, none) =>
    ((rows.mapM solution).mapError fun fault => .refused (.term fault)).map .rows

end DualStore.Results
