import DualStore.Grammar.Statement
import DualStore.Json.Write

/-! Lists of quads in JSON: records of terms in N-Triples syntax. All shapes are checked before any
term is read. -/

namespace DualStore

inductive RecordFault where
  /-- A value of another type than expected. -/
  | wrongType (found expected : String)
  | unknownField (name : String)
  | missingField (name : String)
  | tooShort (length : Nat)
  | tooLong (length : Nat)
  | term (fault : SyntaxFault)
  | quad (fault : QuadFault)
  deriving DecidableEq, Repr

namespace RecordFault

private def shape : RecordFault → String
  | wrongType found expected => s!"invalid type: {found}, expected {expected}"
  | unknownField name =>
    s!"unknown field \x60{name}\x60, expected one of \x60subject\x60, \x60predicate\x60, \x60object\x60, \x60graph\x60"
  | missingField name => s!"missing field \x60{name}\x60"
  | tooShort length => s!"invalid length {length}, expected struct QuadRecord with 4 elements"
  | tooLong length => s!"invalid length {length}, expected fewer elements in array"
  | term fault => fault.message
  | quad fault => fault.message

def message : RecordFault → String
  | term fault => fault.message
  | quad fault => fault.message
  | fault => "malformed quad list: " ++ fault.shape

end RecordFault

/-- A quad as the texts of its terms. -/
structure QuadRecord where
  subject : String
  predicate : String
  object : String
  graph : Option String
  deriving DecidableEq, Repr

namespace QuadRecord

/-- What messages call a value. -/
def describe : Json → String
  | .null => "null"
  | .bool b => s!"boolean \x60{b}\x60"
  | .integer n => s!"integer \x60{n}\x60"
  | .double x => s!"floating point \x60{Json.writeDouble x}\x60"
  | .string s => s!"string {Text.quoted s}"
  | .array _ => "sequence"
  | .object _ => "map"

def wrong {α : Type} (found : Json) (expected : String) : Except RecordFault α :=
  .error (.wrongType (describe found) expected)

def textOf : Json → Except RecordFault String
  | .string s => .ok s
  | j => wrong j "a string"

def optionalText : Json → Except RecordFault (Option String)
  | .null => .ok none
  | j => (textOf j).map some

/-- The fields of an object, as far as they are read. -/
structure Fields where
  subject : Option String := none
  predicate : Option String := none
  object : Option String := none
  graph : Option String := none

def Fields.add (f : Fields) (key : String) (value : Json) : Except RecordFault Fields :=
  match key with
  | "subject" => (textOf value).map fun s => { f with subject := some s }
  | "predicate" => (textOf value).map fun s => { f with predicate := some s }
  | "object" => (textOf value).map fun s => { f with object := some s }
  | "graph" => (optionalText value).map fun s => { f with graph := s }
  | key => .error (.unknownField key)

def ofMembers (members : List (String × Json)) : Except RecordFault QuadRecord := do
  let f ← members.foldlM (fun (f : Fields) m => f.add m.1 m.2) {}
  match f.subject, f.predicate, f.object with
  | none, _, _ => throw (.missingField "subject")
  | _, none, _ => throw (.missingField "predicate")
  | _, _, none => throw (.missingField "object")
  | some subject, some predicate, some object => return ⟨subject, predicate, object, f.graph⟩

/-- A record may also be an array of its three or four texts. -/
def ofItems (items : List Json) : Except RecordFault QuadRecord := do
  let text (n : Nat) : Except RecordFault String := match items[n]? with
    | some j => textOf j
    | none => throw (.tooShort n)
  let subject ← text 0
  let predicate ← text 1
  let object ← text 2
  let graph ← match items[3]? with
    | some j => optionalText j
    | none => pure none
  if 4 < items.length then throw (.tooLong items.length)
  return ⟨subject, predicate, object, graph⟩

def ofJson : Json → Except RecordFault QuadRecord
  | .object members => ofMembers members
  | .array items => ofItems items
  | j => wrong j "struct QuadRecord"

def readTerm (text : String) : Except RecordFault Term := (Term.ofText text).mapError .term

/-- The quad of a record. -/
def quad (r : QuadRecord) : Except RecordFault Quad := do
  let graph ← r.graph.mapM readTerm
  let subject ← readTerm r.subject
  let predicate ← readTerm r.predicate
  let object ← readTerm r.object
  let q := Quad.of subject predicate object graph
  q.checkStorable.mapError .quad
  return q

/-- The quads of a list of records. -/
def quadsOf (records : Json) : Except RecordFault (List Quad) := do
  match records with
  | .array items => (← items.mapM ofJson).mapM quad
  | j => wrong j "a sequence"

end QuadRecord
end DualStore
