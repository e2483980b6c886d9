import DualStore.Json.Write
import DualStore.LinkedData.Context

/-! The quads of a linked-data document. Nested node objects are flattened: the quads of a node
come before the quad that refers to it. -/

namespace DualStore.LinkedData

/-- Reading, with the number of the next new blank node. -/
abbrev Reader := StateT Nat (Except DocumentFault)

def newBlank : Reader Term := fun n => .ok (Term.fresh n, n + 1)

/-! ## Values -/

/-- A scalar as a literal of the given datatype. -/
def typedScalar (value : Json) (datatype : Term) : Except DocumentFault Term :=
  match value with
  | .string s => (Term.typed s datatype.lexical).mapError .term
  | .integer _ | .double _ | .bool _ => (Term.typed value.write datatype.lexical).mapError .term
  | _ => .error .badValue

/-- A scalar as the literal of its own kind. -/
def scalar (value : Json) : Except DocumentFault Term :=
  match value with
  | .string s => .ok (.plain s)
  | .bool _ => (Term.typed value.write Vocabulary.xsdBoolean).mapError .term
  | .integer _ => (Term.typed value.write Vocabulary.xsdInteger).mapError .term
  | .double _ => (Term.typed value.write Vocabulary.xsdDouble).mapError .term
  | _ => .error .badScalar

/-- What a value object says about its value. -/
structure ValueParts where
  datatype : Option Term := none
  language : Option String := none

def ValueParts.add (c : Context) (p : ValueParts) (key : String) (value : Json) :
    Except DocumentFault ValueParts :=
  match key, value with
  | "@value", _ => .ok p
  | "@type", .string t => (c.expand t true).map fun t => { p with datatype := some t }
  | "@type", _ => .error .badValueType
  | "@language", .string tag => .ok { p with language := some tag }
  | "@language", _ => .error .badLanguage
  | key, _ => .error (.valueKey key)

/-- The literal of an object with the member `@value`. -/
def valueObject (c : Context) (members : List (String × Json)) (value : Json) :
    Except DocumentFault Term := do
  let p ← members.foldlM (fun (p : ValueParts) m => p.add c m.1 m.2) {}
  match p.datatype, p.language with
  | some _, some _ => throw .typeAndLanguage
  | some datatype, none => typedScalar value datatype
  | none, none => scalar value
  | none, some tag => match value with
    | .string s => (Term.tagged s tag).mapError .term
    | _ => throw .languageOfNonString

/-! ## Nodes -/

/-- The texts of a member `@type`. -/
def typeNames : Json → Except DocumentFault (List String)
  | .string s => .ok [s]
  | .array items => items.mapM fun j => match j with
    | .string s => .ok s
    | _ => .error .badTypeItem
  | _ => .error .badType

def typeQuads (graph : Term) (c : Context) (subject : Term) (value : Json) :
    Except DocumentFault (List Quad) := do
  (← typeNames value).mapM fun name =>
    (c.expand name true).map fun t => ⟨subject, .iri Vocabulary.rdfType, t, graph⟩

/-- The context inside a node object, and its subject. A node without `@id` is a new blank node. -/
def nodeHead (c : Context) (members : List (String × Json)) : Reader (Context × Term) := do
  let c ← match Json.lookup? "@context" members with
    | some definition => c.extend definition
    | none => pure c
  match Json.lookup? "@id" members with
  | some (.string id) => return (c, ← c.expand id false)
  | some _ => throw .badId
  | none => return (c, ← newBlank)

mutual

/-- The quads of the members of a node object. -/
def readMembers (graph : Term) (c : Context) (subject : Term) :
    List (String × Json) → Reader (List Quad)
  | [] => return []
  | (key, value) :: members => do
    let quads ←
      if key = "@context" ∨ key = "@id" then pure []
      else if key = "@type" then typeQuads graph c subject value
      else if isKeyword key then throw (.nodeKeyword key)
      else do readValue graph c subject (← c.expand key true) value
    return quads ++ (← readMembers graph c subject members)

/-- The quads of a value of a property. -/
def readValue (graph : Term) (c : Context) (subject predicate : Term) : Json → Reader (List Quad)
  | .null => return []
  | .array items => readValues graph c subject predicate items
  | .object members => match Json.lookup? "@value" members with
    | some value => return [⟨subject, predicate, ← valueObject c members value, graph⟩]
    | none => do
      let (inner, object) ← nodeHead c members
      let quads ← readMembers graph inner object members
      return quads ++ [⟨subject, predicate, object, graph⟩]
  | value => return [⟨subject, predicate, ← scalar value, graph⟩]

def readValues (graph : Term) (c : Context) (subject predicate : Term) :
    List Json → Reader (List Quad)
  | [] => return []
  | j :: items => do
    let quads ← readValue graph c subject predicate j
    return quads ++ (← readValues graph c subject predicate items)

end

/-- The quads of a node object. -/
def readNode (graph : Term) (c : Context) (members : List (String × Json)) :
    Reader (List Quad) := do
  let (inner, subject) ← nodeHead c members
  readMembers graph inner subject members

/-- The quads of node objects; other values are the given fault. -/
def readNodes (graph : Term) (c : Context) (fault : DocumentFault) :
    List Json → Reader (List Quad)
  | [] => return []
  | .object members :: items => do
    let quads ← readNode graph c members
    return quads ++ (← readNodes graph c fault items)
  | _ :: _ => throw fault

/-! ## Documents -/

/-- The quads of a document with a member `@graph`. Without another graph they go into the one that
the document names. -/
def readGraph (members : List (String × Json)) (content : Json) (graph : Option Term) :
    Reader (List Quad) := do
  let c ← match Json.lookup? "@context" members with
    | some definition => Context.extend {} definition
    | none => pure {}
  match members.find? fun m => !(["@context", "@id", "@graph"].contains m.1) with
  | some (key, _) => throw (.keyBesideGraph key)
  | none =>
    let graph ← match graph, Json.lookup? "@id" members with
      | some graph, _ => pure graph
      | none, none => pure .defaultGraph
      | none, some (.string id) => c.expand id false
      | none, some _ => throw .badId
    let items := match content with
      | .array items => items
      | item => [item]
    readNodes graph c .badGraphItem items

def readDocument (document : Json) (graph : Option Term) : Reader (List Quad) :=
  match document with
  | .array items => readNodes (graph.getD .defaultGraph) {} .badItem items
  | .object members => match Json.lookup? "@graph" members with
    | some content => readGraph members content graph
    | none => readNode (graph.getD .defaultGraph) {} members
  | _ => throw .badDocument

def checkAll : List Quad → Except DocumentFault Unit
  | [] => .ok ()
  | q :: qs => do
    q.checkStorable.mapError .quad
    checkAll qs

/-- The quads of a document, in the given graph. New blank nodes are numbered from `next` on; the
first number that is left is returned as well. -/
def quadsOf (document : Json) (graph : Option Term) (next : Nat) :
    Except DocumentFault (List Quad × Nat) := do
  let (quads, next) ← (readDocument document graph).run next
  checkAll quads
  return (quads, next)

end DualStore.LinkedData
