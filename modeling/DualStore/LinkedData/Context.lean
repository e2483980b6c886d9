import DualStore.Json.Value
import DualStore.LinkedData.Fault

/-! Contexts of linked-data documents: what the short names in a document stand for. -/

namespace DualStore.LinkedData

/-- The terms in force, and what names without a definition are appended to. -/
structure Context where
  vocab : Option String := none
  terms : SortedMap String String := ∅
  deriving DecidableEq

def isKeyword (key : String) : Bool := key.toList.head? = some '@'

/-- The expansion of a name whose part in front of the first colon is a term, unless two slashes
follow the colon. -/
def expandPrefix? (terms : SortedMap String String) (value : String) : Option String :=
  match Text.splitAt? (· = ':') value.toList with
  | none => none
  | some (before, rest) =>
    if ['/', '/'].isPrefixOf rest then none
    else (terms.get? (String.ofList before)).map (· ++ String.ofList rest)

namespace Context

/-- The text that a definition binds its name to. -/
def definition (name : String) : Json → Except DocumentFault String
  | .string s => .ok s
  | .object [("@id", .string s)] => .ok s
  | .object _ => .error (.badDefinition name)
  | _ => .error (.unsupportedDefinition name)

/-- Enters one definition. A null takes a term back. -/
def define (c : Context) (name : String) (value : Json) : Except DocumentFault Context :=
  match value with
  | .null => .ok { c with terms := c.terms.erase name }
  | value => do
    let text ← definition name value
    if name = "@vocab" then return { c with vocab := some text }
    if isKeyword name then throw (.contextKeyword name)
    return { c with terms := c.terms.insert name text }

/-- Definitions may use terms that are defined next to them. -/
def expandTerms (c : Context) : Context :=
  { c with terms := c.terms.map fun text => (expandPrefix? c.terms text).getD text }

/-- Enters the definitions of one context object. -/
def extendBy (c : Context) (members : List (String × Json)) : Except DocumentFault Context :=
  (members.foldlM (fun (c : Context) m => c.define m.1 m.2) c).map expandTerms

mutual

/-- A context on top of another one. A null starts over. -/
def extend (c : Context) : Json → Except DocumentFault Context
  | .null => .ok {}
  | .array items => extendAll c items
  | .object members => c.extendBy members
  | .string reference => .error (.remoteContext reference)
  | _ => .error .badContext

def extendAll (c : Context) : List Json → Except DocumentFault Context
  | [] => .ok c
  | j :: items => do extendAll (← extend c j) items

end

/-- The term that a key, an `@id` or a type stands for. Keys and types may be terms, or names that
the vocabulary completes. -/
def expand (c : Context) (value : String) (vocabulary : Bool) : Except DocumentFault Term :=
  if ['_', ':'].isPrefixOf value.toList then (Term.ofLabel value).mapError .term
  else match if vocabulary then c.terms.get? value else none with
    | some text => (Term.ofIri text).mapError .term
    | none => match expandPrefix? c.terms value with
      | some text => (Term.ofIri text).mapError .term
      | none =>
        if value.toList.contains ':' then (Term.ofIri value).mapError .term
        else match if vocabulary then c.vocab else none with
          | some text => (Term.ofIri (text ++ value)).mapError .term
          | none => .error (.noExpansion value)

end Context
end DualStore.LinkedData
