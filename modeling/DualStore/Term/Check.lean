import DualStore.Term.Basic
import DualStore.Text.Quoted
import DualStore.Text.Split

/-! Which terms are well formed, how they are built from text, and what is wrong with those that
are not. -/

namespace DualStore

/-- What is wrong with a term. -/
inductive TermFault where
  | notAbsolute (iri : String)
  | badScheme (iri : String)
  | forbiddenChar (iri : String) (c : Char)
  | badLabel (label : String)
  | badLanguage (tag : String)
  | langStringWithoutTag (lexical : String)
  /-- An IRI or a blank node with a datatype or a language. -/
  | partsNotAllowed (kind : TermKind) (lexical : String)
  | datatypeWithLanguage (lexical datatype language : String)
  /-- A literal at hand that has both parts. -/
  | bothParts (lexical : String)
  /-- A literal at hand whose datatype says no more than a plain string does. -/
  | notPlain
  | upperCaseTag (tag : String)
  deriving DecidableEq, Repr

namespace TermKind

def name : TermKind → String
  | iri => "Iri"
  | blank => "BlankNode"
  | literal => "Literal"

end TermKind

namespace TermFault

open Text in
def message : TermFault → String
  | notAbsolute iri => s!"IRI {quoted iri} is not absolute"
  | badScheme iri => s!"IRI {quoted iri} has an invalid scheme"
  | forbiddenChar iri c => s!"IRI {quoted iri} contains forbidden character {quotedChar c}"
  | badLabel label => s!"blank node label {quoted label} is not valid"
  | badLanguage tag => s!"language tag {quoted tag} is not valid"
  | langStringWithoutTag lexical =>
    s!"literal {quoted lexical} is a language string without a language tag"
  | partsNotAllowed kind lexical =>
    s!"{kind.name} term {quoted lexical} cannot carry a datatype or language"
  | datatypeWithLanguage lexical datatype language =>
    s!"literal {quoted lexical} has both datatype <{datatype}> and language @{language}"
  | bothParts lexical => s!"literal {quoted lexical} has both a datatype and a language"
  | notPlain => "xsd:string literals must be plain"
  | upperCaseTag tag => s!"language tag @{tag} must be lowercase"

end TermFault

namespace Term

/-! ## Parts of terms -/

/-- A letter, followed by letters, digits, `+`, `-` and `.`. -/
def isScheme : List Char → Bool
  | [] => false
  | c :: cs => c.isAlpha && cs.all fun c => c.isAlphanum || c = '+' || c = '-' || c = '.'

/-- Characters that no IRI contains. -/
def isForbidden (c : Char) : Bool :=
  Text.isBlank c || Text.isControl c || c = '<' || c = '>' || c = '\x22' || c = '\x7b' ||
    c = '\x7d' || c = '|' || c = '^' || c = '\x60' || c = '\x5c'

def checkIri (iri : String) : Except TermFault Unit :=
  match Text.splitAt? (· = ':') iri.toList with
  | none => .error (.notAbsolute iri)
  | some (scheme, _) =>
    if !isScheme scheme then .error (.badScheme iri)
    else match iri.toList.find? isForbidden with
      | some c => .error (.forbiddenChar iri c)
      | none => .ok ()

def isLabelChar (c : Char) : Bool := c.isAlphanum || c = '_' || c = '-' || c = '.'

/-- Labels are not empty and start with neither a point nor a hyphen. -/
def isLabel : List Char → Bool
  | [] => false
  | c :: cs => c != '.' && c != '-' && (c :: cs).all isLabelChar

def checkLabel (label : String) : Except TermFault Unit :=
  if isLabel label.toList then .ok () else .error (.badLabel label)

/-- Letters, then pieces of letters and digits, with a hyphen before each of them. -/
def isLanguage (tag : List Char) : Bool :=
  match Text.pieces '-' tag with
  | [] => false
  | p :: ps => !p.isEmpty && p.all Char.isAlpha && ps.all fun p => !p.isEmpty && p.all Char.isAlphanum

def checkLanguage (tag : String) : Except TermFault Unit :=
  if isLanguage tag.toList then .ok () else .error (.badLanguage tag)

/-! ## Building terms -/

def ofIri (value : String) : Except TermFault Term := do
  checkIri value
  return iri value

/-- A blank node from its label, which may carry `_:`. -/
def ofLabel (label : String) : Except TermFault Term := do
  let label := match label.toList with
    | '_' :: ':' :: cs => String.ofList cs
    | _ => label
  checkLabel label
  return blank label

/-- A literal with a datatype; plain for `xsd:string`. -/
def typed (lexical datatype : String) : Except TermFault Term := do
  if datatype = Vocabulary.xsdString then return plain lexical
  if datatype = Vocabulary.rdfLangString then throw (.langStringWithoutTag lexical)
  checkIri datatype
  return literal ⟨lexical, some datatype, none⟩

def lowerCase (s : String) : String := String.ofList (s.toList.map Char.toLower)

/-- A literal with a language, which is kept in lower case. -/
def tagged (lexical language : String) : Except TermFault Term := do
  checkLanguage language
  return literal ⟨lexical, none, some (lowerCase language)⟩

/-- A term from its four parts. A language may come with the datatype of language strings. -/
def ofParts (kind : TermKind) (lexical : String) (datatype language : Option String) :
    Except TermFault Term :=
  match kind, datatype, language with
  | .iri, none, none => ofIri lexical
  | .blank, none, none => ofLabel lexical
  | .literal, none, none => .ok (plain lexical)
  | .literal, some datatype, none => typed lexical datatype
  | .literal, none, some language => tagged lexical language
  | .literal, some datatype, some language =>
    if datatype = Vocabulary.rdfLangString then tagged lexical language
    else .error (.datatypeWithLanguage lexical datatype language)
  | kind, _, _ => .error (.partsNotAllowed kind lexical)

/-! ## Checking terms -/

/-- Checks a term that may have been put together without a check. -/
def check : Term → Except TermFault Unit
  | iri value => checkIri value
  | blank label => checkLabel label
  | literal ⟨lexical, some _, some _⟩ => .error (.bothParts lexical)
  | literal ⟨_, some datatype, none⟩ =>
    if datatype = Vocabulary.xsdString then .error .notPlain else checkIri datatype
  | literal ⟨_, none, some language⟩ => do
    checkLanguage language
    if language.toList.any Char.isUpper then throw (.upperCaseTag language)
  | literal ⟨_, none, none⟩ => .ok ()

/-- A term that its own parts rebuild. -/
def Normal (t : Term) : Prop := ofParts t.kind t.lexical t.datatype t.language = .ok t

instance (t : Term) : Decidable t.Normal :=
  match h : ofParts t.kind t.lexical t.datatype t.language with
  | .ok u => decidable_of_iff (u = t) (by simp [Normal, h])
  | .error _ => isFalse (by simp [Normal, h])

end Term
end DualStore
