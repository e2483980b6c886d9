import DualStore.Text.Quoted

/-! The tokens of the request language, and how messages show them. -/

namespace DualStore

inductive Token where
  /-- An IRI reference between angle brackets, not yet resolved. -/
  | iri (reference : String)
  /-- A name with a prefix, either of which may be empty. -/
  | name (ns localName : String)
  | var (name : String)
  | blank (label : String)
  /-- The content of a string, without escapes. -/
  | string (content : String)
  | language (tag : String)
  /-- The mark between a string and its datatype. -/
  | datatypeMark
  | integer (text : String)
  | decimal (text : String)
  | double (text : String)
  /-- A bare word, such as a keyword. -/
  | word (text : String)
  | punct (c : Char)
  deriving DecidableEq, Repr

namespace Token

/-- The token as messages show it. -/
def text : Token → String
  | iri reference => s!"<{reference}>"
  | name ns localName => s!"{ns}:{localName}"
  | var v => s!"?{v}"
  | blank label => s!"_:{label}"
  | string content => Text.quoted content
  | language tag => s!"@{tag}"
  | datatypeMark => "^^"
  | integer text => text
  | decimal text => text
  | double text => text
  | word text => text
  | punct c => c.toString

/-- Keywords are given in upper case and recognized in either case of ASCII letters. -/
def upperCase (s : String) : String := String.ofList (s.toList.map Char.toUpper)

def isKeyword (keyword : String) : Token → Bool
  | word text => upperCase text == keyword
  | _ => false

end Token
end DualStore
