import DualStore.Quad.Basic

/-! What is wrong with a linked-data document. -/

namespace DualStore

inductive DocumentFault where
  | term (fault : TermFault)
  | quad (fault : QuadFault)
  | badDefinition (name : String)
  | unsupportedDefinition (name : String)
  | contextKeyword (name : String)
  | remoteContext (reference : String)
  | badContext
  | noExpansion (value : String)
  | badId
  | badTypeItem
  | badType
  | nodeKeyword (name : String)
  | badValue
  | badScalar
  | badValueType
  | badLanguage
  | valueKey (key : String)
  | typeAndLanguage
  | languageOfNonString
  | badItem
  | badGraphItem
  | keyBesideGraph (key : String)
  | badDocument
  deriving DecidableEq, Repr

namespace DocumentFault

def message : DocumentFault → String
  | term fault => fault.message
  | quad fault => fault.message
  | badDefinition name =>
    s!"term definition of {name} must be a string or \x7b\"@id\": ..\x7d"
  | unsupportedDefinition name => s!"unsupported term definition for {name}"
  | contextKeyword name => s!"unsupported context keyword {name}"
  | remoteContext reference => s!"remote context {reference} is not supported"
  | badContext => "context must be an object or an array"
  | noExpansion value => s!"unable to expand {Text.quoted value} to an absolute IRI"
  | badId => "@id must be a string"
  | badTypeItem => "@type values must be strings"
  | badType => "@type must be a string or an array"
  | nodeKeyword name => s!"unsupported JSON-LD keyword {name}"
  | badValue => "@value must be a scalar"
  | badScalar => "unexpected JSON-LD value"
  | badValueType => "value @type must be a string"
  | badLanguage => "@language must be a string"
  | valueKey key => s!"unsupported key {key} in value object"
  | typeAndLanguage => "value object cannot carry both @type and @language"
  | languageOfNonString => "language tagged values must be strings"
  | badItem => "top level items must be node objects"
  | badGraphItem => "@graph items must be node objects"
  | keyBesideGraph key => s!"unsupported key {key} next to @graph"
  | badDocument => "JSON-LD input must be an object or an array"

end DocumentFault
end DualStore
