import DualStore.Grammar.Scan
import DualStore.Quad.Basic

/-! What is wrong with the text of a request. -/

namespace DualStore

inductive SyntaxFault where
  | scan (fault : ScanFault)
  | term (fault : TermFault)
  | quad (fault : QuadFault)
  /-- Another token than expected, or the end of the input. -/
  | expected (what : String) (found : Option Token)
  | unsupported (feature : String)
  | prefixWithoutName
  | prefixWithLocalName (ns localName : String)
  | prefixWithoutIri (ns : String)
  | baseWithoutIri
  | undeclaredPrefix (ns : String)
  | variableInData (name : String)
  | blankInDelete (label : String)
  | defaultGraphCreated
  | unknownOperation (word : String)
  | badCount (text : String)
  | countWithoutVariable
  | noQueryForm
  deriving DecidableEq, Repr

namespace SyntaxFault

def message : SyntaxFault → String
  | scan fault => fault.message
  | term fault => fault.message
  | quad fault => fault.message
  | expected what (some t) => s!"expected {what}, found {t.text}"
  | expected what none => s!"expected {what}, found end of input"
  | unsupported feature => s!"{feature} is not supported"
  | prefixWithoutName => "PREFIX must be followed by a prefix name"
  | prefixWithLocalName ns localName =>
    s!"prefix declaration {ns}:{localName} must end with ':'"
  | prefixWithoutIri ns => s!"prefix {ns}: must be bound to an IRI"
  | baseWithoutIri => "BASE must be followed by an IRI"
  | undeclaredPrefix ns => s!"undeclared prefix {ns}:"
  | variableInData name => s!"variable ?{name} is not allowed in ground data"
  | blankInDelete label => s!"blank node _:{label} is not allowed in a delete"
  | defaultGraphCreated => "the default graph cannot be created"
  | unknownOperation word => s!"unknown update operation {word}"
  | badCount text => s!"{text} is not a valid count"
  | countWithoutVariable => "COUNT must be bound to a variable"
  | noQueryForm => "query has no SELECT, CONSTRUCT, ASK or DESCRIBE form"

end SyntaxFault
end DualStore
