import DualStore.Index.Fault
import DualStore.Quad.Key
import DualStore.Report

/-! Errors of the service. -/

namespace DualStore

/-- Something that is asked for and not there. -/
inductive Missing where
  | space (name : String)
  | term (id : TermId)
  deriving DecidableEq, Repr

inductive Error where
  | validation (cause : Invalid)
  | indexWrite (fault : IndexFault)
  | indexQuery (fault : IndexFault)
  | consistency (report : Report)
  | notFound (what : Missing)
  | storage (fault : KeyFault)
  deriving DecidableEq

def Missing.message : Missing → String
  | space name => s!"space {name}"
  | term id => s!"term #{id}"

def KeyFault.message (fault : KeyFault) : String :=
  s!"quad key must be {KeyOrder.keyLength} bytes, got {fault.length}"

def Error.message : Error → String
  | validation cause => cause.message
  | indexWrite fault => "index write failed: " ++ fault.message
  | indexQuery fault => "index query failed: " ++ fault.message
  | consistency report => "stores diverged: " ++ report.text
  | notFound what => "not found: " ++ what.message
  | storage fault => "storage error: " ++ fault.message

end DualStore
