import DualStore.LinkedData.Fault
import DualStore.Plan
import DualStore.Records
import DualStore.Space.Name

/-! What can be wrong with what a caller passes. -/

namespace DualStore

inductive Invalid where
  | request (fault : SyntaxFault)
  | term (fault : TermFault)
  | quad (fault : QuadFault)
  | graph (fault : GraphFault)
  | document (fault : DocumentFault)
  | records (fault : RecordFault)
  | space (fault : SpaceFault)
  deriving DecidableEq, Repr

def Invalid.message : Invalid → String
  | request fault => "validation error: " ++ fault.message
  | term fault => "validation error: " ++ fault.message
  | quad fault => "validation error: " ++ fault.message
  | graph fault => "validation error: " ++ fault.message
  | document fault => "validation error: " ++ fault.message
  | records fault => "validation error: " ++ fault.message
  | space fault => "validation error: " ++ fault.message

end DualStore
