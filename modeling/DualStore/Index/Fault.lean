import DualStore.Invalid
import DualStore.Solution.Detail

/-! How calls to the index fail. -/

namespace DualStore

inductive IndexFault where
  | unavailable
  | noDataset (space : String)
  | timedOut (milliseconds : Nat)
  | refused (cause : Invalid)
  /-- A server's answer with an error status. -/
  | failed (action space status body : String)
  /-- A server's answer that cannot be read. -/
  | undecodable
  | noResult
  /-- An answer to a question about the number of quads that has no number. -/
  | noCount
  | incompleteRow
  | unexpected (answer : Answer)
  deriving DecidableEq

def IndexFault.message : IndexFault → String
  | unavailable => "index is unavailable"
  | noDataset space => s!"dataset {space} does not exist"
  | timedOut milliseconds => s!"index call timed out after {milliseconds}ms"
  | refused cause => cause.message
  | failed action space status body =>
    s!"{action} dataset {space} failed with error {status} {body}"
  | undecodable => "error decoding response body"
  | noResult => "sparql results carry neither bindings nor a boolean"
  | noCount => "index answered the count query without a count"
  | incompleteRow => "index returned an incomplete row"
  | unexpected answer => s!"unexpected answer to a contents query: {answer.detail}"

end DualStore
