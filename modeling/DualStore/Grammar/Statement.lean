import DualStore.Grammar.Pattern

/-! Reading single terms and documents of triples in N-Triples syntax. -/

namespace DualStore
namespace Grammar

/-- A term without variables. -/
def readTerm (ts : List Token) : Except SyntaxFault (Read Term ts) := do
  let n ← readNode {} .insertData .object ts
  match n.value with
  | .term t => return n.map fun _ => t
  | .var v => throw (.variableInData v)

/-- Triples that end with points, up to the end of the input. -/
def readStatements (ts : List Token) : Except SyntaxFault (List Triple) :=
  if ts.isEmpty then .ok []
  else do
    let subject ← readTerm ts
    let predicate ← readTerm subject.rest
    let object ← readTerm predicate.rest
    let point ← punct '.' object.rest
    have := subject.shorter
    have := predicate.shorter
    have := object.shorter
    have := point.shorter
    return ⟨subject.value, predicate.value, object.value⟩ :: (← readStatements point.rest)
termination_by ts.length

end Grammar

/-- Reads a text that holds one term. -/
def Term.ofText (text : String) : Except SyntaxFault Term := do
  let ts ← (Token.ofText text).mapError .scan
  let t ← Grammar.readTerm ts
  Grammar.endOfInput t.rest
  return t.value

/-- Reads a document of triples. -/
def Triple.listOfText (text : String) : Except SyntaxFault (List Triple) := do
  Grammar.readStatements (← (Token.ofText text).mapError .scan)

end DualStore
