import DualStore.Grammar.Pattern

/-! Reading updates: operations with semicolons between them, and declarations before each. -/

namespace DualStore
namespace Grammar

def readTarget (s : Scope) (ts : List Token) : Except SyntaxFault (Read GraphTarget ts) :=
  match keyword? "DEFAULT" ts with
  | some k => .ok (k.map fun _ => .default)
  | none => match keyword? "NAMED" ts with
    | some k => .ok (k.map fun _ => .named)
    | none => match keyword? "ALL" ts with
      | some k => .ok (k.map fun _ => .all)
      | none => match keyword? "GRAPH" ts with
        | some k => do
          let graph ← readIri s k.rest
          return (k.andThen graph).map fun g => if g.isDefaultGraph then .default else .graph g
        | none => expected "DEFAULT, NAMED, ALL or GRAPH" ts

/-- A graph, with or without the keyword `GRAPH`; `none` is the default graph. -/
def readGraphOrDefault (s : Scope) (ts : List Token) :
    Except SyntaxFault (Read (Option Term) ts) :=
  match keyword? "DEFAULT" ts with
  | some k => .ok (k.map fun _ => none)
  | none => do
    let graph ← readIri s (skipKeyword "GRAPH" ts).2
    return (graph.widen (length_skipKeyword_le ..)).map fun g =>
      if g.isDefaultGraph then none else some g

/-- The rest of an operation after its templates. -/
def readModify (s : Scope) (delete insert : List QuadTemplate) (ts : List Token) :
    Except SyntaxFault (Read Update ts) := do
  if startsWithKeyword "USING" ts then throw (.unsupported "USING")
  let k ← keyword "WHERE" ts
  let pattern ← readGroup s k.rest
  return (k.andThen pattern).map fun p => .modify delete insert p

def readInsert (s : Scope) (ts : List Token) : Except SyntaxFault (Read Update ts) :=
  match keyword? "DATA" ts with
  | some k => (readData s .insertData k.rest).map fun r => (k.andThen r).map .insertData
  | none => do
    let insert ← readTemplate s .insertTemplate ts
    let rest ← readModify s [] insert.value insert.rest
    return insert.andThen rest

def readDelete (s : Scope) (ts : List Token) : Except SyntaxFault (Read Update ts) :=
  match keyword? "DATA" ts with
  | some k => (readData s .deleteData k.rest).map fun r => (k.andThen r).map .deleteData
  | none => match keyword? "WHERE" ts with
    | some k => (readTemplate s .deleteTemplate k.rest).map fun r =>
        (k.andThen r).map .deleteWhere
    | none => do
      let delete ← readTemplate s .deleteTemplate ts
      match keyword? "INSERT" delete.rest with
      | some k => do
        let insert ← readTemplate s .insertTemplate k.rest
        let rest ← readModify s delete.value insert.value insert.rest
        return delete.andThen (k.andThen (insert.andThen rest))
      | none => do
        let rest ← readModify s delete.value [] delete.rest
        return delete.andThen rest

/-- Splits off the keyword `SILENT`. -/
def skipSilent (ts : List Token) : Bool × Rest ts :=
  ((skipKeyword "SILENT" ts).1, ⟨(skipKeyword "SILENT" ts).2, length_skipKeyword_le ..⟩)

def readCreate (s : Scope) (ts : List Token) : Except SyntaxFault (Read Update ts) := do
  let (silent, rest) := skipSilent ts
  let k ← keyword "GRAPH" rest.1
  let graph ← readIri s k.rest
  if graph.value.isDefaultGraph then throw .defaultGraphCreated
  return ((k.andThen graph).map (.create silent)).widen rest.2

def readTransfer (s : Scope) (mode : TransferMode) (ts : List Token) :
    Except SyntaxFault (Read Update ts) := do
  let (silent, rest) := skipSilent ts
  let source ← readGraphOrDefault s rest.1
  let k ← keyword "TO" source.rest
  let destination ← readGraphOrDefault s k.rest
  return ((source.andThen (k.andThen destination)).map
    (.transfer mode silent source.value)).widen rest.2

/-- The rest of an operation that starts with the given word. -/
def readOperationAfter (s : Scope) (word : String) (ts : List Token) :
    Except SyntaxFault (Read Update ts) :=
  match Token.upperCase word with
  | "INSERT" => readInsert s ts
  | "DELETE" => readDelete s ts
  | "CREATE" => readCreate s ts
  | "DROP" => do
    let (silent, rest) := skipSilent ts
    return ((← readTarget s rest.1).map (.drop silent)).widen rest.2
  | "CLEAR" => do
    let (silent, rest) := skipSilent ts
    return ((← readTarget s rest.1).map (.clear silent)).widen rest.2
  | "COPY" => readTransfer s .copy ts
  | "MOVE" => readTransfer s .move ts
  | "ADD" => readTransfer s .add ts
  | "WITH" => .error (.unsupported "WITH")
  | "LOAD" => .error (.unsupported "LOAD")
  | _ => .error (.unknownOperation word)

def readOperation (s : Scope) : (ts : List Token) → Except SyntaxFault (Read Update ts)
  | .word word :: ts => (readOperationAfter s word ts).map (·.behind _)
  | ts => expected "an update operation" ts

/-- Operations up to the end of the input. -/
def readOperations (s : Scope) (ts : List Token) : Except SyntaxFault (List Update) :=
  if ts.isEmpty then .ok []
  else do
    let operation ← readOperation s ts
    match punct? ';' operation.rest with
    | none =>
      endOfInput operation.rest
      return [operation.value]
    | some mark =>
      have := operation.shorter
      have := mark.shorter
      let (s, rest) ← readPrologue s mark.rest
      have := rest.2
      return operation.value :: (← readOperations s rest.1)
termination_by ts.length

end Grammar

namespace Update

/-- The operations of an update. -/
def ofTokens (ts : List Token) : Except SyntaxFault (List Update) := do
  let (s, rest) ← Grammar.readPrologue {} ts
  Grammar.readOperations s rest.1

/-- Reads the text of an update. -/
def ofText (text : String) : Except SyntaxFault (List Update) := do
  ofTokens (← (Token.ofText text).mapError .scan)

end Update
end DualStore
