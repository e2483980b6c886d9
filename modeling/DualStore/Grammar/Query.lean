import DualStore.Grammar.Pattern
import DualStore.Text.Integer

/-! Reading queries, and telling the form of a query from its first keyword alone. -/

namespace DualStore
namespace Grammar

/-- A number of rows. -/
def readCount : (ts : List Token) → Except SyntaxFault (Read Nat ts)
  | .integer text :: ts => match Text.unsigned? text with
    | some n => .ok ((Read.head _ ts).map fun _ => n)
    | none => .error (.badCount text)
  | ts => expected "an integer" ts

/-- Limit and offset, each as given last, and the rest. -/
def readModifiers (limit : Option Nat) (offset : Nat) (ts : List Token) :
    Except SyntaxFault (Option Nat × Nat × List Token) :=
  match keyword? "LIMIT" ts with
  | some k => do
    let n ← readCount k.rest
    have := k.shorter
    have := n.shorter
    readModifiers (some n.value) offset n.rest
  | none => match keyword? "OFFSET" ts with
    | some k => do
      let n ← readCount k.rest
      have := k.shorter
      have := n.shorter
      readModifiers limit n.value n.rest
    | none => match oneOf? ["ORDER", "GROUP", "HAVING"] ts with
      | some feature => .error (.unsupported feature)
      | none => .ok (limit, offset, ts)
termination_by ts.length

/-- Queries ask the whole dataset. -/
def refuseDataset (ts : List Token) : Except SyntaxFault Unit :=
  if startsWithKeyword "FROM" ts then .error (.unsupported "FROM") else .ok ()

/-- A group with or without the keyword `WHERE`. -/
def readWhere (s : Scope) (ts : List Token) : Except SyntaxFault (Group × List Token) := do
  refuseDataset ts
  let pattern ← readGroup s (skipKeyword "WHERE" ts).2
  return (pattern.value, pattern.rest)

/-- The variables at the start. -/
def splitVars : List Token → List String × List Token
  | .var v :: ts =>
    let (vars, rest) := splitVars ts
    (v :: vars, rest)
  | ts => ([], ts)

/-- The rest of a count after its opening bracket. -/
def readCountProjection (ts : List Token) : Except SyntaxFault (Projection × List Token) := do
  let k ← keyword "COUNT" ts
  let opening ← punct '(' k.rest
  let (distinct, rest) := skipKeyword "DISTINCT" opening.rest
  let star ← punct '*' rest
  let close ← punct ')' star.rest
  let as ← keyword "AS" close.rest
  match as.rest with
  | .var v :: ts =>
    let close ← punct ')' ts
    return (.count v distinct, close.rest)
  | _ => throw .countWithoutVariable

def readProjection (ts : List Token) : Except SyntaxFault (Projection × List Token) :=
  match punct? '*' ts with
  | some star => .ok (.all, star.rest)
  | none => match punct? '(' ts with
    | some opening => readCountProjection opening.rest
    | none => match splitVars ts with
      | ([], _) => expected "a projection" ts
      | (vars, rest) => .ok (.vars vars, rest)

def readSelect (s : Scope) (ts : List Token) : Except SyntaxFault (Query × List Token) := do
  let (distinct, ts) := skipKeyword "DISTINCT" ts
  let (projection, ts) ← readProjection (skipKeyword "REDUCED" ts).2
  let (pattern, ts) ← readWhere s ts
  let (limit, offset, ts) ← readModifiers none 0 ts
  return (.select distinct projection pattern limit offset, ts)

/-- Triples in braces. -/
def readConstructTemplate (s : Scope) (ts : List Token) :
    Except SyntaxFault (List TriplePattern × List Token) := do
  let opening ← punct '\x7b' ts
  let triples ← readTriples s .insertTemplate opening.rest
  return (triples.value, triples.rest)

/-- With the keyword `WHERE` first, one block of triples is both template and pattern. -/
def readConstruct (s : Scope) (ts : List Token) : Except SyntaxFault (Query × List Token) := do
  let (template, pattern, ts) ← match keyword? "WHERE" ts with
    | some k => do
      let (template, _) ← readConstructTemplate s k.rest
      let pattern ← readGroup s k.rest
      pure (template, pattern.value, pattern.rest)
    | none => do
      let (template, rest) ← readConstructTemplate s ts
      let (pattern, rest) ← readWhere s rest
      pure (template, pattern, rest)
  let (limit, offset, ts) ← readModifiers none 0 ts
  if 0 < offset then throw (.unsupported "OFFSET in CONSTRUCT")
  return (.construct template pattern limit, ts)

def startsWithResource : List Token → Bool
  | .var _ :: _ | .iri _ :: _ | .name .. :: _ => true
  | _ => false

/-- The resources at the start. -/
def readResources (s : Scope) (ts : List Token) :
    Except SyntaxFault (List Node × List Token) := do
  if startsWithResource ts then
    let resource ← readNode s .pattern .subject ts
    have := resource.shorter
    let (more, rest) ← readResources s resource.rest
    return (resource.value :: more, rest)
  else return ([], ts)
termination_by ts.length

def readDescribe (s : Scope) (ts : List Token) : Except SyntaxFault (Query × List Token) := do
  if startsWithPunct ['*'] ts then throw (.unsupported "DESCRIBE *")
  let (resources, ts) ← readResources s ts
  if resources.isEmpty then expected "a resource to describe" ts
  refuseDataset ts
  let (hasWhere, ts) := skipKeyword "WHERE" ts
  let (pattern, ts) ←
    if hasWhere || startsWithPunct ['\x7b'] ts then do
      let pattern ← readGroup s ts
      pure (some pattern.value, pattern.rest)
    else pure (none, ts)
  let (_, _, ts) ← readModifiers none 0 ts
  return (.describe resources pattern, ts)

def readQuery (s : Scope) (ts : List Token) : Except SyntaxFault (Query × List Token) :=
  match keyword? "SELECT" ts with
  | some k => readSelect s k.rest
  | none => match keyword? "CONSTRUCT" ts with
    | some k => readConstruct s k.rest
    | none => match keyword? "ASK" ts with
      | some k => (readWhere s k.rest).map fun (pattern, rest) => (.ask pattern, rest)
      | none => match keyword? "DESCRIBE" ts with
        | some k => readDescribe s k.rest
        | none => expected "SELECT, CONSTRUCT, ASK or DESCRIBE" ts

end Grammar

namespace Query

def ofTokens (ts : List Token) : Except SyntaxFault Query := do
  let (s, rest) ← Grammar.readPrologue {} ts
  let (query, rest) ← Grammar.readQuery s rest.1
  Grammar.endOfInput rest
  return query

/-- Reads the text of a query. -/
def ofText (text : String) : Except SyntaxFault Query := do
  ofTokens (← (Token.ofText text).mapError .scan)

end Query

namespace QueryForm

/-- The form that a word names. -/
def ofToken? (t : Token) : Option QueryForm :=
  if t.isKeyword "SELECT" then some .select
  else if t.isKeyword "CONSTRUCT" then some .construct
  else if t.isKeyword "ASK" then some .ask
  else if t.isKeyword "DESCRIBE" then some .describe
  else none

/-- The form that the first such word of a text of `total` bytes names; what follows it is not
read. -/
def detectIn (total : Nat) (cs : List Char) : Except SyntaxFault QueryForm :=
  match Token.next? total cs with
  | .error fault => .error (.scan fault)
  | .ok none => .error .noQueryForm
  | .ok (some r) => match ofToken? r.value with
    | some form => .ok form
    | none => detectIn total r.rest
termination_by cs.length
decreasing_by exact r.shorter

def detect (text : String) : Except SyntaxFault QueryForm :=
  detectIn text.utf8ByteSize text.toList

end QueryForm
end DualStore
