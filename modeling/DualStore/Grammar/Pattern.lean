import DualStore.Grammar.Prologue
import DualStore.Grammar.Tree
import DualStore.Quad.Position

/-! Reading terms, triples, templates and groups of patterns. Every reader leaves fewer tokens than
it was given. -/

namespace DualStore.Grammar

/-- What is being read. It decides about variables and blank nodes. -/
inductive Place where
  | insertData
  | deleteData
  /-- Blank nodes are variables. -/
  | pattern
  /-- Blank nodes are new ones in each solution. -/
  | insertTemplate
  | deleteTemplate
  deriving DecidableEq, Repr

def Place.isGround : Place → Bool
  | insertData | deleteData => true
  | _ => false

def propertyPath : String := "property path syntax"

/-! ## Terms -/

def liftTerm (t : Except TermFault Term) : Except SyntaxFault Node :=
  (t.map Node.term).mapError SyntaxFault.term

/-- A string with the language or the datatype that follows it. -/
def readLiteral (s : Scope) (content : String) (ts : List Token) :
    Except SyntaxFault (Node × Rest ts) :=
  match ts with
  | .language tag :: ts => (liftTerm (Term.tagged content tag)).map fun n => (n, .tail _ ts)
  | .datatypeMark :: ts => do
    let datatype ← readIri s ts
    let n ← liftTerm (Term.typed content datatype.value.lexical)
    return (n, (datatype.behind _).toRest)
  | ts => .ok (.term (.plain content), .all ts)

/-- What a token stands for that makes up a node by itself. -/
def nodeOfToken (s : Scope) (place : Place) (position : Position) (t : Token) :
    Except SyntaxFault Node :=
  match t with
  | .var v => if place.isGround then .error (.variableInData v) else .ok (.var v)
  | .iri reference => (Scope.ofIri (s.resolve reference)).map .term
  | .name ns localName => (s.expand ns localName).map .term
  | .blank label => match place with
    | .insertData | .insertTemplate => liftTerm (Term.ofLabel label)
    | .pattern => .ok (.var ("_:" ++ label))
    | .deleteData | .deleteTemplate => .error (.blankInDelete label)
  | .string content => .ok (.term (.plain content))
  | .integer text => liftTerm (Term.typed text Vocabulary.xsdInteger)
  | .decimal text => liftTerm (Term.typed text Vocabulary.xsdDecimal)
  | .double text => liftTerm (Term.typed text Vocabulary.xsdDouble)
  | .word "true" => liftTerm (Term.typed "true" Vocabulary.xsdBoolean)
  | .word "false" => liftTerm (Term.typed "false" Vocabulary.xsdBoolean)
  | .punct '[' | .punct '(' =>
    .error (.unsupported "blank node property list or collection syntax")
  | .punct '^' | .punct '!' => .error (.unsupported propertyPath)
  | t =>
    if t = .word "a" ∧ position = .predicate then .ok (.term (.iri Vocabulary.rdfType))
    else .error (.expected s!"a {position.name} term" (some t))

def readNode (s : Scope) (place : Place) (position : Position) :
    (ts : List Token) → Except SyntaxFault (Read Node ts)
  | [] => .error (.expected s!"a {position.name} term" none)
  | .string content :: ts => (readLiteral s content ts).map fun (n, rest) => Read.past n _ rest
  | t :: ts => (nodeOfToken s place position t).map fun n => (Read.head t ts).map fun _ => n

/-! ## Triples -/

/-- Objects with commas between them. -/
def readObjects (s : Scope) (place : Place) (ts : List Token) :
    Except SyntaxFault (Read (List Node) ts) := do
  let o ← readNode s place .object ts
  match punct? ',' o.rest with
  | none => return o.map fun n => [n]
  | some comma =>
    have := o.shorter
    have := comma.shorter
    let more ← readObjects s place comma.rest
    return (o.andThen (comma.andThen more)).map (o.value :: ·)
termination_by ts.length

/-- Passes all marks of one kind. -/
def skipPunct (c : Char) (ts : List Token) : List Token := ts.dropWhile (· = .punct c)

theorem length_skipPunct_le (c : Char) (ts : List Token) : (skipPunct c ts).length ≤ ts.length :=
  length_dropWhile_le ..

/-- Predicates with their objects, with semicolons between them. Semicolons may be repeated and may
end the list. -/
def readProperties (s : Scope) (place : Place) (ts : List Token) :
    Except SyntaxFault (Read (List (Node × List Node)) ts) := do
  let p ← readNode s place .predicate ts
  if startsWithPunct ['/', '|', '^', '*', '+', '?'] p.rest then
    throw (.unsupported propertyPath)
  let os ← readObjects s place p.rest
  let one := (p.andThen os).map fun objects => [(p.value, objects)]
  match punct? ';' os.rest with
  | none => return one
  | some mark =>
    have := length_skipPunct_le ';' mark.rest
    have := p.shorter
    have := os.shorter
    have := mark.shorter
    if startsWithPunct ['.', '\x7d'] (skipPunct ';' mark.rest) then
      return ⟨one.value, skipPunct ';' mark.rest, by omega⟩
    else
      let more ← readProperties s place (skipPunct ';' mark.rest)
      have := more.shorter
      return ⟨(p.value, os.value) :: more.value, more.rest, by omega⟩
termination_by ts.length

/-- The triples of one subject. -/
def readSubject (s : Scope) (place : Place) (ts : List Token) :
    Except SyntaxFault (Read (List TriplePattern) ts) := do
  let subject ← readNode s place .subject ts
  let properties ← readProperties s place subject.rest
  return (subject.andThen properties).map fun ps =>
    ps.flatMap fun (p, os) => os.map fun o => ⟨subject.value, p, o⟩

/-- What may follow the triples of a subject: a point, which is passed, or something that makes it
unnecessary. -/
def endOfTriples (ts : List Token) : Except SyntaxFault (Rest ts) :=
  match punct? '.' ts with
  | some r => .ok r.toRest
  | none =>
    if startsWithPunct ['\x7b', '\x7d'] ts || startsWithKeyword "GRAPH" ts then
      .ok (.all ts)
    else expected "'.'" ts

/-- Triples up to and including the closing brace. -/
def readTriples (s : Scope) (place : Place) (ts : List Token) :
    Except SyntaxFault (Read (List TriplePattern) ts) :=
  match punct? '\x7d' ts with
  | some close => .ok (close.map fun _ => [])
  | none => match punct? '.' ts with
    | some point =>
      have := point.shorter
      (readTriples s place point.rest).map point.andThen
    | none => do
      if startsWithKeyword "GRAPH" ts || startsWithPunct ['\x7b'] ts then
        expected "a triple" ts
      else
        let triples ← readSubject s place ts
        let rest ← endOfTriples triples.rest
        have := triples.shorter
        have := rest.2
        let more ← readTriples s place rest.1
        return ⟨triples.value ++ more.value, more.rest, by have := more.shorter; omega⟩
termination_by ts.length

/-! ## Templates -/

/-- The graph of a template. The default graph has no name there. -/
def graphName : Node → Option Node
  | .term t => if t.isDefaultGraph then none else some (.term t)
  | n => some n

/-- Triples, alone or in graphs, up to and including the closing brace. -/
def readTemplateBody (s : Scope) (place : Place) (ts : List Token) :
    Except SyntaxFault (Read (List QuadTemplate) ts) :=
  match punct? '\x7d' ts with
  | some close => .ok (close.map fun _ => [])
  | none => match punct? '.' ts with
    | some point =>
      have := point.shorter
      (readTemplateBody s place point.rest).map point.andThen
    | none => match keyword? "GRAPH" ts with
      | some k => do
        let graph ← readNode s place .graph k.rest
        let opening ← punct '\x7b' graph.rest
        let triples ← readTriples s place opening.rest
        have := k.shorter
        have := graph.shorter
        have := opening.shorter
        have := triples.shorter
        let more ← readTemplateBody s place triples.rest
        return ⟨triples.value.map (⟨·, graphName graph.value⟩) ++ more.value, more.rest, by
          have := more.shorter; omega⟩
      | none => do
        let triples ← readSubject s place ts
        let rest ← endOfTriples triples.rest
        have := triples.shorter
        have := rest.2
        let more ← readTemplateBody s place rest.1
        return ⟨triples.value.map (⟨·, none⟩) ++ more.value, more.rest, by
          have := more.shorter; omega⟩
termination_by ts.length

/-- A template in braces. -/
def readTemplate (s : Scope) (place : Place) (ts : List Token) :
    Except SyntaxFault (Read (List QuadTemplate) ts) := do
  let opening ← punct '\x7b' ts
  let body ← readTemplateBody s place opening.rest
  return opening.andThen body

/-- The quad of a template without variables. -/
def groundQuad (template : QuadTemplate) : Except SyntaxFault Quad := do
  let term : Node → Except SyntaxFault Term
    | .term t => .ok t
    | .var v => .error (.variableInData v)
  let subject ← term template.triple.subject
  let predicate ← term template.triple.predicate
  let object ← term template.triple.object
  let graph ← template.graph.mapM term
  let q := Quad.of subject predicate object graph
  q.check.mapError .quad
  return q

/-- Quads without variables, in braces. -/
def readData (s : Scope) (place : Place) (ts : List Token) :
    Except SyntaxFault (Read (List Quad) ts) := do
  let templates ← readTemplate s place ts
  let quads ← templates.value.mapM groundQuad
  return templates.map fun _ => quads

/-! ## Groups -/

/-- Elements of groups that are recognized and refused. -/
def unsupportedElements : List String := ["OPTIONAL", "FILTER", "BIND", "VALUES", "MINUS", "SERVICE"]

mutual

/-- The elements of a group up to and including the closing brace. -/
def readGroupBody (s : Scope) (ts : List Token) : Except SyntaxFault (Read Group ts) :=
  match punct? '\x7d' ts with
  | some close => .ok (close.map fun _ => [])
  | none => match punct? '.' ts with
    | some point =>
      have := point.shorter
      (readGroupBody s point.rest).map point.andThen
    | none => match punct? '\x7b' ts with
      | some opening => do
        have := opening.shorter
        let first ← readGroupBody s opening.rest
        have := first.shorter
        match keyword? "UNION" first.rest with
        | none =>
          let more ← readGroupBody s first.rest
          return (opening.andThen (first.andThen more)).map (.group first.value :: ·)
        | some k =>
          have := k.shorter
          let others ← readAlternatives s k.rest
          have := others.shorter
          let more ← readGroupBody s others.rest
          return (opening.andThen (first.andThen (k.andThen (others.andThen more)))).map
            (.union (first.value :: others.value) :: ·)
      | none => match keyword? "GRAPH" ts with
        | some k => do
          let graph ← readNode s .pattern .graph k.rest
          let opening ← punct '\x7b' graph.rest
          have := k.shorter
          have := graph.shorter
          have := opening.shorter
          let inner ← readGroupBody s opening.rest
          have := inner.shorter
          let more ← readGroupBody s inner.rest
          return (k.andThen (graph.andThen (opening.andThen (inner.andThen more)))).map
            (.graph graph.value inner.value :: ·)
        | none => match oneOf? unsupportedElements ts with
          | some feature => .error (.unsupported feature)
          | none => do
            let triples ← readSubject s .pattern ts
            let rest ← endOfTriples triples.rest
            have := triples.shorter
            have := rest.2
            let more ← readGroupBody s rest.1
            return (triples.andThen (more.widen rest.2)).map (triples.value.map .triple ++ ·)
termination_by ts.length

/-- The alternatives after a keyword `UNION`. -/
def readAlternatives (s : Scope) (ts : List Token) : Except SyntaxFault (Read (List Group) ts) := do
  let opening ← punct '\x7b' ts
  have := opening.shorter
  let first ← readGroupBody s opening.rest
  have := first.shorter
  match keyword? "UNION" first.rest with
  | none => return (opening.andThen first).map ([·])
  | some k =>
    have := k.shorter
    let others ← readAlternatives s k.rest
    return (opening.andThen (first.andThen (k.andThen others))).map (first.value :: ·)
termination_by ts.length

end

/-- A group in braces. -/
def readGroup (s : Scope) (ts : List Token) : Except SyntaxFault (Read Group ts) := do
  let opening ← punct '\x7b' ts
  let body ← readGroupBody s opening.rest
  return opening.andThen body

end DualStore.Grammar
