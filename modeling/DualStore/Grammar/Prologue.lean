import DualStore.Collection.SortedMap
import DualStore.Grammar.Fault
import DualStore.Grammar.Reference

/-! Single tokens and keywords of a request, and its declarations of prefixes and bases. -/

namespace DualStore.Grammar

/-! ## Tokens -/

/-- The rest after a punctuation mark. -/
def punct? (c : Char) : (ts : List Token) → Option (Read Unit ts)
  | [] => none
  | t :: ts => if t = .punct c then some ((Read.head t ts).map fun _ => ()) else none

/-- The rest after a keyword. -/
def keyword? (keyword : String) : (ts : List Token) → Option (Read Unit ts)
  | [] => none
  | t :: ts => if t.isKeyword keyword then some ((Read.head t ts).map fun _ => ()) else none

def startsWithKeyword (keyword : String) (ts : List Token) : Bool :=
  ts.head?.any (·.isKeyword keyword)

def startsWithPunct (marks : List Char) (ts : List Token) : Bool :=
  match ts with
  | .punct c :: _ => marks.contains c
  | _ => false

/-- What was found instead of `what`. -/
def expected {α : Type} (what : String) (ts : List Token) : Except SyntaxFault α :=
  .error (.expected what ts.head?)

def punct (c : Char) (ts : List Token) : Except SyntaxFault (Read Unit ts) :=
  match punct? c ts with
  | some r => .ok r
  | none => expected s!"'{c}'" ts

def keyword (keyword : String) (ts : List Token) : Except SyntaxFault (Read Unit ts) :=
  match keyword? keyword ts with
  | some r => .ok r
  | none => expected keyword ts

/-- The rest after a keyword that may be missing. -/
def skipKeyword (keyword : String) (ts : List Token) : Bool × List Token :=
  match keyword? keyword ts with
  | some r => (true, r.rest)
  | none => (false, ts)

theorem length_skipKeyword_le (keyword : String) (ts : List Token) :
    (skipKeyword keyword ts).2.length ≤ ts.length := by
  rw [skipKeyword]
  split
  next r _ => exact Nat.le_of_lt r.shorter
  next => exact Nat.le_refl _

/-- The first of several keywords that a rest starts with. -/
def oneOf? (keywords : List String) (ts : List Token) : Option String :=
  keywords.find? fun k => startsWithKeyword k ts

def endOfInput (ts : List Token) : Except SyntaxFault Unit :=
  if ts.isEmpty then .ok () else expected "end of input" ts

/-! ## Declarations -/

/-- The declarations in force. -/
structure Scope where
  base : Option String := none
  prefixes : SortedMap String String := ∅

namespace Scope

/-- The text of the IRI that a reference stands for. -/
def resolve (s : Scope) (reference : String) : String :=
  match s.base with
  | some base => String.ofList (Reference.resolve base.toList reference.toList)
  | none => reference

def ofIri (value : String) : Except SyntaxFault Term := (Term.ofIri value).mapError .term

def expand (s : Scope) (ns localName : String) : Except SyntaxFault Term :=
  match s.prefixes.get? ns with
  | some value => ofIri (value ++ localName)
  | none => .error (.undeclaredPrefix ns)

end Scope

/-- An IRI, in full or as a prefixed name. -/
def readIri (s : Scope) : (ts : List Token) → Except SyntaxFault (Read Term ts)
  | .iri reference :: ts => (Scope.ofIri (s.resolve reference)).map fun t =>
      (Read.head _ ts).map fun _ => t
  | .name ns localName :: ts => (s.expand ns localName).map fun t => (Read.head _ ts).map fun _ => t
  | ts => expected "an IRI" ts

/-- One declaration after its keyword `PREFIX`. -/
def readPrefix (s : Scope) : (ts : List Token) → Except SyntaxFault (Read Scope ts)
  | .name ns localName :: ts =>
    if localName ≠ "" then .error (.prefixWithLocalName ns localName)
    else match ts with
      | .iri reference :: ts =>
        .ok (((Read.head _ ts).map fun _ =>
          { s with prefixes := s.prefixes.insert ns (s.resolve reference) }).behind _)
      | _ => .error (.prefixWithoutIri ns)
  | _ => .error .prefixWithoutName

/-- One declaration after its keyword `BASE`. -/
def readBase (s : Scope) : (ts : List Token) → Except SyntaxFault (Read Scope ts)
  | .iri reference :: ts =>
    .ok ((Read.head _ ts).map fun _ => { s with base := some (s.resolve reference) })
  | _ => .error .baseWithoutIri

/-- Declarations, each of which may use those before it. -/
def readPrologue (s : Scope) (ts : List Token) :
    Except SyntaxFault (Scope × Rest ts) :=
  let more := fun (k : Read Unit ts) (declaration : Except SyntaxFault (Read Scope k.rest)) => do
    let d ← declaration
    have := k.shorter
    have := d.shorter
    let (s, rest) ← readPrologue d.value d.rest
    .ok (s, ⟨rest.1, by have := rest.2; omega⟩)
  match keyword? "PREFIX" ts with
  | some k => more k (readPrefix s k.rest)
  | none => match keyword? "BASE" ts with
    | some k => more k (readBase s k.rest)
    | none => .ok (s, .all ts)
termination_by ts.length

end DualStore.Grammar
