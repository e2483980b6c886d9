import DualStore.Vocabulary
import DualStore.Text.CharClass

/-! RDF terms: their parts, their order and their N-Triples text. Blank nodes have a second form
as IRIs under `Vocabulary.skolemPrefix`, which is how the index sees them. -/

namespace DualStore

inductive TermKind where
  | iri
  | blank
  | literal
  deriving DecidableEq, Repr

structure Literal where
  lexical : String
  /-- Absent for plain strings and for strings with a language. -/
  datatype : Option String
  language : Option String
  deriving DecidableEq, Repr

inductive Term where
  | iri (value : String)
  | blank (label : String)
  | literal (value : Literal)
  deriving DecidableEq, Repr

namespace Term

/-! ## Parts -/

def kind : Term → TermKind
  | iri _ => .iri
  | blank _ => .blank
  | literal _ => .literal

/-- The IRI, the label or the lexical form. -/
def lexical : Term → String
  | iri value => value
  | blank label => label
  | literal l => l.lexical

def datatype : Term → Option String
  | literal l => l.datatype
  | _ => none

def language : Term → Option String
  | literal l => l.language
  | _ => none

def asIri? : Term → Option String
  | iri value => some value
  | _ => none

def isIri (t : Term) : Bool := t.kind = .iri
def isBlank (t : Term) : Bool := t.kind = .blank
def isLiteral (t : Term) : Bool := t.kind = .literal

/-- A literal without datatype and language. -/
def plain (lexical : String) : Term := literal ⟨lexical, none, none⟩

/-- A term is its kind, lexical form, datatype and language. -/
theorem ext_parts {s t : Term} (hk : s.kind = t.kind) (hl : s.lexical = t.lexical)
    (hd : s.datatype = t.datatype) (hg : s.language = t.language) : s = t := by
  cases s <;> cases t <;> simp_all [kind, lexical, datatype, language]
  next l m => cases l; cases m; simp_all

/-! ## The default graph and blank nodes -/

/-- The term of the default graph. -/
def defaultGraph : Term := iri Vocabulary.defaultGraph

def isDefaultGraph (t : Term) : Bool := t == defaultGraph

/-- `t` is an IRI that stands for a blank node in the index. -/
def isSkolem : Term → Bool
  | iri value => Vocabulary.skolemPrefix.toList.isPrefixOf value.toList
  | _ => false

/-- The IRI that stands for a blank node in the index; other terms stand for themselves. -/
def skolemize : Term → Term
  | blank label => iri (Vocabulary.skolemPrefix ++ label)
  | t => t

/-- The blank node that an IRI stands for in the index; other terms stand for themselves. -/
def deskolemize : Term → Term
  | iri value =>
    if Vocabulary.skolemPrefix.toList.isPrefixOf value.toList then
      blank (String.ofList (value.toList.drop Vocabulary.skolemPrefix.length))
    else iri value
  | t => t

/-- Labels of new blank nodes: the same length for every number, so that they sort by number. -/
def freshLabel (n : Nat) : String :=
  let digits := Nat.toDigits 16 n
  "b01" ++ String.ofList (List.replicate (30 - digits.length) '0' ++ digits)

/-- The blank node number `n` of those that are made up on the way. -/
def fresh (n : Nat) : Term := blank (freshLabel n)

theorem isDefaultGraph_iff {t : Term} : t.isDefaultGraph = true ↔ t = defaultGraph := by
  simp [isDefaultGraph]

theorem deskolemize_skolemize_blank (label : String) :
    deskolemize (skolemize (blank label)) = blank label := by
  simp [skolemize, deskolemize, ← String.length_toList]

/-! ## Order -/

def kindRank : TermKind → Nat
  | .iri => 0
  | .blank => 1
  | .literal => 2

/-- By kind, then by the parts; an absent part comes first. -/
instance : Ord Term := ⟨compareLex (compareOn (kindRank ·.kind)) <| compareLex (compareOn lexical) <|
  compareLex (compareOn datatype) (compareOn language)⟩

instance : Std.TransOrd Term := inferInstanceAs <| Std.TransCmp <|
  compareLex (compareOn fun t : Term => kindRank t.kind) <| compareLex (compareOn lexical) <|
    compareLex (compareOn datatype) (compareOn language)

private theorem kindRank_inj {a b : TermKind} (h : kindRank a = kindRank b) : a = b := by
  cases a <;> cases b <;> simp_all [kindRank]

instance : Std.LawfulEqOrd Term where
  eq_of_compare {s t} h := by
    obtain ⟨hk, h⟩ := compareLex_eq_eq.mp h
    obtain ⟨hl, h⟩ := compareLex_eq_eq.mp h
    obtain ⟨hd, hg⟩ := compareLex_eq_eq.mp h
    exact ext_parts (kindRank_inj (Std.LawfulEqOrd.eq_of_compare hk))
      (Std.LawfulEqOrd.eq_of_compare hl) (Std.LawfulEqOrd.eq_of_compare hd)
      (Std.LawfulEqOrd.eq_of_compare hg)
  compare_self := Std.ReflCmp.compare_self

/-! ## Text -/

/-- Four upper-case hexadecimal digits, or more where four do not do. -/
def codeDigits (n : Nat) : List Char :=
  let digits := (Nat.toDigits 16 n).map Char.toUpper
  List.replicate (4 - digits.length) '0' ++ digits

/-- A character of a literal: quotes, backslashes and controls are escaped. -/
def escape (c : Char) : List Char :=
  if c = '\x22' then ['\x5c', '\x22']
  else if c = '\x5c' then ['\x5c', '\x5c']
  else if c = '\n' then ['\x5c', 'n']
  else if c = '\r' then ['\x5c', 'r']
  else if c = '\t' then ['\x5c', 't']
  else if Text.isControl c then '\x5c' :: 'u' :: codeDigits c.toNat
  else [c]

/-- A language takes precedence over a datatype. -/
def literalSuffix (l : Literal) : List Char :=
  match l.language, l.datatype with
  | some tag, _ => '@' :: tag.toList
  | none, some datatype => '^' :: '^' :: '<' :: datatype.toList ++ ['>']
  | none, none => []

/-- The characters of a term in N-Triples syntax. -/
def chars : Term → List Char
  | iri value => '<' :: value.toList ++ ['>']
  | blank label => '_' :: ':' :: label.toList
  | literal l => '\x22' :: l.lexical.toList.flatMap escape ++ '\x22' :: literalSuffix l

/-- A term in N-Triples syntax. -/
def text (t : Term) : String := String.ofList t.chars

instance : ToString Term := ⟨text⟩

end Term
end DualStore
