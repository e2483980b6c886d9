import DualStore.Bytes
import DualStore.Quad.Position

/-! Quads of term numbers and their keys. A key lists the four numbers in big-endian order, so the
keys of an ordering sort like the numbers in its order of positions, and the quads that share
their first numbers stand together. -/

namespace DualStore

/-- The number of an interned term. -/
abbrev TermId := UInt64

/-- A quad of interned terms. -/
structure IdQuad where
  subject : TermId
  predicate : TermId
  object : TermId
  graph : TermId
  deriving DecidableEq, Repr

/-- A pattern over quads of interned terms. -/
structure IdPattern where
  subject : Option TermId := none
  predicate : Option TermId := none
  object : Option TermId := none
  graph : Option TermId := none
  deriving DecidableEq, Repr

namespace IdQuad

def get (q : IdQuad) : Position → TermId
  | .subject => q.subject
  | .predicate => q.predicate
  | .object => q.object
  | .graph => q.graph

def ofFn (f : Position → TermId) : IdQuad := ⟨f .subject, f .predicate, f .object, f .graph⟩

@[simp] theorem get_ofFn (f : Position → TermId) (p : Position) : (ofFn f).get p = f p := by
  cases p <;> rfl

end IdQuad

namespace IdPattern

def get (p : IdPattern) : Position → Option TermId
  | .subject => p.subject
  | .predicate => p.predicate
  | .object => p.object
  | .graph => p.graph

def accepts (p : IdPattern) (q : IdQuad) : Bool :=
  [Position.subject, .predicate, .object, .graph].all fun s => (p.get s).all (· == q.get s)

end IdPattern

/-- A key of the wrong length. -/
structure KeyFault where
  length : Nat
  deriving DecidableEq, Repr

/-- The order in which a key lists the positions of a quad. -/
inductive KeyOrder where
  | spog
  | posg
  | ospg
  | gspo
  deriving DecidableEq, Repr

namespace KeyOrder

def all : List KeyOrder := [spog, posg, ospg, gspo]

def name : KeyOrder → String
  | spog => "spog"
  | posg => "posg"
  | ospg => "ospg"
  | gspo => "gspo"

def positions : KeyOrder → List Position
  | spog => [.subject, .predicate, .object, .graph]
  | posg => [.predicate, .object, .subject, .graph]
  | ospg => [.object, .subject, .predicate, .graph]
  | gspo => [.graph, .subject, .predicate, .object]

/-- The place of a position in a key. -/
def place (o : KeyOrder) (s : Position) : Nat := o.positions.idxOf s

def keyLength : Nat := 32

def encode (o : KeyOrder) (q : IdQuad) : Bytes := o.positions.flatMap fun s => Bytes.ofWord (q.get s)

def decode (o : KeyOrder) (key : Bytes) : Except KeyFault IdQuad :=
  if key.length = keyLength then
    .ok (.ofFn fun s => Bytes.toWord ((key.drop (8 * o.place s)).take 8))
  else .error ⟨key.length⟩

/-- The leading positions that a pattern binds. -/
def boundPositions (o : KeyOrder) (p : IdPattern) : List Position :=
  o.positions.takeWhile fun s => (p.get s).isSome

/-- The bytes that the keys of matching quads start with. -/
def keyPrefix (o : KeyOrder) (p : IdPattern) : Bytes :=
  ((o.boundPositions p).filterMap p.get).flatMap Bytes.ofWord

/-- The ordering whose keys start with most of the numbers that a pattern binds. -/
def best (p : IdPattern) : KeyOrder :=
  all.foldl (fun b o => if (b.boundPositions p).length < (o.boundPositions p).length then o else b)
    spog

end KeyOrder
end DualStore
