import DualStore.Batch
import DualStore.Source
import DualStore.Store.Dictionary

/-! The quads of a space, as keys in four orderings. A pattern is answered from the ordering whose
keys start with most of what the pattern binds. -/

namespace DualStore

structure Store where
  dictionary : Dictionary := {}
  spog : SortedSet Bytes := ∅
  posg : SortedSet Bytes := ∅
  ospg : SortedSet Bytes := ∅
  gspo : SortedSet Bytes := ∅
  deriving DecidableEq

namespace Store

def reopen (s : Store) : Store := { s with dictionary := s.dictionary.reopen }

/-! ## Keys -/

def keys (s : Store) : KeyOrder → SortedSet Bytes
  | .spog => s.spog
  | .posg => s.posg
  | .ospg => s.ospg
  | .gspo => s.gspo

def mapKeys (s : Store) (f : KeyOrder → SortedSet Bytes → SortedSet Bytes) : Store where
  dictionary := s.dictionary
  spog := f .spog s.spog
  posg := f .posg s.posg
  ospg := f .ospg s.ospg
  gspo := f .gspo s.gspo

def insertKeys (s : Store) (q : IdQuad) : Store := s.mapKeys fun o ks => ks.insert (o.encode q)

def eraseKeys (s : Store) (q : IdQuad) : Store := s.mapKeys fun o ks => ks.erase (o.encode q)

def contains (s : Store) (q : IdQuad) : Bool := s.spog.contains (KeyOrder.spog.encode q)

/-! ## Terms and numbers -/

/-- The quad of the numbers of its terms, if all of them have one. -/
def encode? (s : Store) (q : Quad) : Option IdQuad := do
  let subject ← s.dictionary.lookup? q.subject
  let predicate ← s.dictionary.lookup? q.predicate
  let object ← s.dictionary.lookup? q.object
  let graph ← s.dictionary.lookup? q.graph
  return ⟨subject, predicate, object, graph⟩

def resolve (s : Store) (id : TermId) : Except TermId Term :=
  match s.dictionary.resolve? id with
  | some t => .ok t
  | none => .error id

/-- The quad of the terms of its numbers, or the first number that no term has. -/
def decode (s : Store) (q : IdQuad) : Except TermId Quad := do
  let subject ← s.resolve q.subject
  let predicate ← s.resolve q.predicate
  let object ← s.resolve q.object
  let graph ← s.resolve q.graph
  return ⟨subject, predicate, object, graph⟩

/-- The numbers of a pattern's terms; `none` if one of its terms has no number. -/
def resolveMatch? (s : Store) (p : QuadPattern) : Option IdPattern := do
  let number : Option Term → Option (Option TermId)
    | none => some none
    | some t => (s.dictionary.lookup? t).map some
  let subject ← number p.subject
  let predicate ← number p.predicate
  let object ← number p.object
  let graph ← number p.graph
  return ⟨subject, predicate, object, graph⟩

/-- Numbers the terms of a quad. -/
def intern (s : Store) (q : Quad) : IdQuad × Store :=
  let (subject, d) := s.dictionary.number q.subject
  let (predicate, d) := d.number q.predicate
  let (object, d) := d.number q.object
  let (graph, d) := d.number q.graph
  (⟨subject, predicate, object, graph⟩, { s with dictionary := d })

/-! ## Writing -/

/-- Inserts a quad; `true` if it was not there. -/
def insert (s : Store) (q : Quad) : Store × Bool :=
  let (ids, s) := s.intern q
  if s.contains ids then (s, false) else (s.insertKeys ids, true)

/-- Deletes a quad; `true` if it was there. No term is numbered. -/
def erase (s : Store) (q : Quad) : Store × Bool :=
  match s.encode? q with
  | some ids => if s.contains ids then (s.eraseKeys ids, true) else (s, false)
  | none => (s, false)

def perform (r : Store × Counts) (op : Operation) : Store × Counts :=
  match op.action with
  | .insert =>
    let (s, new) := r.1.insert op.quad
    (s, if new then { r.2 with inserted := r.2.inserted + 1 } else r.2)
  | .delete =>
    let (s, gone) := r.1.erase op.quad
    (s, if gone then { r.2 with deleted := r.2.deleted + 1 } else r.2)

def checkAll : List Operation → Except QuadFault Unit
  | [] => .ok ()
  | op :: ops => do
    op.quad.checkStorable
    checkAll ops

/-- Performs operations if all their quads may be stored. -/
def write (s : Store) (ops : List Operation) : Except QuadFault (Store × Counts) := do
  checkAll ops
  return ops.foldl perform (s, {})

/-- The number of quads that were not there. -/
def insertAll (s : Store) (quads : List Quad) : Except QuadFault (Store × Nat) :=
  (s.write (quads.map fun q => ⟨.insert, q⟩)).map fun (s, counts) => (s, counts.inserted)

/-- The number of quads that were there. -/
def eraseAll (s : Store) (quads : List Quad) : Except QuadFault (Store × Nat) :=
  (s.write (quads.map fun q => ⟨.delete, q⟩)).map fun (s, counts) => (s, counts.deleted)

/-- Applies the last operation on each quad of a batch. -/
def apply (s : Store) (b : Batch) : Except QuadFault (Store × Counts) := s.write b.effective

/-! ## Reading -/

/-- The quads that a pattern of numbers accepts, in the order of their keys. -/
def pattern (s : Store) (p : IdPattern) : List IdQuad :=
  let o := KeyOrder.best p
  let found := (s.keys o).toList.filter ((o.keyPrefix p).isPrefixOf ·)
  (found.filterMap fun key => (o.decode key).toOption).filter p.accepts

/-- The quads that a pattern accepts, in the order of their keys. -/
def scan (s : Store) (p : QuadPattern) : List Quad :=
  match s.resolveMatch? p with
  | some p => (s.pattern p).filterMap fun q => (s.decode q).toOption
  | none => []

def source (s : Store) : Source := ⟨s.scan⟩

/-- The number of quads in a graph, or in all. -/
def count (s : Store) (graph : Option Term) : Nat :=
  match graph with
  | none => s.spog.size
  | some graph => match s.dictionary.lookup? graph with
    | some id => (s.pattern { graph := some id }).length
    | none => 0

/-- The numbers of the graphs of keys that list the graph first. After a graph is seen, keys below
the start of the next number's keys are passed over. -/
def graphNumbers (start : Bytes) : List Bytes → List TermId
  | [] => []
  | key :: keys =>
    if compare key start = .lt then graphNumbers start keys
    else
      let graph := Bytes.toWord (key.take 8)
      graph :: (if graph.toNat + 1 < UInt64.size then graphNumbers (Bytes.ofWord (graph + 1)) keys
        else [])

/-- The graphs that hold a quad, in the order of their numbers. -/
def graphs (s : Store) : List Term :=
  (graphNumbers (Bytes.ofWord 0) s.gspo.toList).filterMap s.dictionary.resolve?

end Store
end DualStore
