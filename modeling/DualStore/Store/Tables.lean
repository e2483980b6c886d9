import DualStore.Store.Basic

/-! The tables in which a space is kept. Records of terms are found by number, and numbers by the
digests of records. What a call writes is staged and written at once when the call is done: while it
is under way the tables are as they were, and it keeps account of what it has staged. -/

namespace DualStore

structure Tables where
  terms : SortedMap TermId Bytes := ∅
  /-- Numbers by the digests of records. -/
  termKeys : SortedMap Bytes TermId := ∅
  spog : SortedSet Bytes := ∅
  posg : SortedSet Bytes := ∅
  ospg : SortedSet Bytes := ∅
  gspo : SortedSet Bytes := ∅
  /-- The number of the next new term, which is not kept in a table. -/
  next : TermId := 1
  deriving DecidableEq

/-- What is wrong with the contents of tables. -/
inductive TableFault where
  | missing (id : TermId)
  | badRecord (id : TermId)
  | badKey (fault : KeyFault)
  /-- The records of different terms have one digest. -/
  | collision (stored t : Term)
  deriving DecidableEq, Repr

/-- Why a call is refused. -/
inductive CallFault where
  | quad (fault : QuadFault)
  | term (fault : TermFault)
  | table (fault : TableFault)
  deriving DecidableEq, Repr

/-- A change to one table. -/
inductive Row where
  | term (id : TermId) (record : Bytes)
  | termKey (digest : Bytes) (id : TermId)
  | insert (o : KeyOrder) (key : Bytes)
  | remove (o : KeyOrder) (key : Bytes)
  deriving DecidableEq, Repr

/-- What a call has staged. -/
structure Writer where
  next : TermId
  /-- The numbers of new terms. -/
  pending : List (Term × TermId) := []
  batch : List Row := []
  present : List IdQuad := []
  absent : List IdQuad := []
  counts : Counts := {}
  deriving DecidableEq, Repr

/-- Work on what is staged. It stops at the first fault. -/
abbrev WriterM := ExceptT TableFault (StateM Writer)

namespace Tables

def keys (T : Tables) : KeyOrder → SortedSet Bytes
  | .spog => T.spog
  | .posg => T.posg
  | .ospg => T.ospg
  | .gspo => T.gspo

/-- Changes the keys of one ordering. -/
def mapKeys (T : Tables) (f : SortedSet Bytes → SortedSet Bytes) : KeyOrder → Tables
  | .spog => { T with spog := f T.spog }
  | .posg => { T with posg := f T.posg }
  | .ospg => { T with ospg := f T.ospg }
  | .gspo => { T with gspo := f T.gspo }

def put (T : Tables) : Row → Tables
  | .term id record => { T with terms := T.terms.insert id record }
  | .termKey digest id => { T with termKeys := T.termKeys.insert digest id }
  | .insert o key => T.mapKeys (·.insert key) o
  | .remove o key => T.mapKeys (·.erase key) o

/-- Writes the rows of a batch. -/
def putAll (T : Tables) (batch : List Row) : Tables := batch.foldl put T

/-- Numbering goes on after the greatest number that is stored. -/
def reopen (T : Tables) : Tables :=
  { T with next := match T.terms.keys.getLast? with
      | some id => id + 1
      | none => 1 }

def contains (T : Tables) (q : IdQuad) : Bool := T.spog.contains (KeyOrder.spog.encode q)

def resolve (T : Tables) (id : TermId) : Except TableFault Term :=
  match T.terms.get? id with
  | some record => match Record.toTerm? record with
    | some t => .ok t
    | none => .error (.badRecord id)
  | none => .error (.missing id)

def decode (T : Tables) (q : IdQuad) : Except TableFault Quad := do
  let subject ← T.resolve q.subject
  let predicate ← T.resolve q.predicate
  let object ← T.resolve q.object
  let graph ← T.resolve q.graph
  return ⟨subject, predicate, object, graph⟩

variable (digest : Bytes → Bytes)

/-! ## Reading -/

/-- The number of a term, if its record is the one that is stored under its digest. -/
def lookup (T : Tables) (t : Term) : Except TableFault (Option TermId) :=
  match T.termKeys.get? (digest (Record.ofTerm t)) with
  | none => .ok none
  | some id => do
    let stored ← T.resolve id
    if stored = t then return some id else throw (.collision stored t)

/-- The quad of the numbers of its terms, if all of them have one. -/
def encode (T : Tables) (q : Quad) : Except TableFault (Option IdQuad) := do
  let subject ← T.lookup digest q.subject
  let predicate ← T.lookup digest q.predicate
  let object ← T.lookup digest q.object
  let graph ← T.lookup digest q.graph
  return do return ⟨← subject, ← predicate, ← object, ← graph⟩

/-- The number of what a pattern has at one position; `none` if it is a term without one. -/
def number (T : Tables) : Option Term → Except TableFault (Option (Option TermId))
  | none => .ok (some none)
  | some t => (T.lookup digest t).map fun id => id.map some

/-- The quads of the keys that a pattern accepts. -/
def scanKeys (T : Tables) (o : KeyOrder) (p : IdPattern) :
    List Bytes → Except TableFault (List Quad)
  | [] => return []
  | key :: keys => do
    let ids ← (o.decode key).mapError .badKey
    if p.accepts ids then return (← T.decode ids) :: (← scanKeys T o p keys)
    else scanKeys T o p keys

/-- The quads that a pattern accepts, in the order of their keys. -/
def scan (T : Tables) (p : QuadPattern) : Except TableFault (List Quad) := do
  let subject ← T.number digest p.subject
  let predicate ← T.number digest p.predicate
  let object ← T.number digest p.object
  let graph ← T.number digest p.graph
  let bound : Option IdPattern := do return ⟨← subject, ← predicate, ← object, ← graph⟩
  match bound with
  | none => return []
  | some p =>
    let o := KeyOrder.best p
    T.scanKeys o p ((T.keys o).toList.filter ((o.keyPrefix p).isPrefixOf ·))

/-- The number of quads among those of keys that a pattern accepts. -/
def countKeys (o : KeyOrder) (p : IdPattern) : List Bytes → Except TableFault Nat
  | [] => return 0
  | key :: keys => do
    let ids ← (o.decode key).mapError .badKey
    let n ← countKeys o p keys
    return if p.accepts ids then n + 1 else n

/-- The number of quads in a graph, or in all. -/
def count (T : Tables) (graph : Option Term) : Except TableFault Nat := do
  match graph with
  | none => return T.spog.size
  | some graph => match ← T.lookup digest graph with
    | none => return 0
    | some id =>
      let p : IdPattern := { graph := some id }
      let o := KeyOrder.best p
      countKeys o p ((T.keys o).toList.filter ((o.keyPrefix p).isPrefixOf ·))

/-- The graphs that hold a quad, in the order of their numbers. -/
def graphs (T : Tables) : Except TableFault (List Term) :=
  (Store.graphNumbers (Bytes.ofWord 0) T.gspo.toList).mapM T.resolve

/-! ## Staging -/

/-- The number of a term, which is a new one if the term is neither stored nor staged. -/
def idFor (T : Tables) (t : Term) : WriterM TermId := do
  match (← get).pending.lookup t with
  | some id => return id
  | none =>
    match ← liftExcept (T.lookup digest t) with
    | some id => return id
    | none => modifyGet fun w => (w.next, { w with
        next := w.next + 1
        pending := (t, w.next) :: w.pending
        batch := w.batch ++
          [.term w.next (Record.ofTerm t), .termKey (digest (Record.ofTerm t)) w.next] })
where
  liftExcept {α : Type} (r : Except TableFault α) : WriterM α := fun w => (r, w)

end Tables

namespace Writer

/-- The quad will be there once what is staged is written. -/
def contains (w : Writer) (T : Tables) (q : IdQuad) : Bool :=
  !w.absent.contains q && (w.present.contains q || T.contains q)

def insert (w : Writer) (T : Tables) (q : IdQuad) : Writer :=
  let staged := if w.contains T q then w else { w with
    batch := w.batch ++ KeyOrder.all.map fun o => .insert o (o.encode q)
    counts := { w.counts with inserted := w.counts.inserted + 1 } }
  { staged with absent := w.absent.filter (· ≠ q), present := q :: w.present }

def delete (w : Writer) (T : Tables) (q : IdQuad) : Writer :=
  let staged := if w.contains T q then { w with
    batch := w.batch ++ KeyOrder.all.map fun o => .remove o (o.encode q)
    counts := { w.counts with deleted := w.counts.deleted + 1 } } else w
  { staged with present := w.present.filter (· ≠ q), absent := q :: w.absent }

end Writer

namespace Tables

variable (digest : Bytes → Bytes)

/-- Stages one operation. A quad with a term that is not stored is not there to be deleted. -/
def stage (T : Tables) (op : Operation) : WriterM Unit :=
  match op.action with
  | .insert => do
    let subject ← T.idFor digest op.quad.subject
    let predicate ← T.idFor digest op.quad.predicate
    let object ← T.idFor digest op.quad.object
    let graph ← T.idFor digest op.quad.graph
    modify fun w => w.insert T ⟨subject, predicate, object, graph⟩
  | .delete => do
    match ← idFor.liftExcept (T.encode digest op.quad) with
    | some ids => modify fun w => w.delete T ids
    | none => return

def stageAll (T : Tables) : List Operation → WriterM Unit
  | [] => return
  | op :: ops => do
    T.stage digest op
    stageAll T ops

/-- Stages something and writes it. After a fault nothing is written, but the numbers are used
up. -/
def commit {α : Type} (T : Tables) (work : WriterM α) : Except CallFault (α × Counts) × Tables :=
  match work { next := T.next } with
  | (.ok a, w) => (.ok (a, w.counts), { T.putAll w.batch with next := w.next })
  | (.error fault, w) => (.error (.table fault), { T with next := w.next })

/-! ## Calls -/

/-- Performs operations if all their quads may be stored. -/
def write (T : Tables) (ops : List Operation) : Except CallFault Counts × Tables :=
  match Store.checkAll ops with
  | .error fault => (.error (.quad fault), T)
  | .ok () =>
    let (r, T) := T.commit (T.stageAll digest ops)
    (r.map (·.2), T)

/-- The number of quads that were not there. -/
def insertAll (T : Tables) (quads : List Quad) : Except CallFault Nat × Tables :=
  let (r, T) := T.write digest (quads.map fun q => ⟨.insert, q⟩)
  (r.map (·.inserted), T)

/-- The number of quads that were there. -/
def eraseAll (T : Tables) (quads : List Quad) : Except CallFault Nat × Tables :=
  let (r, T) := T.write digest (quads.map fun q => ⟨.delete, q⟩)
  (r.map (·.deleted), T)

/-- Applies the last operation on each quad of a batch. -/
def apply (T : Tables) (b : Batch) : Except CallFault Counts × Tables := T.write digest b.effective

/-- Numbers a term that is well formed. -/
def intern (T : Tables) (t : Term) : Except CallFault TermId × Tables :=
  match t.check with
  | .error fault => (.error (.term fault), T)
  | .ok () => match T.lookup digest t with
    | .error fault => (.error (.table fault), T)
    | .ok (some id) => (.ok id, T)
    | .ok none =>
      let (r, T) := T.commit (T.idFor digest t)
      (r.map (·.1), T)

end Tables
end DualStore
