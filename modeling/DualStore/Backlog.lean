import DualStore.Collection.SortedMap
import DualStore.Term.Basic

/-! The backlog of scopes whose index has to be rebuilt: graphs, or whole spaces. A scope that is
recorded again gets a new generation. To complete an entry is to look its scope up and then, if the
generation is still the same, to remove what is recorded of it. -/

namespace DualStore

/-- A scope that is waiting; without graph it is a whole space. -/
structure Entry where
  space : String
  graph : Option Term
  reason : String
  generation : Nat
  deriving DecidableEq, Repr

structure Backlog where
  entries : SortedMap String Entry := ∅
  /-- The generation of the next entry. -/
  next : Nat := 0
  deriving DecidableEq

namespace Backlog

/-- What the keys of a space start with. No name of a space contains the zero character. -/
def spacePrefix (space : String) : String := space ++ "\x00"

def key (space : String) (graph : Option Term) : String :=
  spacePrefix space ++ (match graph with
    | some t => t.lexical
    | none => "")

/-- Records a scope, in place of what was recorded of it. -/
def record (b : Backlog) (space : String) (graph : Option Term) (reason : String) :
    Entry × Backlog :=
  let e := ⟨space, graph, reason, b.next⟩
  (e, ⟨b.entries.insert (key space graph) e, b.next + 1⟩)

/-- What is recorded of the scope of an entry is of the same generation. -/
def isCurrent (b : Backlog) (e : Entry) : Bool :=
  (b.entries.get? (key e.space e.graph)).any (·.generation == e.generation)

/-- Removes what stands under keys. -/
def removeAll (b : Backlog) (keys : List String) : Backlog :=
  { b with entries := b.entries.filter fun key _ => !keys.contains key }

/-- Removes an entry unless its scope was recorded again. -/
def complete (b : Backlog) (e : Entry) : Bool × Backlog :=
  if b.isCurrent e then (true, b.removeAll [key e.space e.graph]) else (false, b)

def isKeyOf (space : String) (key : String) : Bool :=
  (spacePrefix space).toList.isPrefixOf key.toList

/-- All entries, by key. -/
def pending (b : Backlog) : List Entry := b.entries.values

/-- The entries of a space, by key. -/
def pendingFor (b : Backlog) (space : String) : List Entry :=
  (b.entries.filter fun key _ => isKeyOf space key).values

/-- The keys of the entries of a space. -/
def keysOf (b : Backlog) (space : String) : List String := b.entries.keys.filter (isKeyOf space)

/-- Removes the entries of a space. -/
def forget (b : Backlog) (space : String) : Backlog := b.removeAll (b.keysOf space)

def size (b : Backlog) : Nat := b.entries.size

def isEmpty (b : Backlog) : Bool := b.entries.isEmpty

end Backlog
end DualStore
