import DualStore.Collection.SortedMap
import DualStore.Quad.Key
import DualStore.Term.Check
import DualStore.Term.Record

/-! The numbers of the terms of a space. A term gets its number when it is first stored and keeps it
for good. -/

namespace DualStore

/-- Terms are kept as records, by number and the other way round. -/
structure Dictionary where
  terms : SortedMap TermId Bytes := ∅
  numbers : SortedMap Bytes TermId := ∅
  /-- The number of the next new term. -/
  next : TermId := 1
  deriving DecidableEq

namespace Dictionary

/-- Numbering goes on after the greatest number that is stored. -/
def reopen (d : Dictionary) : Dictionary :=
  { d with next := match d.terms.keys.getLast? with
      | some id => id + 1
      | none => 1 }

def lookup? (d : Dictionary) (t : Term) : Option TermId := d.numbers.get? (Record.ofTerm t)

def resolve? (d : Dictionary) (id : TermId) : Option Term := (d.terms.get? id).bind Record.toTerm?

/-- The number of a term, which is a new one if the term is new. -/
def number (d : Dictionary) (t : Term) : TermId × Dictionary :=
  match d.lookup? t with
  | some id => (id, d)
  | none => (d.next, ⟨d.terms.insert d.next (Record.ofTerm t),
      d.numbers.insert (Record.ofTerm t) d.next, d.next + 1⟩)

/-- Numbers a term that is well formed. -/
def intern (d : Dictionary) (t : Term) : Except TermFault (TermId × Dictionary) := do
  t.check
  return d.number t

def size (d : Dictionary) : Nat := d.terms.size

def isEmpty (d : Dictionary) : Bool := d.terms.isEmpty

end Dictionary
end DualStore
