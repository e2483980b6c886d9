import DualStore.Index.Basic

/-! An index that can be told what to answer. -/

namespace DualStore

/-- An index whose queries all have one answer, if one is given. -/
structure PinnedIndex (ι : Type) where
  index : ι
  answer : Option Answer := none

namespace PinnedIndex

variable {ι : Type} [TripleIndex ι]

instance : TripleIndex (PinnedIndex ι) where
  create space i := (TripleIndex.create space i.index).map fun index => { i with index }
  remove space i := (TripleIndex.remove space i.index).map fun index => { i with index }
  delay i := TripleIndex.delay i.index
  update space text next i :=
    (TripleIndex.update space text next i.index).map fun (index, next) => ({ i with index }, next)
  query space text next i :=
    match i.answer with
    | some answer => .ok (answer, next)
    | none => TripleIndex.query space text next i.index

end PinnedIndex
end DualStore
