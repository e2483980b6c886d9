import DualStore.Batch

/-! Sources of quads: whatever answers patterns. A set is a source, and so is a source on top of
which operations are staged. -/

namespace DualStore

/-- Something that answers quad patterns. A pattern without graph asks for all graphs, the default
graph among them. -/
structure Source where
  matching : QuadPattern → List Quad

namespace Source

/-- `src` answers as the set `s` would: each quad that a pattern accepts, once. -/
def Lawful (src : Source) (s : SortedSet Quad) : Prop :=
  ∀ p, (src.matching p).Nodup ∧ ∀ q, q ∈ src.matching p ↔ q ∈ s ∧ p.accepts q = true

/-- A set answers in the order of its quads. -/
def ofSet (s : SortedSet Quad) : Source := ⟨fun p => s.toList.filter p.accepts⟩

/-- The quads of one graph. -/
def quadsIn (src : Source) (graph : Term) : List Quad := src.matching (.ofGraph graph)

/-- `src` once operations are applied. Quads that they add follow those that `src` has, in
order. -/
def after (src : Source) (ops : List Operation) : Source where
  matching p :=
    let last := Operation.lastOnly ops
    let kept := (src.matching p).filter fun q => !last.contains ⟨.delete, q⟩
    let added := last.filter fun op =>
      op.action = .insert && p.accepts op.quad && !kept.contains op.quad
    kept ++ (SortedSet.ofList (added.map (·.quad))).toList

theorem lawful_ofSet (s : SortedSet Quad) : (ofSet s).Lawful s := fun p =>
  ⟨(s.sorted.imp fun {a b} hlt he => by
      subst he
      rw [Std.compare_self] at hlt
      cases hlt).sublist List.filter_sublist,
    fun q => by simp [ofSet, SortedSet.mem_def]⟩

end Source
end DualStore
