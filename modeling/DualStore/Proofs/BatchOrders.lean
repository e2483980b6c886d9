import DualStore.Index.Request
import DualStore.Plan
import DualStore.Proofs.Operations

/-! The orders in which a batch can be applied. Its operations one by one, its effective operations
in any order, and either of them twice leave the same quads (`Batch.orders_alike`). A request for
the index has the deletions before the insertions (`Batch.deletionsFirst`). -/

namespace DualStore
namespace Operation

variable {ops ops' : List Operation}

/-- Operations on different quads can be applied in any order. -/
theorem applyAll_perm (hperm : ops.Perm ops') (h : (ops.map quad).Nodup) (s : SortedSet Quad) :
    applyAll s ops = applyAll s ops' := by
  have h' : (ops'.map quad).Nodup := (hperm.map quad).nodup_iff.mp h
  refine SortedSet.ext fun q => ?_
  rw [mem_applyAll_of_nodup h, mem_applyAll_of_nodup h', hperm.mem_iff, hperm.mem_iff]

/-- A second time, operations find everything as they leave it. -/
theorem applyAll_applyAll (s : SortedSet Quad) (ops : List Operation) :
    applyAll (applyAll s ops) ops = applyAll s ops := by
  refine SortedSet.ext fun q => ?_
  rw [mem_applyAll, mem_applyAll]
  tauto

/-- Operations with the same action are that action on each of their quads. -/
theorem map_quad_of_action {action : Action} (h : ∀ op ∈ ops, op.action = action) :
    (ops.map quad).map (⟨action, ·⟩) = ops := by
  rw [List.map_map]
  refine (List.map_congr_left fun op hop => ?_).trans (List.map_id _)
  exact congrArg (Operation.mk · op.quad) (h op hop).symm

end Operation

namespace Batch

variable {b : Batch} {ops : List Operation}

/-- The effective operations as a request has them: all deletions, and then all insertions. -/
def deletionsFirst (b : Batch) : List Operation :=
  Operation.deletes (Request.quadsOf .delete b) ++ Operation.inserts (Request.quadsOf .insert b)

/-- The quads of an action under this action are the effective operations of it. -/
private theorem map_quadsOf (action : Action) :
    (Request.quadsOf action b).map (⟨action, ·⟩) = b.effective.filter (·.action = action) :=
  Operation.map_quad_of_action fun _ hop => of_decide_eq_true (List.mem_filter.mp hop).2

theorem deletionsFirst_perm (b : Batch) : b.deletionsFirst.Perm b.effective := by
  have hinsert : ∀ op : Operation,
      decide (op.action = .insert) = !decide (op.action = .delete) := by
    rintro ⟨_ | _, _⟩ <;> rfl
  rw [deletionsFirst, Operation.deletes, Operation.inserts, map_quadsOf, map_quadsOf]
  simp only [hinsert]
  exact List.filter_append_perm _ _

/-- Effective operations do in any order what the batch does. -/
theorem applyAll_of_perm (hperm : ops.Perm b.effective) (s : SortedSet Quad) :
    Operation.applyAll s ops = Operation.applyAll s b.ops := by
  rw [← Operation.applyAll_lastOnly s b.ops]
  exact (Operation.applyAll_perm hperm.symm (Operation.nodup_lastOnly b.ops) s).symm

/-- Every quad that the batch touches has one effective operation, and no other quad has any. -/
theorem count_effective (b : Batch) (q : Quad) :
    (b.effective.map (·.quad)).count q = if ∃ op ∈ b.ops, op.quad = q then 1 else 0 := by
  have hmem : q ∈ b.effective.map (·.quad) ↔ ∃ op ∈ b.ops, op.quad = q :=
    List.mem_map.trans Operation.touched_lastOnly
  have hnodup : (b.effective.map (·.quad)).Nodup := Operation.nodup_lastOnly b.ops
  rw [hnodup.count]
  simp only [hmem]

/-- A batch does the same in every shape that it is applied in: its operations one by one, its
effective operations in their order or deletions first, and each of these a second time. Every quad
that it touches has one effective operation. A batch that is extended by another one acts as the one
after the other. -/
theorem orders_alike (b : Batch) (s : SortedSet Quad) :
    Operation.applyAll s b.effective = Operation.applyAll s b.ops ∧
    Operation.applyAll s b.deletionsFirst = Operation.applyAll s b.ops ∧
    Operation.applyAll (Operation.applyAll s b.effective) b.effective =
      Operation.applyAll s b.ops ∧
    Operation.applyAll (Operation.applyAll s b.deletionsFirst) b.deletionsFirst =
      Operation.applyAll s b.ops ∧
    b.deletionsFirst.Perm b.effective ∧
    (∀ q, (b.effective.map (·.quad)).count q = if ∃ op ∈ b.ops, op.quad = q then 1 else 0) ∧
    ∀ c : Batch, Operation.applyAll s (b.extend c).ops =
      Operation.applyAll (Operation.applyAll s b.ops) c.ops := by
  have heffective := b.applyAll_of_perm (.refl _) s
  have hdeletions := b.applyAll_of_perm b.deletionsFirst_perm s
  refine ⟨heffective, hdeletions, ?_, ?_, b.deletionsFirst_perm, b.count_effective, fun c => ?_⟩
  · rw [Operation.applyAll_applyAll, heffective]
  · rw [Operation.applyAll_applyAll, hdeletions]
  · exact Operation.applyAll_append b.ops c.ops

end Batch
end DualStore
