import DualStore.Proofs.Collections
import DualStore.Source

/-! What operations do to a set of quads. Only the last operation on a quad counts, so the
effective operations of a batch do what all of them do (`applyAll_lastOnly`), and a source with
staged operations answers as the set would after them (`Source.Lawful.after`). Operations that do
the same to every set have the same effective operations (`Operation.Alike.mem_lastOnly`). -/

namespace DualStore
namespace Operation

variable {s t : SortedSet Quad} {q : Quad} {op : Operation} {ops : List Operation}

@[simp] theorem applyAll_nil : applyAll s [] = s := rfl

@[simp] theorem applyAll_cons : applyAll s (op :: ops) = applyAll (apply s op) ops := rfl

theorem applyAll_append (ops ops' : List Operation) :
    applyAll s (ops ++ ops') = applyAll (applyAll s ops) ops' := List.foldl_append

/-! ## Effective operations -/

theorem mem_of_mem_lastOnly (h : op ∈ lastOnly ops) : op ∈ ops := by
  induction ops with
  | nil => exact h
  | cons first ops ih =>
    rw [lastOnly] at h
    split at h
    · exact List.mem_cons_of_mem _ (ih h)
    · rcases List.mem_cons.mp h with rfl | h
      · exact List.mem_cons_self
      · exact List.mem_cons_of_mem _ (ih h)

/-- Every quad that is touched has an effective operation. -/
theorem touched_lastOnly : (∃ op ∈ lastOnly ops, op.quad = q) ↔ ∃ op ∈ ops, op.quad = q := by
  refine ⟨fun ⟨op, h, hq⟩ => ⟨op, mem_of_mem_lastOnly h, hq⟩, ?_⟩
  induction ops with
  | nil => simp
  | cons first ops ih =>
    rintro ⟨op, h, hq⟩
    rw [lastOnly]
    split
    next hlater =>
      simp only [List.any_eq_true, beq_iff_eq] at hlater
      rcases List.mem_cons.mp h with rfl | h
      · exact ih (hq ▸ hlater)
      · exact ih ⟨op, h, hq⟩
    next =>
      rcases List.mem_cons.mp h with rfl | h
      · exact ⟨op, List.mem_cons_self, hq⟩
      · obtain ⟨op', h', hq'⟩ := ih ⟨op, h, hq⟩
        exact ⟨op', List.mem_cons_of_mem _ h', hq'⟩

theorem nodup_lastOnly (ops : List Operation) : ((lastOnly ops).map quad).Nodup := by
  induction ops with
  | nil => exact .nil
  | cons op ops ih =>
    rw [lastOnly]
    split
    · exact ih
    next hlater =>
      refine List.nodup_cons.mpr ⟨fun h => hlater ?_, ih⟩
      obtain ⟨op', h', hq⟩ := List.mem_map.mp h
      obtain ⟨op'', h'', hq'⟩ := touched_lastOnly.mp ⟨op', h', hq⟩
      exact List.any_eq_true.mpr ⟨op'', h'', beq_iff_eq.mpr hq'⟩

/-- Effective operations on the same quad are the same operation. -/
theorem eq_of_mem_lastOnly {op' : Operation} (h : op ∈ lastOnly ops) (h' : op' ∈ lastOnly ops)
    (hq : op.quad = op'.quad) : op = op' :=
  List.inj_on_of_nodup_map (nodup_lastOnly ops) h h' hq

/-- Operations do not look at what a set holds of the quads that they touch. -/
theorem mem_applyAll_congr (h : (q ∈ s ↔ q ∈ t) ∨ ∃ op ∈ ops, op.quad = q) :
    q ∈ applyAll s ops ↔ q ∈ applyAll t ops := by
  induction ops generalizing s t with
  | nil => simpa using h
  | cons op ops ih =>
    simp only [applyAll_cons]
    by_cases hq : q = op.quad
    · exact ih (.inl (by simp [mem_apply, hq]))
    · refine ih (h.imp (fun h => by simp [mem_apply, hq, h]) fun ⟨op', h', hq'⟩ => ?_)
      rcases List.mem_cons.mp h' with rfl | h'
      · exact absurd hq'.symm hq
      · exact ⟨op', h', hq'⟩

theorem applyAll_lastOnly (s : SortedSet Quad) (ops : List Operation) :
    applyAll s (lastOnly ops) = applyAll s ops := by
  induction ops generalizing s with
  | nil => rfl
  | cons op ops ih =>
    rw [lastOnly]
    split
    next hlater =>
      simp only [List.any_eq_true, beq_iff_eq] at hlater
      rw [ih, applyAll_cons]
      refine SortedSet.ext fun q => mem_applyAll_congr ?_
      by_cases hq : q = op.quad
      · exact .inr (hq ▸ hlater)
      · exact .inl (by simp [mem_apply, hq])
    next => rw [applyAll_cons, applyAll_cons, ih]

/-- No quad is touched twice, so each operation has its say. -/
theorem mem_applyAll_of_nodup (h : (ops.map quad).Nodup) :
    q ∈ applyAll s ops ↔ ⟨.insert, q⟩ ∈ ops ∨ q ∈ s ∧ ⟨.delete, q⟩ ∉ ops := by
  induction ops generalizing s with
  | nil => simp
  | cons op ops ih =>
    obtain ⟨action, quad⟩ := op
    obtain ⟨hop, hops⟩ := List.nodup_cons.mp h
    rw [applyAll_cons, ih hops, mem_apply]
    by_cases hq : q = quad
    · subst hq
      have hnot : ∀ a, (⟨a, q⟩ : Operation) ∉ ops := fun a ha =>
        hop (List.mem_map.mpr ⟨_, ha, rfl⟩)
      cases action <;> simp [hnot]
    · simp [hq]

/-- A quad is there after operations if its last one inserts it, or if it was there and its last
one does not delete it. -/
theorem mem_applyAll : q ∈ applyAll s ops ↔
    ⟨.insert, q⟩ ∈ lastOnly ops ∨ q ∈ s ∧ ⟨.delete, q⟩ ∉ lastOnly ops := by
  rw [← applyAll_lastOnly]
  exact mem_applyAll_of_nodup (nodup_lastOnly ops)

/-- What is not touched stays as it is. -/
theorem mem_applyAll_of_untouched (h : ∀ op ∈ ops, op.quad ≠ q) : q ∈ applyAll s ops ↔ q ∈ s := by
  have hnot : ∀ action, (⟨action, q⟩ : Operation) ∉ lastOnly ops := fun action hop =>
    h _ (mem_of_mem_lastOnly hop) rfl
  rw [mem_applyAll, or_iff_right (hnot .insert), and_iff_left (hnot .delete)]

/-- Sets that agree on some quads still do so after the same operations. -/
theorem agreeOn_applyAll {p : Quad → Bool} (h : s.AgreeOn p t) (ops : List Operation) :
    (applyAll s ops).AgreeOn p (applyAll t ops) := fun q hq => mem_applyAll_congr (.inl (h q hq))

/-! ## Operations that do the same -/

/-- Both lists of operations do the same to every set. -/
def Alike (ops ops' : List Operation) : Prop := ∀ s, applyAll s ops = applyAll s ops'

theorem Alike.append {ops₁ ops₂ ops₁' ops₂' : List Operation} (h₁ : Alike ops₁ ops₁')
    (h₂ : Alike ops₂ ops₂') : Alike (ops₁ ++ ops₂) (ops₁' ++ ops₂') := fun s => by
  rw [applyAll_append, applyAll_append, h₁, h₂]

/-- What is inserted shows in the empty set, and what is deleted in a set of one quad. -/
private theorem mem_lastOnly_iff : op ∈ lastOnly ops ↔ match op.action with
    | .insert => op.quad ∈ applyAll ∅ ops
    | .delete => op.quad ∉ applyAll (.ofList [op.quad]) ops := by
  obtain ⟨action, q⟩ := op
  cases action with
  | insert =>
    dsimp only
    rw [mem_applyAll, or_iff_left (fun h => SortedSet.not_mem_empty q h.1)]
  | delete =>
    dsimp only
    rw [mem_applyAll, SortedSet.mem_ofList, and_iff_right (List.mem_singleton_self q), not_or,
      not_not]
    refine (and_iff_right_of_imp fun hd hi => ?_).symm
    cases eq_of_mem_lastOnly hd hi rfl

/-- Operations that do the same have the same effective operations. -/
theorem Alike.mem_lastOnly {ops' : List Operation} (h : Alike ops ops') :
    op ∈ lastOnly ops ↔ op ∈ lastOnly ops' := by
  rw [mem_lastOnly_iff, mem_lastOnly_iff, h ∅, h (.ofList [op.quad])]

/-! ## Operations in any order -/

/-- No quad is inserted in the end by some operations and deleted in the end by others. -/
def Compatible (ops ops' : List Operation) : Prop :=
  ∀ op ∈ lastOnly ops, ∀ op' ∈ lastOnly ops', op.quad = op'.quad → op.action = op'.action

instance (ops ops' : List Operation) : Decidable (Compatible ops ops') :=
  inferInstanceAs (Decidable (∀ op ∈ lastOnly ops, ∀ op' ∈ lastOnly ops', _ → _))

/-- Compatible operations can change places. -/
theorem Compatible.applyAll_comm {ops' : List Operation} (h : Compatible ops ops')
    (s : SortedSet Quad) : applyAll (applyAll s ops) ops' = applyAll (applyAll s ops') ops := by
  refine SortedSet.ext fun q => ?_
  have hsame : ∀ action action', ⟨action, q⟩ ∈ lastOnly ops → ⟨action', q⟩ ∈ lastOnly ops' →
      action = action' := fun _ _ hop hop' => h _ hop _ hop' rfl
  have hinsert : ⟨.insert, q⟩ ∈ lastOnly ops → ⟨.delete, q⟩ ∉ lastOnly ops' :=
    fun hi hd => nomatch hsame _ _ hi hd
  have hdelete : ⟨.delete, q⟩ ∈ lastOnly ops → ⟨.insert, q⟩ ∉ lastOnly ops' :=
    fun hd hi => nomatch hsame _ _ hd hi
  simp only [mem_applyAll]
  tauto

end Operation

namespace Source

variable {src : Source} {s : SortedSet Quad}

theorem Lawful.after (h : src.Lawful s) (ops : List Operation) :
    (src.after ops).Lawful (Operation.applyAll s ops) := by
  intro p
  obtain ⟨hnodup, hmem⟩ := h p
  simp only [Source.after, List.nodup_append, List.mem_append, SortedSet.mem_toList,
    SortedSet.mem_ofList, List.mem_map, List.mem_filter, Operation.mem_applyAll]
  refine ⟨⟨hnodup.filter _, SortedSet.nodup _, ?_⟩, fun q => ?_⟩
  · rintro q hq _ ⟨op, ⟨-, hop⟩, rfl⟩ rfl
    simp_all
  · simp only [hmem, Bool.and_eq_true, Bool.not_eq_true', List.contains_eq_mem,
      decide_eq_false_iff_not, decide_eq_true_eq, List.mem_filter]
    constructor
    · rintro (⟨⟨hs, hp⟩, hd⟩ | ⟨op, ⟨hop, ⟨hi, hp⟩, -⟩, rfl⟩)
      · exact ⟨.inr ⟨hs, hd⟩, hp⟩
      · exact ⟨.inl (hi ▸ hop), hp⟩
    · rintro ⟨hi | ⟨hs, hd⟩, hp⟩
      · by_cases hk : (q ∈ s ∧ p.accepts q = true) ∧ ⟨.delete, q⟩ ∉ Operation.lastOnly ops
        · exact .inl hk
        · exact .inr ⟨⟨.insert, q⟩, ⟨hi, ⟨rfl, hp⟩, hk⟩, rfl⟩
      · exact .inl ⟨⟨hs, hp⟩, hd⟩

end Source
end DualStore
