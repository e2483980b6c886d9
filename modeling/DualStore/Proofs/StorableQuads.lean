import DualStore.Proofs.Operations
import DualStore.Proofs.Outcomes
import DualStore.Store.Basic

/-! Which quads may be stored. A store accepts a batch if all quads of it may be
(`Store.apply_eq_ok`). -/

namespace DualStore

/-- No graph, which stands for all, or one whose name is a well-formed IRI. -/
def IsGraphScope (graph : Option Term) : Prop :=
  ∀ g, graph = some g → ∃ iri, g = .iri iri ∧ Term.checkIri iri = .ok ()

theorem isGraphScope_none : IsGraphScope none := fun _ h => nomatch h

theorem QuadPattern.accepts_ofGraph {g : Term} {q : Quad} :
    (ofGraph (some g)).accepts q = true ↔ q.graph = g := by
  simp only [accepts, ofGraph, Option.all_none, Option.all_some, Bool.true_and, beq_iff_eq]
  exact eq_comm

namespace Term

variable {t : Term}

theorem exists_of_isIri (h : t.isIri = true) : ∃ value, t = .iri value := by
  cases t with
  | iri value => exact ⟨value, rfl⟩
  | blank label => cases h
  | literal l => cases h

theorem isLiteral_of_isIri_or (h : (t.isIri || t.isBlank) = true) : t.isLiteral = false := by
  cases t with
  | literal l => cases h
  | _ => rfl

end Term

namespace Quad

variable {q : Quad}

theorem checkTerms_eq_ok {ts : List Term} :
    checkTerms ts = .ok () ↔ ∀ t ∈ ts, t.check = .ok () := by
  induction ts with
  | nil => exact iff_of_true rfl (List.forall_mem_nil _)
  | cons t ts ih =>
    rw [checkTerms, List.forall_mem_cons]
    split
    next h => rw [h]; exact iff_of_false nofun (fun h' => nomatch h'.1)
    next h => rw [ih, h, eq_self, true_and]

private theorem find_eq_ok {p : Term → Bool} {fault : Term → QuadFault} {ts : List Term} :
    (match ts.find? p with
      | some t => throw (fault t)
      | none => return : Except QuadFault Unit) = .ok () ↔ ∀ t ∈ ts, p t = false := by
  cases h : ts.find? p with
  | some t =>
    refine iff_of_false nofun fun h' => ?_
    have hp := List.find?_some h
    rw [h' t (List.mem_of_find?_eq_some h)] at hp
    exact Bool.noConfusion hp
  | none =>
    refine iff_of_true rfl fun t ht => ?_
    exact Bool.not_eq_true _ ▸ List.find?_eq_none.mp h t ht

theorem check_eq_ok : q.check = .ok () ↔
    (∀ t ∈ [q.subject, q.predicate, q.object, q.graph], t.check = .ok ()) ∧
    (q.subject.isIri || q.subject.isBlank) = true ∧ q.predicate.isIri = true ∧
    q.graph.isIri = true ∧ ∀ t ∈ [q.subject, q.predicate, q.object], t.isDefaultGraph = false := by
  rw [check, check_bind_eq_ok, ← checkTerms_eq_ok]
  simp only [unless_eq_ok]
  exact and_congr_right fun _ => and_congr_right fun _ => and_congr_right fun _ =>
    and_congr_right fun _ => find_eq_ok

/-- A quad that may be stored. -/
structure Storable (q : Quad) : Prop where
  terms : ∀ t ∈ [q.subject, q.predicate, q.object, q.graph], t.check = .ok ()
  subject : (q.subject.isIri || q.subject.isBlank) = true
  predicate : q.predicate.isIri = true
  graph : q.graph.isIri = true
  notDefault : ∀ t ∈ [q.subject, q.predicate, q.object], t.isDefaultGraph = false
  notSkolem : ∀ t ∈ [q.subject, q.predicate, q.object, q.graph], t.isSkolem = false

theorem checkStorable_eq_ok : q.checkStorable = .ok () ↔ q.Storable := by
  rw [checkStorable, check_bind_eq_ok, check_eq_ok]
  refine (and_congr_right fun _ => find_eq_ok).trans ⟨?_, ?_⟩
  · rintro ⟨⟨ht, hs, hp, hg, hd⟩, hk⟩
    exact ⟨ht, hs, hp, hg, hd, hk⟩
  · rintro ⟨ht, hs, hp, hg, hd, hk⟩
    exact ⟨⟨ht, hs, hp, hg, hd⟩, hk⟩

instance (q : Quad) : Decidable q.Storable := decidable_of_iff _ checkStorable_eq_ok

/-- The graph of a quad that may be stored is a well-formed IRI. -/
theorem Storable.exists_graph (h : q.Storable) :
    ∃ iri, q.graph = .iri iri ∧ Term.checkIri iri = .ok () := by
  have hcheck := h.terms q.graph (by simp)
  obtain ⟨iri, hg⟩ := Term.exists_of_isIri h.graph
  exact ⟨iri, hg, by rwa [hg] at hcheck⟩

theorem Storable.isGraphScope (h : q.Storable) : IsGraphScope (some q.graph) := by
  intro g hg
  obtain rfl := Option.some.inj hg
  exact h.exists_graph

end Quad

namespace Store

variable {s s' : Store} {b : Batch} {ops : List Operation} {counts : Counts}

theorem checkAll_eq_ok : checkAll ops = .ok () ↔ ∀ op ∈ ops, op.quad.Storable := by
  induction ops with
  | nil => exact iff_of_true rfl (List.forall_mem_nil _)
  | cons op ops ih =>
    rw [checkAll, check_bind_eq_ok, List.forall_mem_cons, ← ih, ← Quad.checkStorable_eq_ok]

theorem write_eq_ok : s.write ops = .ok (s', counts) ↔
    (∀ op ∈ ops, op.quad.Storable) ∧ ops.foldl perform (s, {}) = (s', counts) := by
  rw [write, check_bind_eq_ok, ← checkAll_eq_ok, pure_eq_ok]

/-- A store accepts a batch if all quads of it may be stored. -/
theorem apply_eq_ok : s.apply b = .ok (s', counts) ↔
    (∀ op ∈ b.ops, op.quad.Storable) ∧ b.effective.foldl perform (s, {}) = (s', counts) := by
  rw [apply, write_eq_ok]
  refine and_congr_left fun _ => ⟨fun h op hop => ?_, fun h op hop => ?_⟩
  · obtain ⟨op', hop', hq⟩ := Operation.touched_lastOnly.mpr ⟨op, hop, rfl⟩
    exact hq ▸ h op' hop'
  · exact h op (Operation.mem_of_mem_lastOnly hop)

end Store
end DualStore
