import DualStore.Proofs.IndexCalls
import DualStore.Proofs.ParsedRequests
import DualStore.Proofs.Planning
import DualStore.Proofs.Stores

/-! Batches on both sides. The index holds the quads of a store with IRIs in place of blank nodes,
and the request of a batch keeps it so (`MemoryIndex.update_of_apply`). -/

namespace DualStore

/-- The quads as the index holds them. -/
def Quad.skolemizeAll (s : SortedSet Quad) : SortedSet Quad := .ofList (s.toList.map Quad.skolemize)

/-- The operation as the index performs it. -/
def Operation.skolemize (op : Operation) : Operation := ⟨op.action, op.quad.skolemize⟩

variable {s m : SortedSet Quad} {q u : Quad} {ops : List Operation} {op : Operation}

/-! ## Sets of quads -/

namespace Quad

/-- The quads of a scope. -/
def within (graph : Option Term) (s : SortedSet Quad) : SortedSet Quad :=
  s.filter (QuadPattern.ofGraph graph).accepts

/-- The quads that are not in a scope. -/
def outside (graph : Option Term) (s : SortedSet Quad) : SortedSet Quad :=
  s.filter fun q => !(QuadPattern.ofGraph graph).accepts q

theorem mem_within {graph : Option Term} :
    u ∈ within graph s ↔ u ∈ s ∧ (QuadPattern.ofGraph graph).accepts u = true :=
  SortedSet.mem_filter

theorem mem_outside {graph : Option Term} :
    u ∈ outside graph s ↔ u ∈ s ∧ ¬ (QuadPattern.ofGraph graph).accepts u = true := by
  rw [outside, SortedSet.mem_filter, Bool.not_eq_true', Bool.not_eq_true]

theorem mem_skolemizeAll : u ∈ skolemizeAll s ↔ ∃ q ∈ s, q.skolemize = u := by
  rw [skolemizeAll, SortedSet.mem_ofList, List.mem_map]
  rfl

/-- A quad is in the same graph on both sides. -/
theorem Storable.accepts_skolemize (h : q.Storable) (graph : Option Term) :
    (QuadPattern.ofGraph graph).accepts q.skolemize = (QuadPattern.ofGraph graph).accepts q := by
  simp only [QuadPattern.accepts, QuadPattern.ofGraph, Option.all_none, Bool.true_and,
    skolemize, Term.skolemize_of_isIri h.graph]

theorem toList_skolemizeAll_perm (h : ∀ q ∈ s, q.Storable) :
    (skolemizeAll s).toList.Perm (s.toList.map skolemize) := by
  have hnodup : (s.toList.map skolemize).Nodup :=
    (SortedSet.nodup s).map_on fun q hq u hu => (h q hq).skolemize_inj (h u hu)
  refine (List.perm_ext_iff_of_nodup (SortedSet.nodup _) hnodup).mpr fun u => ?_
  rw [SortedSet.mem_toList, mem_skolemizeAll, List.mem_map]
  rfl

end Quad

namespace Operation

theorem skolemizeAll_apply (hs : ∀ u ∈ s, u.Storable) (hop : op.quad.Storable) :
    Quad.skolemizeAll (apply s op) = apply (Quad.skolemizeAll s) op.skolemize := by
  obtain ⟨action, p⟩ := op
  refine SortedSet.ext fun v => ?_
  cases action with
  | insert =>
    simp only [apply, skolemize, SortedSet.mem_insert, Quad.mem_skolemizeAll]
    constructor
    · rintro ⟨u, rfl | hu, rfl⟩
      · exact .inl rfl
      · exact .inr ⟨u, hu, rfl⟩
    · rintro (rfl | ⟨u, hu, rfl⟩)
      · exact ⟨p, .inl rfl, rfl⟩
      · exact ⟨u, .inr hu, rfl⟩
  | delete =>
    simp only [apply, skolemize, SortedSet.mem_erase, Quad.mem_skolemizeAll]
    constructor
    · rintro ⟨u, ⟨hne, hu⟩, rfl⟩
      exact ⟨fun he => hne ((hs u hu).skolemize_inj hop he), u, hu, rfl⟩
    · rintro ⟨hne, u, hu, rfl⟩
      exact ⟨u, ⟨fun he => hne (he ▸ rfl), hu⟩, rfl⟩

theorem storable_apply (hs : ∀ u ∈ s, u.Storable) (hop : op.quad.Storable) :
    ∀ u ∈ apply s op, u.Storable := by
  intro u hu
  rw [mem_apply] at hu
  split at hu
  · next he => exact he ▸ hop
  · exact hs u hu

/-- The index follows operations one by one. -/
theorem skolemizeAll_applyAll (hs : ∀ u ∈ s, u.Storable) (hops : ∀ op ∈ ops, op.quad.Storable) :
    Quad.skolemizeAll (applyAll s ops) = applyAll (Quad.skolemizeAll s) (ops.map skolemize) := by
  induction ops generalizing s with
  | nil => rfl
  | cons op ops ih =>
    have hop := hops op List.mem_cons_self
    rw [applyAll_cons, List.map_cons, applyAll_cons, ← skolemizeAll_apply hs hop]
    exact ih (storable_apply hs hop) fun op hop => hops op (List.mem_cons_of_mem _ hop)

/-- The operations that count are the same on both sides. -/
theorem lastOnly_map_skolemize (hops : ∀ op ∈ ops, op.quad.Storable) :
    lastOnly (ops.map skolemize) = (lastOnly ops).map skolemize := by
  induction ops with
  | nil => rfl
  | cons op ops ih =>
    have hlater : (ops.map skolemize).any (·.quad == op.skolemize.quad) =
        ops.any (·.quad == op.quad) := by
      rw [List.any_map, Bool.eq_iff_iff, List.any_eq_true, List.any_eq_true]
      refine exists_congr fun op' => and_congr_right fun h => ?_
      rw [Function.comp_apply, beq_iff_eq, beq_iff_eq]
      exact ⟨(hops op' (List.mem_cons_of_mem _ h)).skolemize_inj (hops op List.mem_cons_self),
        congrArg Quad.skolemize⟩
    have ih := ih fun op hop => hops op (List.mem_cons_of_mem _ hop)
    rw [List.map_cons, lastOnly, lastOnly, hlater, ih]
    split <;> rfl

end Operation

/-! ## Requests -/

namespace Request

variable {b : Batch} {text : String}

theorem mem_quadsOf {action : Action} : q ∈ quadsOf action b ↔ ⟨action, q⟩ ∈ b.effective := by
  simp only [quadsOf, List.mem_map, List.mem_filter, decide_eq_true_eq]
  constructor
  · rintro ⟨⟨_, _⟩, ⟨hop, rfl⟩, rfl⟩
    exact hop
  · exact fun h => ⟨⟨action, q⟩, ⟨h, rfl⟩, rfl⟩

/-- The operations that the request of a batch is planned as. -/
def plannedOps (b : Batch) : List Operation :=
  Operation.deletes ((blockOrder (quadsOf .delete b)).map Quad.skolemize) ++
    Operation.inserts ((blockOrder (quadsOf .insert b)).map Quad.skolemize)

/-- The request of a batch deletes and then inserts what the batch deletes and inserts in the
end. -/
theorem batchOf_ofBatch? (h : ∀ op ∈ b.ops, op.quad.Normal ∧ op.quad.Storable)
    (htext : ofBatch? b = some text) (src : Source) (space : String) (next : Nat) :
    Update.batchOf src space next text = .ok (⟨space, plannedOps b⟩, next) := by
  have hquads : ∀ action, ∀ q ∈ quadsOf action b, q.Normal ∧ q.Storable := fun action q hq =>
    h _ (Operation.mem_of_mem_lastOnly (mem_quadsOf.mp hq))
  have hd := hquads .delete
  have hi := hquads .insert
  have hplan : ∀ us, Update.ofText text = .ok us →
      Update.planAll src next us = .ok (plannedOps b, next) →
      Update.batchOf src space next text = .ok (⟨space, plannedOps b⟩, next) := by
    intro us hus hplan
    rw [Update.batchOf, hus]
    change ((Update.planAll src next us).mapError _ >>= _) = _
    rw [hplan]
    rfl
  rw [ofBatch?] at htext
  generalize hdeleted : quadsOf .delete b = deleted at htext hd
  generalize hinserted : quadsOf .insert b = inserted at htext hi
  have hops : plannedOps b = Operation.deletes ((blockOrder deleted).map Quad.skolemize) ++
      Operation.inserts ((blockOrder inserted).map Quad.skolemize) := by
    rw [plannedOps, hdeleted, hinserted]
  rw [hops] at hplan ⊢
  split at htext
  · cases htext
  · obtain rfl := Option.some.inj htext
    exact hplan _ (Update.ofText_deleteData hd) (congrArg (fun ops => Except.ok (ops, next))
      (List.append_nil _).symm)
  · obtain rfl := Option.some.inj htext
    exact hplan _ (Update.ofText_insertData hi) rfl
  · obtain rfl := Option.some.inj htext
    exact hplan _ (Update.ofText_deleteInsert hd hi) rfl

/-- Deletions before insertions do what the operations of the batch do in their order. -/
theorem applyAll_plannedOps (h : ∀ op ∈ b.ops, op.quad.Storable) (m : SortedSet Quad) :
    Operation.applyAll m (plannedOps b) =
      Operation.applyAll m (b.ops.map Operation.skolemize) := by
  have hmem : ∀ action u, u ∈ (blockOrder (quadsOf action b)).map Quad.skolemize ↔
      ⟨action, u⟩ ∈ Operation.lastOnly (b.ops.map Operation.skolemize) := by
    intro action u
    rw [Operation.lastOnly_map_skolemize h, List.mem_map, List.mem_map]
    constructor
    · rintro ⟨q, hq, rfl⟩
      exact ⟨⟨action, q⟩, mem_quadsOf.mp (mem_blockOrder.mp hq), rfl⟩
    · rintro ⟨⟨_, q⟩, hop, he⟩
      obtain ⟨rfl, rfl⟩ := Operation.mk.inj he
      exact ⟨q, mem_blockOrder.mpr (mem_quadsOf.mpr hop), rfl⟩
  refine SortedSet.ext fun u => ?_
  rw [plannedOps, Operation.applyAll_append, Operation.mem_applyAll_inserts,
    Operation.mem_applyAll_deletes, Operation.mem_applyAll, hmem, hmem]

/-- A batch without a request has no operations. -/
theorem ops_eq_nil (h : ofBatch? b = none) : b.ops = [] := by
  have hquads : ∀ action, quadsOf action b = [] := by
    rw [ofBatch?] at h
    split at h
    · next hd hi => rintro (_ | _) <;> assumption
    all_goals cases h
  cases hops : b.ops with
  | nil => rfl
  | cons op ops =>
    obtain ⟨⟨action, q⟩, hop, -⟩ := Operation.touched_lastOnly.mpr
      ⟨op, hops ▸ List.mem_cons_self, rfl⟩
    have hq := mem_quadsOf.mpr hop
    rw [hquads] at hq
    cases hq

end Request

/-! ## Datasets -/

namespace MemoryIndex

variable {b : Batch} {text space : String} {i : MemoryIndex}

/-- The request of a batch does to any dataset what the operations of the batch do. -/
theorem update_eq_applyAll (hb : ∀ op ∈ b.ops, op.quad.Normal ∧ op.quad.Storable)
    (htext : Request.ofBatch? b = some text) (hi : i.available = true)
    (hm : i.datasets.get? space = some m) (next : Nat) : update space text next i = .ok ({ i with
      datasets := i.datasets.insert space
        (Operation.applyAll m (b.ops.map Operation.skolemize)) }, next) := by
  refine update_eq_ok.mpr ⟨hi, m, _, hm, Request.batchOf_ofBatch? hb htext .., ?_⟩
  rw [Batch.effective, Operation.applyAll_lastOnly,
    Request.applyAll_plannedOps fun op hop => (hb op hop).2]

/-- An index that holds the quads of a store holds those of the store after a batch, once the
request of the batch was performed. A batch without a request changes nothing. -/
theorem update_of_apply {store store' : Store} {counts : Counts} (hstore : store.Reachable)
    (hnormal : ∀ op ∈ b.ops, op.quad.Normal) (happly : store.apply b = .ok (store', counts))
    (hf : store'.Fits) (hi : i.available = true)
    (hm : i.datasets.get? space = some (Quad.skolemizeAll store.quads)) (next : Nat) :
    match Request.ofBatch? b with
    | some text => update space text next i = .ok
        ({ i with datasets := i.datasets.insert space (Quad.skolemizeAll store'.quads) }, next)
    | none => store'.quads = store.quads := by
  obtain ⟨hvalid, hstored⟩ := hstore.valid (Store.fits_of_apply happly hf)
  have hstorable := (Store.apply_eq_ok.mp happly).1
  obtain ⟨-, hquads⟩ := hvalid.apply happly hf
  rw [hquads]
  cases htext : Request.ofBatch? b with
  | some text =>
    rw [Operation.skolemizeAll_applyAll hstored hstorable]
    exact update_eq_applyAll (fun op hop => ⟨hnormal op hop, hstorable op hop⟩) htext hi hm next
  | none =>
    rw [Request.ops_eq_nil htext]
    rfl

/-- The last operation on the quad that is there deletes it, though an earlier one inserts it. -/
theorem update_of_apply_interleaved :
    let q : Quad := ⟨.blank "b", .iri "x:p", .literal ⟨"a\"\n", none, some "en"⟩, .defaultGraph⟩
    let u : Quad := ⟨.iri "x:a", .iri "x:p", .blank "b", .iri "x:g"⟩
    let b : Batch := ⟨"s", [⟨.insert, q⟩, ⟨.delete, u⟩, ⟨.delete, q⟩, ⟨.insert, u⟩]⟩
    let store := (Store.perform ({}, {}) ⟨.insert, q⟩).1
    let store' := (b.effective.foldl Store.perform (store, {})).1
    let i : MemoryIndex :=
      { datasets := (∅ : SortedMap _ _).insert "s" (Quad.skolemizeAll store.quads) }
    store.Reachable ∧ (∀ op ∈ b.ops, op.quad.Normal) ∧ store.apply b = .ok (store', ⟨1, 1⟩) ∧
      store'.Fits ∧ ∃ text, Request.ofBatch? b = some text ∧ update "s" text 0 i = .ok
        ({ i with datasets := i.datasets.insert "s" (Quad.skolemizeAll store'.quads) }, 0) := by
  intro q u b store store' i
  have hwrite : ({} : Store).write [⟨.insert, q⟩] = .ok (store, ⟨1, 0⟩) := by decide +kernel
  have hstore : store.Reachable := .write .empty hwrite
  have hnormal : ∀ op ∈ b.ops, op.quad.Normal := by decide +kernel
  have happly : store.apply b = .ok (store', ⟨1, 1⟩) := by decide +kernel
  have hf : store'.Fits := by decide +kernel
  have htext : (Request.ofBatch? b).isSome = true := by decide +kernel
  obtain ⟨text, htext⟩ := Option.isSome_iff_exists.mp htext
  have hget : i.datasets.get? "s" = some (Quad.skolemizeAll store.quads) :=
    SortedMap.get?_insert ..
  have := update_of_apply hstore hnormal happly hf rfl hget 0
  rw [htext] at this
  exact ⟨hstore, hnormal, happly, hf, text, htext, this⟩

end MemoryIndex
end DualStore
