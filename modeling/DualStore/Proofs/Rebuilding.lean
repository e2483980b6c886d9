import DualStore.Proofs.Mirroring
import DualStore.Service.Check

/-! Rebuilding the index from a store, and bringing batches to it. A rebuild that succeeds leaves in
its scope what the store holds there (`Scope.rebuild_of_ready`), and one that fails changes nothing
that is held (`Scope.rebuild_of_not_ready`). -/

namespace DualStore

variable {m : SortedSet Quad} {q u : Quad} {qs : List Quad} {graph : Option Term} {space : String}

/-! ## Requests -/

namespace Update

theorem planDrop_target (src : Source) (graph : Option Term) :
    planDrop src true (Request.target graph) =
      .ok (Operation.deletes (src.matching (.ofGraph graph))) := by
  cases graph with
  | none => rfl
  | some g =>
    rw [Request.target]
    cases hd : g.isDefaultGraph with
    | true =>
      obtain rfl := Term.isDefaultGraph_iff.mp hd
      rfl
    | false =>
      rw [if_neg Bool.false_ne_true, planDrop, Bool.not_true, Bool.and_false]
      rfl

theorem batchOf_drop (h : IsGraphScope graph) (src : Source) (space : String) (next : Nat) :
    batchOf src space next (Request.drop graph) =
      .ok (⟨space, Operation.deletes ((src.after []).matching (.ofGraph graph))⟩, next) := by
  rw [batchOf, ofText_drop h]
  change ((planAll src next [.drop true (Request.target graph)]).mapError _ >>= _) = _
  rw [planAll_singleton, plan, planDrop_target]
  rfl

theorem batchOf_insertData (h : ∀ q ∈ qs, q.Normal ∧ q.Storable) (src : Source) (space : String)
    (next : Nat) : batchOf src space next (Request.insertData qs) =
      .ok (⟨space, Operation.inserts ((Request.blockOrder qs).map Quad.skolemize)⟩, next) := by
  rw [batchOf, ofText_insertData h]
  rfl

end Update

namespace MemoryIndex

variable {i j : MemoryIndex}

/-- Emptying a scope leaves what is outside of it. -/
theorem update_drop (h : IsGraphScope graph) (hi : i.available = true)
    (hm : i.datasets.get? space = some m) (next : Nat) :
    update space (Request.drop graph) next i = .ok ({ i with
      datasets := i.datasets.insert space
        (m.filter fun q => !(QuadPattern.ofGraph graph).accepts q) }, next) := by
  refine update_eq_ok.mpr ⟨hi, m, _, hm, Update.batchOf_drop h .., ?_⟩
  have hset : Operation.applyAll m (Operation.deletes
      (((Source.ofSet m).after []).matching (.ofGraph graph))) =
        m.filter fun q => !(QuadPattern.ofGraph graph).accepts q := by
    refine SortedSet.ext fun q => ?_
    have hmem := (((Source.lawful_ofSet m).after []) (.ofGraph graph)).2 q
    rw [Operation.applyAll_nil] at hmem
    rw [Operation.mem_applyAll_deletes, hmem, SortedSet.mem_filter, Bool.not_eq_true',
      Bool.eq_false_iff]
    exact and_congr_right fun hq => not_congr (and_iff_right hq)
  rw [Batch.effective, Operation.applyAll_lastOnly, hset]

/-- Inserting quads adds what stands for them. -/
theorem update_insertData (h : ∀ q ∈ qs, q.Normal ∧ q.Storable) (hi : i.available = true)
    (hm : i.datasets.get? space = some m) (next : Nat) :
    update space (Request.insertData qs) next i = .ok ({ i with
      datasets := i.datasets.insert space
        (Operation.applyAll m (Operation.inserts (qs.map Quad.skolemize))) }, next) := by
  refine update_eq_ok.mpr ⟨hi, m, _, hm, Update.batchOf_insertData h .., ?_⟩
  have hset : Operation.applyAll m
      (Operation.inserts ((Request.blockOrder qs).map Quad.skolemize)) =
        Operation.applyAll m (Operation.inserts (qs.map Quad.skolemize)) :=
    Operation.applyAll_inserts_congr fun u => by simp only [List.mem_map, Request.mem_blockOrder]
  rw [Batch.effective, Operation.applyAll_lastOnly, hset]

end MemoryIndex

/-- The index is on, and updates are not held back for too long. -/
structure IndexState.Ready (settings : Settings) (side : IndexState MemoryIndex) : Prop where
  available : side.index.available = true
  delay : side.index.delay ≤ settings.indexTimeout

variable {settings : Settings} {side : IndexState MemoryIndex} {index : MemoryIndex}
  {store : Store}

namespace IndexState

theorem AgreesBut.ready {side' : IndexState MemoryIndex} (h : side.AgreesBut space side')
    (hr : side.Ready settings) : side'.Ready settings :=
  ⟨h.available.trans hr.available, h.delay.trans_le hr.delay⟩

/-- The index once the dataset of a space holds `m`. -/
def withDataset (side : IndexState MemoryIndex) (space : String) (m : SortedSet Quad) :
    IndexState MemoryIndex :=
  { side with index := { side.index with datasets := side.index.datasets.insert space m } }

theorem get?_withDataset (side : IndexState MemoryIndex) (space : String) (m : SortedSet Quad) :
    (side.withDataset space m).index.datasets.get? space = some m := by
  rw [withDataset, SortedMap.get?_insert, if_pos rfl]

theorem held_withDataset (side : IndexState MemoryIndex) (space : String) (m : SortedSet Quad) :
    (side.withDataset space m).index.held space = m := by
  rw [MemoryIndex.held, get?_withDataset, Option.getD_some]

theorem agreesBut_withDataset (side : IndexState MemoryIndex) (space : String)
    (m : SortedSet Quad) : side.AgreesBut space (side.withDataset space m) :=
  MemoryIndex.agreesBut_insert m

/-- Of two contents of one dataset the last stays. -/
theorem withDataset_withDataset (side : IndexState MemoryIndex) (space : String)
    (m n : SortedSet Quad) :
    (side.withDataset space m).withDataset space n = side.withDataset space n := by
  have hdatasets : (side.index.datasets.insert space m).insert space n =
      side.index.datasets.insert space n := by
    refine SortedMap.ext fun other => ?_
    simp only [SortedMap.get?_insert]
    split <;> rfl
  rw [withDataset, withDataset, withDataset, hdatasets]

/-- A dataset that is given what it holds. -/
theorem withDataset_self (hm : side.index.datasets.get? space = some m) :
    side.withDataset space m = side := by
  have hdatasets : side.index.datasets.insert space m = side.index.datasets := by
    refine SortedMap.ext fun other => ?_
    rw [SortedMap.get?_insert]
    split
    next h => rw [h, hm]
    next => rfl
  rw [withDataset, hdatasets]

end IndexState

namespace IndexM

/-- An update that the index performs in time. -/
theorem updateWithin_run {text : String} {limit next : Nat} (hd : side.index.delay ≤ limit)
    (h : MemoryIndex.update space text side.next side.index = .ok (index, next)) :
    updateWithin limit space text side = (.ok (), ⟨index, next⟩) := by
  have hlimit : ¬ limit < TripleIndex.delay side.index := Nat.not_lt.mpr hd
  have hupdate : TripleIndex.update space text side.next side.index = .ok (index, next) := h
  rw [updateWithin, if_neg hlimit, update, hupdate]

/-- An update that fails changes nothing. -/
theorem updateWithin_cases (limit : Nat) (space text : String) (side : IndexState MemoryIndex) :
    (∃ index next, side.index.delay ≤ limit ∧
      MemoryIndex.update space text side.next side.index = .ok (index, next) ∧
      updateWithin limit space text side = (.ok (), ⟨index, next⟩)) ∨
    ∃ fault, updateWithin limit space text side = (.error fault, side) := by
  by_cases hd : limit < side.index.delay
  · have hlimit : limit < TripleIndex.delay side.index := hd
    rw [updateWithin, if_pos hlimit]
    exact .inr ⟨_, rfl⟩
  cases hupdate : MemoryIndex.update space text side.next side.index with
  | ok r =>
    obtain ⟨index, next⟩ := r
    exact .inl ⟨index, next, Nat.not_lt.mp hd, rfl, updateWithin_run (Nat.not_lt.mp hd) hupdate⟩
  | error fault =>
    have hlimit : ¬ limit < TripleIndex.delay side.index := hd
    have hupdate : TripleIndex.update space text side.next side.index = .error fault := hupdate
    rw [updateWithin, if_neg hlimit, update, hupdate]
    exact .inr ⟨fault, rfl⟩

/-- An update after which the dataset holds `m`. -/
theorem updateWithin_insert {text : String} (hr : side.Ready settings)
    (h : MemoryIndex.update space text side.next side.index =
      .ok ({ side.index with datasets := side.index.datasets.insert space m }, side.next)) :
    updateWithin settings.indexTimeout space text side = (.ok (), side.withDataset space m) :=
  updateWithin_run hr.delay h

theorem create_run (space : String) (hi : side.index.available = true) :
    create space side = (.ok (), side.withDataset space (side.index.held space)) := by
  have hcreate : TripleIndex.create space side.index = .ok _ :=
    MemoryIndex.create_eq_ok.mpr ⟨hi, rfl⟩
  rw [create, hcreate]
  refine congrArg (Prod.mk _) ?_
  by_cases hc : side.index.datasets.contains space = true
  · obtain ⟨m, hm⟩ := SortedMap.contains_iff.mp hc
    rw [MemoryIndex.held, hm, Option.getD_some, IndexState.withDataset_self hm, if_pos hc]
  · rw [if_neg hc]
    rw [Bool.not_eq_true, SortedMap.contains_eq_false_iff] at hc
    rw [MemoryIndex.held, hc]
    rfl

end IndexM

/-! ## Rebuilding -/

theorem flatten_chunks {α : Type} (size : Nat) (l : List α) : (chunks size l).flatten = l := by
  induction l using chunks.induct size with
  | case1 => rw [chunks, List.flatten_nil]
  | case2 a l ih => rw [chunks, List.flatten_cons, ih, List.cons_append, List.take_append_drop]

namespace Scope

/-- All pieces are added to what is there. -/
theorem replay_run (settings : Settings) {pieces : List (List Quad)}
    (h : ∀ q ∈ pieces.flatten, q.Normal ∧ q.Storable)
    (hr : side.Ready settings) (hm : side.index.datasets.get? space = some m) :
    replay settings space pieces side = (.ok (), side.withDataset space (Operation.applyAll m
      (Operation.inserts (pieces.flatten.map Quad.skolemize)))) := by
  induction pieces generalizing side m with
  | nil => exact congrArg (Prod.mk _) (IndexState.withDataset_self hm).symm
  | cons quads pieces ih =>
    rw [List.flatten_cons] at h ⊢
    have hrun := IndexM.updateWithin_insert hr <|
      MemoryIndex.update_insertData (fun q hq => h q (List.mem_append_left _ hq)) hr.available hm _
    have hr' := (side.agreesBut_withDataset space (Operation.applyAll m
      (Operation.inserts (quads.map Quad.skolemize)))).ready hr
    have hreplay := ih (fun q hq => h q (List.mem_append_right _ hq)) hr'
      (side.get?_withDataset space _)
    rw [replay, bind_run, hrun]
    refine hreplay.trans ?_
    rw [IndexState.withDataset_withDataset, List.map_append, Operation.inserts,
      Operation.inserts, Operation.inserts, List.map_append, Operation.applyAll_append]

/-- What a rebuild makes of a dataset: its scope is emptied, and quads are added. -/
def rebuilt (graph : Option Term) (m : SortedSet Quad) (quads : List Quad) : SortedSet Quad :=
  Operation.applyAll (m.filter fun q => !(QuadPattern.ofGraph graph).accepts q)
    (Operation.inserts (quads.map Quad.skolemize))

/-- What the index holds of a store, from which nothing is missing. -/
theorem mem_rebuilt (hs : store.Valid) (hf : store.Fits)
    (hq : ∀ q ∈ store.quads, q.Storable) :
    u ∈ rebuilt graph m (store.scan (.ofGraph graph)) ↔
      if (QuadPattern.ofGraph graph).accepts u then u ∈ Quad.skolemizeAll store.quads
      else u ∈ m := by
  have hgraph := fun q h => (hq q h).accepts_skolemize graph
  rw [rebuilt, Operation.mem_applyAll_inserts, SortedSet.mem_filter, List.mem_map,
    Quad.mem_skolemizeAll]
  simp only [hs.mem_scan hf]
  constructor
  · rintro (⟨q, ⟨h, hp⟩, rfl⟩ | ⟨hm, hp⟩)
    · rw [hgraph q h, if_pos hp]
      exact ⟨q, h, rfl⟩
    · rw [if_neg (by rwa [Bool.not_eq_true', Bool.eq_false_iff] at hp)]
      exact hm
  · intro h
    split at h
    next hp =>
      obtain ⟨q, h, rfl⟩ := h
      exact .inl ⟨q, ⟨h, hgraph q h ▸ hp⟩, rfl⟩
    next hp => exact .inr ⟨h, by rw [Bool.not_eq_true', Bool.eq_false_iff]; exact hp⟩

/-- A rebuild of an index that can be updated. -/
theorem rebuild_run (space : String) (hr : side.Ready settings) (hs : store.Valid)
    (hf : store.Fits) (hq : ∀ q ∈ store.quads, q.Normal ∧ q.Storable) (hg : IsGraphScope graph) :
    rebuild settings space store graph side = (.ok (store.scan (.ofGraph graph)).length,
      side.withDataset space
        (rebuilt graph (side.index.held space) (store.scan (.ofGraph graph)))) := by
  have hcreate := IndexM.create_run space hr.available
  have hr₁ := (side.agreesBut_withDataset space (side.index.held space)).ready hr
  have hdrop := IndexM.updateWithin_insert hr₁ <|
    MemoryIndex.update_drop hg hr₁.available (side.get?_withDataset space _) _
  rw [IndexState.withDataset_withDataset] at hdrop
  have hr₂ := (side.agreesBut_withDataset space ((side.index.held space).filter fun q =>
    !(QuadPattern.ofGraph graph).accepts q)).ready hr
  have hpieces : (chunks settings.chunkSize (store.scan (.ofGraph graph))).flatten =
      store.scan (.ofGraph graph) := flatten_chunks ..
  have hreplay := replay_run settings
    (fun q h => hq q ((hs.mem_scan hf).mp (hpieces ▸ h)).1) hr₂ (side.get?_withDataset space _)
  rw [IndexState.withDataset_withDataset, hpieces] at hreplay
  rw [rebuild, CheckM.writing, adapt_run, bind_run, hcreate]
  simp only [bind_run, hdrop, hreplay, pure_run, mapError_ok]
  rfl

/-- While the index can be updated, a rebuild leaves in its scope what the store holds there. -/
theorem rebuild_of_ready (space : String) (hr : side.Ready settings) (hs : store.Valid)
    (hf : store.Fits) (hq : ∀ q ∈ store.quads, q.Normal ∧ q.Storable) (hg : IsGraphScope graph) :
    ∃ side', rebuild settings space store graph side =
        (.ok (store.scan (.ofGraph graph)).length, side') ∧ ∀ u, u ∈ side'.index.held space ↔
          if (QuadPattern.ofGraph graph).accepts u then u ∈ Quad.skolemizeAll store.quads
          else u ∈ side.index.held space := by
  refine ⟨_, rebuild_run space hr hs hf hq hg, fun u => ?_⟩
  rw [IndexState.held_withDataset]
  exact mem_rebuilt hs hf fun q h => (hq q h).2

/-- An index that holds updates back for too long is not rebuilt, and what it holds stays. -/
theorem rebuild_of_late (space : String) (store : Store) (graph : Option Term)
    (hav : side.index.available = true) (hlate : settings.indexTimeout < side.index.delay) :
    rebuild settings space store graph side =
      (.error (.indexWrite (.timedOut settings.indexTimeout)),
        side.withDataset space (side.index.held space)) := by
  have hlate : settings.indexTimeout <
      TripleIndex.delay (side.withDataset space (side.index.held space)).index := hlate
  rw [rebuild, CheckM.writing, adapt_run, bind_run, IndexM.create_run space hav]
  simp only [bind_run, IndexM.updateWithin, if_pos hlate, mapError_error]

/-- While the index cannot be updated, a rebuild fails and changes nothing that is held. -/
theorem rebuild_of_not_ready (space : String) (store : Store) (graph : Option Term)
    (hr : ¬ side.Ready settings) :
    ∃ e side', rebuild settings space store graph side = (.error e, side') ∧
      side'.index.held space = side.index.held space := by
  by_cases hav : side.index.available = true
  · have hlate := Nat.not_le.mp fun hd => hr ⟨hav, hd⟩
    exact ⟨_, _, rebuild_of_late space store graph hav hlate, side.held_withDataset space _⟩
  · obtain ⟨fault, hcreate⟩ : ∃ fault, TripleIndex.create space side.index = .error fault := by
      cases hcreate : MemoryIndex.create space side.index with
      | ok index => exact absurd (MemoryIndex.create_eq_ok.mp hcreate).1 hav
      | error fault => exact ⟨fault, hcreate⟩
    refine ⟨.indexWrite fault, side, ?_, rfl⟩
    rw [rebuild, CheckM.writing, adapt_run, bind_run, IndexM.create, hcreate]
    rfl

/-! ## Batches -/

/-- A batch is performed on what the index holds, or nothing happens to the index. -/
theorem apply_cases {b : Batch} (settings : Settings) (side : IndexState MemoryIndex)
    (hb : ∀ op ∈ b.ops, op.quad.Normal ∧ op.quad.Storable) :
    (∃ side', apply settings b side = (.ok (), side') ∧ side'.index.held b.space =
      Operation.applyAll (side.index.held b.space) (b.ops.map Operation.skolemize)) ∨
    ∃ fault, apply settings b side = (.error fault, side) := by
  rw [apply]
  cases htext : Request.ofBatch? b with
  | none => exact .inl ⟨side, rfl, by rw [Request.ops_eq_nil htext]; rfl⟩
  | some text =>
    rcases IndexM.updateWithin_cases settings.indexTimeout b.space text side with
      ⟨index, next, -, hupdate, hrun⟩ | ⟨fault, hrun⟩
    · obtain ⟨hav, m, -, hm, -, -⟩ := MemoryIndex.update_eq_ok.mp hupdate
      rw [MemoryIndex.update_eq_applyAll hb htext hav hm] at hupdate
      obtain ⟨rfl, rfl⟩ := Prod.mk.inj (Except.ok.inj hupdate)
      refine .inl ⟨_, hrun, ?_⟩
      rw [MemoryIndex.held, SortedMap.get?_insert, if_pos rfl, MemoryIndex.held, hm]
      rfl
    · exact .inr ⟨fault, hrun⟩

end Scope
end DualStore
