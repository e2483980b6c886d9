import DualStore.Proofs.Lifecycle
import DualStore.Proofs.Rebuilding

/-! What the index does not follow is recorded. Each graph of a space in which the index differs
from the store has an entry in the backlog, alone or with its whole space, whatever calls were made
and whenever the index was off (`Service.perform_covered`). -/

namespace DualStore

/-! ## Stores -/

/-- A store that holds what it should, within the limits of the machine. -/
structure Store.Sound (s : Store) : Prop where
  valid : s.Valid
  fits : s.Fits
  quads : ∀ q ∈ s.quads, q.Normal ∧ q.Storable

namespace Store.Sound

variable {s s' : Store} {b : Batch} {counts : Counts}

theorem empty : ({} : Store).Sound := by
  have hf : ({} : Store).Fits := by decide
  obtain ⟨hvalid, -⟩ := Store.Reachable.empty.valid hf
  refine ⟨hvalid, hf, fun q hq => ?_⟩
  rw [quads_empty] at hq
  cases hq

/-- A batch of terms that their own parts rebuild keeps a store sound, and the index can follow it
operation by operation. -/
theorem apply (hs : s.Sound) (hb : ∀ op ∈ b.ops, op.quad.Normal)
    (h : s.apply b = .ok (s', counts)) (hf : s'.Fits) : s'.Sound ∧
      Quad.skolemizeAll s'.quads =
        Operation.applyAll (Quad.skolemizeAll s.quads) (b.ops.map Operation.skolemize) := by
  have hstorable := (Store.apply_eq_ok.mp h).1
  obtain ⟨hvalid, hquads⟩ := hs.valid.apply h hf
  refine ⟨⟨hvalid, hf, fun q hq => ?_⟩, ?_⟩
  · rw [hquads] at hq
    rcases Operation.mem_applyAll.mp hq with hop | ⟨hq, -⟩
    · have hop := Operation.mem_of_mem_lastOnly hop
      exact ⟨hb _ hop, hstorable _ hop⟩
    · exact hs.quads q hq
  · rw [hquads, Operation.skolemizeAll_applyAll (fun q hq => (hs.quads q hq).2) hstorable]

end Store.Sound

/-- The terms of a call are rebuilt by their own parts, and the graph that it rebuilds is the name
of one. -/
def Call.Admissible (s : Service MemoryIndex) : Call → Prop
  | applyBatch b _ => ∀ op ∈ b.ops, op.quad.Normal
  | update space body action _ => ∀ store b next, s.registry.get space = .ok store →
      body.batch store.source space action s.side.next = .ok (b, next) →
      ∀ op ∈ b.ops, op.quad.Normal
  | rebuild _ graph => IsGraphScope graph
  | _ => True

/-- The call applies the batch, if it gets so far. -/
inductive Call.Applies (s : Service MemoryIndex) : Call → Batch → Prop
  | applyBatch (b : Batch) (validate : Bool) : Applies s (.applyBatch b validate) b
  | update {space : String} {body : Body} {action : Action} {validate : Bool} {store : Store}
      {b : Batch} {next : Nat} (hget : s.registry.get space = .ok store)
      (hbatch : body.batch store.source space action s.side.next = .ok (b, next)) :
      Applies s (.update space body action validate) b

theorem Call.Applies.normal {s : Service MemoryIndex} {c : Call} {b : Batch} (h : c.Applies s b)
    (hc : c.Admissible s) : ∀ op ∈ b.ops, op.quad.Normal := by
  cases h with
  | applyBatch => exact hc
  | update hget hbatch => exact hc _ _ _ hget hbatch

namespace Service

variable {s s' : Service MemoryIndex} {name other : String} {c : Call}

/-- All stores keep to the limits of the machine. -/
def Fits (s : Service MemoryIndex) : Prop := ∀ space ∈ s.registry.spaces.values, space.store.Fits

instance (s : Service MemoryIndex) : Decidable s.Fits :=
  inferInstanceAs (Decidable (∀ space ∈ s.registry.spaces.values, space.store.Fits))

/-- The service is valid, and so are its stores. -/
structure Sound (s : Service MemoryIndex) : Prop where
  valid : s.Valid
  store : ∀ name space, s.registry.spaces.get? name = some space → space.store.Sound

theorem Fits.store {space : Space} (h : s.Fits) (hget : s.registry.spaces.get? name = some space) :
    space.store.Fits := h space (SortedMap.mem_values.mpr ⟨name, hget⟩)

theorem Sound.fits (h : s.Sound) : s.Fits := by
  intro space hspace
  obtain ⟨name, hget⟩ := SortedMap.mem_values.mp hspace
  exact (h.store name space hget).fits

theorem Fresh.sound (h : s.Fresh) : s.Sound := by
  refine ⟨h.valid, fun name space hget => ?_⟩
  rw [h.registry] at hget
  cases hget

/-! ## Stores after calls -/

theorem Sound.of_registry (h : s.Sound) (h' : s'.Valid) (hr : s'.registry = s.registry) :
    s'.Sound :=
  ⟨h', fun name space hget => h.store name space (hr ▸ hget)⟩

/-- Where the store of a space can come from: it was there, or is new, or a batch made it of the one
that was there. -/
inductive Written (s : Service MemoryIndex) (c : Call) (name : String) (store : Store) : Prop
  | kept {space : Space} (hget : s.registry.spaces.get? name = some space)
      (hstore : space.store = store)
  | empty (hstore : store = {})
  | applied {space : Space} {b : Batch} {counts : Counts}
      (hget : s.registry.spaces.get? name = some space) (hb : c.Applies s b)
      (happly : space.store.apply b = .ok (store, counts))

private theorem written_applyBatch {b : Batch} {validate : Bool} {space : Space}
    (hget : (applyBatch b validate s').2.registry.spaces.get? name = some space)
    (hreg : s'.registry = s.registry) (hb : c.Applies s b) :
    Written s c name space.store := by
  have hput : ∀ store store' counts, s'.registry.get b.space = .ok store →
      store.apply b = .ok (store', counts) →
      (applyBatch b validate s').2.registry = s'.registry.put b.space store' →
      Written s c name space.store := by
    intro store store' counts hstore happly hreg'
    rw [hreg', Registry.get?_put] at hget
    split at hget
    next he =>
      obtain ⟨-, info, hinfo⟩ := Registry.get_eq_ok.mp hstore
      rw [hinfo] at hget
      obtain rfl := Option.some.inj hget
      exact .applied (he ▸ hreg ▸ hinfo) hb happly
    next => exact .kept (hreg ▸ hget) rfl
  rcases applyBatch_cases (t := (applyBatch b validate s').2) rfl with
    ⟨-, h⟩ | ⟨store, store', counts, hstore, happly, ⟨side, -, h⟩ | ⟨fault, side, -, h⟩⟩
  · rw [h] at hget
    exact .kept (hreg ▸ hget) rfl
  · exact hput store store' counts hstore happly h.registry
  · exact hput store store' counts hstore happly (congrArg Service.registry h)

theorem written_perform {space : Space}
    (hget : (s.perform c).registry.spaces.get? name = some space) :
    Written s c name space.store := by
  have of_registry : (s.perform c).registry = s.registry → Written s c name space.store :=
    fun hreg => .kept (hreg ▸ hget) rfl
  cases c with
  | createSpace other createdAt =>
    rcases createSpace_cases (t := (createSpace other createdAt s).2) rfl with
      ⟨-, h⟩ | ⟨registry, hcreate, -, h⟩
    · exact of_registry (congrArg Service.registry h)
    · have hreg : (createSpace other createdAt s).2.registry = registry := by
        rcases h with ⟨index, -, h⟩ | ⟨fault, -, h⟩ <;> rw [h]
      rw [perform, hreg, (Registry.create_eq_ok.mp hcreate).2.2, SortedMap.get?_insert] at hget
      split at hget
      · obtain rfl := Option.some.inj hget
        exact .empty rfl
      · exact .kept hget rfl
  | dropSpace other =>
    rcases dropSpace_cases (t := (dropSpace other s).2) rfl with ⟨-, h⟩ | ⟨registry, hremove, h⟩
    · exact of_registry (congrArg Service.registry h)
    · rw [perform, h, (Registry.remove_eq_ok.mp hremove).2.2, SortedMap.get?_erase] at hget
      split at hget
      · cases hget
      · exact .kept hget rfl
  | applyBatch b validate => exact written_applyBatch hget rfl (.applyBatch b validate)
  | update space body action validate =>
    rcases update_cases (t := (update space body action validate s).2) rfl with
      ⟨-, h⟩ | ⟨store, b, next, hstore, hbatch, h⟩
    · exact of_registry (congrArg Service.registry h)
    · have hrun : s.perform (.update space body action validate) =
          (applyBatch b validate { s with side := { s.side with next } }).2 := by
        rw [h, perform]
      rw [hrun] at hget
      exact written_applyBatch hget rfl (.update hstore hbatch)
  | rebuild space graph => exact of_registry (registry_rebuild space graph s)
  | check space graph =>
    have hsame : SameBut s (check space graph s).2 := check_keeps s
    exact of_registry hsame.registry
  | sparqlQuery space text =>
    have hsame : SameBut s (sparqlQuery space text s).2 := sparqlQuery_keeps text s
    exact of_registry hsame.registry
  | reconcilePending | reconcileSpace | setAvailable =>
    exact of_registry (registry_perform_of_unscoped rfl)

/-- An admissible call keeps the service sound, as long as its stores keep to the limits. -/
theorem perform_sound (hs : s.Sound) (hc : c.Admissible s) (hf : (s.perform c).Fits) :
    (s.perform c).Sound := by
  refine ⟨perform_valid hs.valid c, fun name space hget => ?_⟩
  cases written_perform hget with
  | kept hold hstore => exact hstore ▸ hs.store name _ hold
  | empty hstore => exact hstore ▸ .empty
  | applied hold hb happly =>
    exact ((hs.store name _ hold).apply (hb.normal hc) happly (hf.store hget)).1

/-! ## What the index holds after calls -/

/-- What the index holds differs from the store only in graphs that are recorded. -/
def Covered (s : Service MemoryIndex) (name : String) : Prop :=
  ∀ space, s.registry.spaces.get? name = some space → ∀ u,
    (u ∈ s.mirror name ↔ u ∈ Quad.skolemizeAll space.store.quads) ∨ s.backlog.Covers name u.graph

theorem Covered.of_agreesBut (h : s.Covered name) (ha : AgreesBut other s s') (hne : name ≠ other) :
    s'.Covered name := by
  intro space hget u
  rw [ha.space name hne] at hget
  rw [ha.mirror hne]
  exact (h space hget u).imp_right fun hc => hc.congr fun e he => ha.pending e (he ▸ hne)

theorem Covered.of_sameBut (h : s.Covered name) (hsame : SameBut s s') : s'.Covered name := by
  obtain ⟨next, rfl⟩ := hsame
  exact h

/-- A batch either reaches the index as well, or all of its graphs are recorded. -/
theorem applyBatch_covered {b : Batch} {validate : Bool} (hs : s.Sound)
    (hb : ∀ op ∈ b.ops, op.quad.Normal) (hf : (applyBatch b validate s).2.Fits)
    (h : s.Covered b.space) : (applyBatch b validate s).2.Covered b.space := by
  rcases applyBatch_cases (t := (applyBatch b validate s).2) rfl with
    ⟨-, hrun⟩ | ⟨store, store', counts, hstore, happly, hcases⟩
  · rwa [hrun]
  obtain ⟨hname, info, hget⟩ := Registry.get_eq_ok.mp hstore
  have hput : (s.registry.put b.space store').spaces.get? b.space = some ⟨info, store'⟩ := by
    rw [Registry.get?_put, if_pos rfl, hget]
    rfl
  have hreg : (applyBatch b validate s).2.registry = s.registry.put b.space store' := by
    rcases hcases with ⟨side, -, hrun⟩ | ⟨fault, side, -, hrun⟩
    · exact hrun.registry
    · rw [hrun]
  have hfits : store'.Fits := hf.store (hreg ▸ hput)
  obtain ⟨-, hquads⟩ := (hs.store _ _ hget).apply hb happly hfits
  have hstorable := (Store.apply_eq_ok.mp happly).1
  have hbefore := h _ hget
  intro space hget' u
  rw [hreg, hput] at hget'
  obtain rfl := Option.some.inj hget'
  have hindex := Scope.apply_cases s.settings s.side
    fun op hop => ⟨hb op hop, hstorable op hop⟩
  rcases hcases with ⟨side, hside, hrun⟩ | ⟨fault, side, hside, hrun⟩ <;>
    rw [hside] at hindex
  · obtain ⟨side', hok, hheld⟩ := hindex.resolve_right fun ⟨_, herror⟩ => nomatch herror
    obtain ⟨-, rfl⟩ := Prod.mk.inj hok
    have hmirror : (applyBatch b validate s).2.mirror b.space =
        Operation.applyAll (s.mirror b.space) (b.ops.map Operation.skolemize) :=
      hrun.mirror.trans hheld
    obtain ⟨next, hrun⟩ := hrun
    rcases hbefore u with hagree | hcovers
    · rw [hmirror, hquads]
      exact .inl (Operation.mem_applyAll_congr (.inl hagree))
    · rw [hrun]
      exact .inr hcovers
  · obtain ⟨fault', herror⟩ := hindex.resolve_left fun ⟨_, hok, _⟩ => nomatch hok
    obtain ⟨-, rfl⟩ := Prod.mk.inj herror
    have hscope := isScope_of_apply hname happly
    rw [hrun]
    -- the index is as it was, so only graphs of the batch can differ that did not before
    by_cases hgraph : u.graph ∈ b.graphs.toList
    · exact .inr (hs.valid.backlog.covers_recordAll hscope _ hgraph)
    · rcases hbefore u with hagree | hcovers
      · refine .inl (hagree.trans ?_)
        rw [hquads, Operation.mem_applyAll_of_untouched]
        rintro _ hmem rfl
        obtain ⟨op, hop, rfl⟩ := List.mem_map.mp hmem
        refine hgraph ?_
        rw [SortedSet.mem_toList, Batch.graphs, SortedSet.mem_ofList]
        exact List.mem_map.mpr ⟨op, hop,
          (Term.skolemize_of_isIri (hstorable op hop).graph).symm⟩
      · exact .inr (hcovers.recordAll hs.valid.backlog hscope _)

/-- A rebuild changes nothing that is held, or leaves in its scope what the store holds there. -/
theorem rebuild_cases {graph : Option Term} {space : Space} (hs : s.Sound)
    (hg : IsGraphScope graph) (hget : s.registry.spaces.get? name = some space) :
    (∃ n, (rebuild name graph s).1 = .ok n ∧ ∀ u, u ∈ (rebuild name graph s).2.mirror name ↔
      if (QuadPattern.ofGraph graph).accepts u then u ∈ Quad.skolemizeAll space.store.quads
      else u ∈ s.mirror name) ∨
    (¬ s.side.Ready s.settings ∧ ∃ e, (rebuild name graph s).1 = .error e ∧
      (rebuild name graph s).2.mirror name = s.mirror name) := by
  have hname := hs.valid.name name (Registry.contains_iff.mpr ⟨space, hget⟩)
  have hstore : s.registry.get name = .ok space.store :=
    Registry.get_eq_ok.mpr ⟨hname, space.info, hget⟩
  obtain ⟨hvalid, hf, hq⟩ := hs.store name space hget
  rw [rebuild_run, hstore]
  by_cases hr : s.side.Ready s.settings
  · obtain ⟨side', hrun, hheld⟩ := Scope.rebuild_of_ready name hr hvalid hf hq hg
    refine .inl ⟨_, congrArg Prod.fst hrun, fun u => ?_⟩
    rw [Service.mirror]
    dsimp only
    rw [hrun]
    exact hheld u
  · obtain ⟨e, side', hrun, hheld⟩ := Scope.rebuild_of_not_ready name
      space.store graph hr
    refine .inr ⟨hr, e, congrArg Prod.fst hrun, ?_⟩
    rw [Service.mirror]
    dsimp only
    rw [hrun]
    exact hheld

theorem rebuild_covered {graph : Option Term} (hs : s.Sound) (hg : IsGraphScope graph)
    (h : s.Covered name) : (rebuild name graph s).2.Covered name := by
  intro space hget u
  rw [registry_rebuild] at hget
  rw [backlog_rebuild]
  rcases rebuild_cases hs hg hget with ⟨n, -, hheld⟩ | ⟨-, e, -, hheld⟩
  · rw [hheld]
    split
    · exact .inl .rfl
    · exact h space hget u
  · rw [hheld]
    exact h space hget u

/-- An entry goes once its scope was rebuilt. -/
theorem reconcileEntry_covered {e : Entry} (hs : s.Sound) (he : Backlog.IsScope e.space e.graph)
    (h : s.Covered name) (sum : Summary) :
    (reconcileEntry sum e s).2.Covered name := by
  by_cases hne : name = e.space
  · subst hne
    have hrebuilt := rebuild_covered hs he.graph h
    have hcases := fun space (hget : s.registry.spaces.get? e.space = some space) =>
      rebuild_cases hs he.graph hget
    have hreg := registry_rebuild e.space e.graph s
    have hvalid := rebuild_valid hs.valid e.space e.graph
    rw [reconcileEntry_run]
    split
    · generalize rebuild e.space e.graph s = r at hrebuilt hcases hreg hvalid ⊢
      obtain ⟨fault | n, s₁⟩ := r
      · exact hrebuilt
      · intro space hget u
        obtain ⟨-, -, hheld⟩ := (hcases space (hreg ▸ hget)).resolve_right
          fun ⟨_, _, herror, _⟩ => nomatch herror
        -- in the scope both sides agree now, and outside of it the entry covered nothing
        by_cases hin : (QuadPattern.ofGraph e.graph).accepts u = true
        · exact .inl ((hheld u).trans (by rw [if_pos hin]))
        · refine (hrebuilt space hget u).imp_right fun hc => hc.complete hvalid.backlog he ?_
          rintro ⟨-, hgraph | hgraph⟩ <;> rw [hgraph] at hin
          · exact hin rfl
          · exact hin (by simp [QuadPattern.ofGraph, QuadPattern.accepts])
    next habsent =>
      intro space hget u
      exact absurd (Registry.contains_iff.mpr ⟨space, hget⟩) habsent
  · exact h.of_agreesBut (reconcileEntry_agreesBut hs.valid he sum) hne

/-- As long as a space is there, all graphs that its index does not follow are recorded. -/
theorem perform_covered (hs : s.Sound) (hc : c.Admissible s) (hf : (s.perform c).Fits)
    (hin : s.registry.contains name = true) (h : s.Covered name) : (s.perform c).Covered name := by
  cases hspace : c.space? with
  | some other =>
    by_cases hne : name = other
    · subst hne
      cases c with
      | createSpace name createdAt =>
        cases hspace
        rcases createSpace_cases (t := (createSpace name createdAt s).2) rfl with
          ⟨-, hrun⟩ | ⟨registry, hcreate, -⟩
        · rwa [perform, hrun]
        · rw [(Registry.create_eq_ok.mp hcreate).2.1] at hin
          cases hin
      | dropSpace name =>
        cases hspace
        rcases dropSpace_cases (t := (dropSpace name s).2) rfl with
          ⟨-, hrun⟩ | ⟨registry, hremove, hrun⟩ <;> rw [perform, hrun]
        · exact h
        · intro space hget
          rw [(Registry.remove_eq_ok.mp hremove).2.2, SortedMap.get?_erase, if_pos rfl] at hget
          cases hget
      | applyBatch b validate =>
        cases hspace
        exact applyBatch_covered hs hc hf h
      | update space body action validate =>
        cases hspace
        rcases update_cases (t := (update name body action validate s).2) rfl with
          ⟨-, hrun⟩ | ⟨store, b, next, hstore, hb, hrun⟩
        · rwa [perform, hrun]
        · obtain rfl := space_of_batch hb
          have hnext : SameBut s { s with side := { s.side with next } } := ⟨next, rfl⟩
          have hrun : s.perform (.update b.space body action validate) =
              (applyBatch b validate { s with side := { s.side with next } }).2 := by
            rw [hrun, perform]
          rw [hrun] at hf ⊢
          exact applyBatch_covered (hs.of_registry (hnext.valid hs.valid) rfl)
            (hc store b next hstore hb) hf (h.of_sameBut hnext)
      | rebuild space graph =>
        cases hspace
        exact rebuild_covered hs hc h
      | check space graph => exact h.of_sameBut (check_keeps s)
      | sparqlQuery space text => exact h.of_sameBut (sparqlQuery_keeps text s)
      | reconcilePending | reconcileSpace | setAvailable => cases hspace
    · exact h.of_agreesBut (perform_agreesBut hs.valid hspace) hne
  | none =>
    refine (perform_induction hspace (P := fun t => t.Sound ∧ t.Covered name)
      (fun _ => ⟨hs.of_registry (valid_of_side hs.valid _) rfl, h⟩)
      (fun e he sum t ht => ?_) ⟨hs, h⟩).2
    have hscope := hs.valid.backlog.isScope he
    exact ⟨ht.1.of_registry (reconcileEntry_valid ht.1.valid sum e)
      (registry_reconcileEntry sum e t), reconcileEntry_covered ht.1 hscope ht.2 sum⟩

/-! ## Runs -/

/-- Calls that are admissible when they are made, with stores that keep to the limits of the
machine. -/
def Admits (s : Service MemoryIndex) : List Call → Prop
  | [] => True
  | c :: calls => c.Admissible s ∧ (s.perform c).Fits ∧ (s.perform c).Admits calls

theorem admits_append {calls more : List Call} :
    s.Admits (calls ++ more) ↔ s.Admits calls ∧ (s.run calls).Admits more := by
  induction calls generalizing s with
  | nil => exact (and_iff_right trivial).symm
  | cons c calls ih =>
    rw [List.cons_append, Admits, Admits, ih, and_assoc, and_assoc]
    rfl

theorem run_sound {calls : List Call} (hs : s.Sound) (h : s.Admits calls) :
    (s.run calls).Sound := by
  induction calls generalizing s with
  | nil => exact hs
  | cons c calls ih => exact ih (perform_sound hs h.1 h.2.1) h.2.2

/-- A space that is not dropped stays covered. -/
theorem run_covered {calls : List Call} (hs : s.Sound) (h : s.Admits calls)
    (hdrop : .dropSpace name ∉ calls) (hin : s.registry.contains name = true)
    (hc : s.Covered name) :
    (s.run calls).registry.contains name = true ∧ (s.run calls).Covered name := by
  induction calls generalizing s with
  | nil => exact ⟨hin, hc⟩
  | cons c calls ih =>
    obtain ⟨hadm, hf, hrest⟩ := h
    rw [List.mem_cons, not_or] at hdrop
    exact ih (perform_sound hs hadm hf) hrest hdrop.2 (contains_perform hin (Ne.symm hdrop.1))
      (perform_covered hs hadm hf hin hc)

end Service
end DualStore
