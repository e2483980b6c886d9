import DualStore.Proofs.ServiceCalls
import DualStore.Proofs.StorableQuads

/-! Runs of the service: calls in any order, with the index switched on and off between them. A call
about one space leaves every other space as it is, on both sides and in the backlog, and all calls
keep the service valid. -/

namespace DualStore

/-- Something that is asked of the service, or done to its index from outside. -/
inductive Call where
  | createSpace (name createdAt : String)
  | dropSpace (name : String)
  | applyBatch (b : Batch) (validate : Bool)
  | update (space : String) (body : Body) (action : Action) (validate : Bool)
  | rebuild (space : String) (graph : Option Term)
  | check (space : String) (graph : Option Term)
  | sparqlQuery (space text : String)
  | reconcilePending
  | reconcileSpace (space : String)
  | setAvailable (available : Bool)

/-- The space that a call is about, if it names it. -/
def Call.space? : Call → Option String
  | createSpace name _ | dropSpace name => some name
  | applyBatch b _ => some b.space
  | update space _ _ _ | rebuild space _ | check space _ | sparqlQuery space _ => some space
  | reconcilePending | reconcileSpace _ | setAvailable _ => none

namespace Service

/-- What a call leaves behind, be it an error or not. -/
def perform (s : Service MemoryIndex) : Call → Service MemoryIndex
  | .createSpace name createdAt => (createSpace name createdAt s).2
  | .dropSpace name => (dropSpace name s).2
  | .applyBatch b validate => (applyBatch b validate s).2
  | .update space body action validate => (update space body action validate s).2
  | .rebuild space graph => (rebuild space graph s).2
  | .check space graph => (check space graph s).2
  | .sparqlQuery space text => (sparqlQuery space text s).2
  | .reconcilePending => (reconcilePending s).2
  | .reconcileSpace space => (reconcileSpace space s).2
  | .setAvailable available =>
    { s with side := { s.side with index := { s.side.index with available } } }

/-- What calls leave behind, one after the other. -/
def run (s : Service MemoryIndex) (calls : List Call) : Service MemoryIndex := calls.foldl perform s

theorem run_append (s : Service MemoryIndex) (calls more : List Call) :
    s.run (calls ++ more) = (s.run calls).run more := List.foldl_append

theorem run_concat (s : Service MemoryIndex) (calls : List Call) (c : Call) :
    s.run (calls ++ [c]) = (s.run calls).perform c := by
  rw [run_append]
  rfl

/-- What the index holds of a space. -/
def mirror (s : Service MemoryIndex) (name : String) : SortedSet Quad := s.side.index.held name

/-! ## Valid services -/

/-- Spaces have names that they may have, and what is recorded is recorded of spaces that are
there. -/
structure Valid (s : Service MemoryIndex) : Prop where
  name : ∀ name, s.registry.contains name = true → isSpaceName name = true
  backlog : s.backlog.Valid
  contains : ∀ e ∈ s.backlog.pending, s.registry.contains e.space = true

/-- `s'` is `s` but for one space: what it holds on either side, and what is recorded of it. -/
structure AgreesBut (name : String) (s s' : Service MemoryIndex) : Prop where
  index : s.side.AgreesBut name s'.side
  settings : s'.settings = s.settings
  space : ∀ other, other ≠ name → s'.registry.spaces.get? other = s.registry.spaces.get? other
  pending : ∀ e : Entry, e.space ≠ name → (e ∈ s'.backlog.pending ↔ e ∈ s.backlog.pending)

instance {name : String} : IsPreorder (Service MemoryIndex) (AgreesBut name) where
  refl s := ⟨refl_of (IndexState.AgreesBut name) s.side, rfl, fun _ _ => rfl, fun _ _ => .rfl⟩
  trans _ _ _ h h' := ⟨trans_of (IndexState.AgreesBut name) h.index h'.index,
    h'.settings.trans h.settings, fun other ho => (h'.space other ho).trans (h.space other ho),
    fun e he => (h'.pending e he).trans (h.pending e he)⟩

variable {s s' : Service MemoryIndex} {name other space createdAt : String} {graph : Option Term}

theorem AgreesBut.mirror (h : AgreesBut name s s') (ho : other ≠ name) :
    s'.mirror other = s.mirror other := by
  rw [Service.mirror, MemoryIndex.held, h.index.dataset other ho]
  rfl

theorem agreesBut_of_side {side : IndexState MemoryIndex} (h : s.side.AgreesBut name side) :
    AgreesBut name s { s with side } :=
  ⟨h, rfl, fun _ _ => rfl, fun _ _ => .rfl⟩

theorem valid_of_side (h : s.Valid) (side : IndexState MemoryIndex) : Valid { s with side } :=
  ⟨h.name, h.backlog, h.contains⟩

theorem SameBut.agreesBut (h : SameBut s s') : AgreesBut name s s' := by
  obtain ⟨next, rfl⟩ := h
  exact agreesBut_of_side (refl_of (MemoryIndex.AgreesBut name) s.side.index)

theorem SameBut.registry (h : SameBut s s') : s'.registry = s.registry := by
  obtain ⟨next, rfl⟩ := h
  rfl

theorem SameBut.mirror (h : SameBut s s') : s'.mirror name = s.mirror name := by
  obtain ⟨next, rfl⟩ := h
  rfl

theorem SameBut.valid (h : SameBut s s') (hs : s.Valid) : s'.Valid := by
  obtain ⟨next, rfl⟩ := h
  exact valid_of_side hs _

/-! ## Calls about one space -/

theorem createSpace_agreesBut (hs : s.Valid) :
    AgreesBut name s (createSpace name createdAt s).2 := by
  rcases createSpace_cases (t := (createSpace name createdAt s).2) rfl with
    ⟨-, h⟩ | ⟨registry, hcreate, -, ⟨index, hindex, h⟩ | ⟨fault, -, h⟩⟩ <;> rw [h]
  · exact refl_of (AgreesBut name) s
  all_goals
    obtain ⟨hname, -, rfl⟩ := Registry.create_eq_ok.mp hcreate
  · exact ⟨MemoryIndex.agreesBut_of_create hindex, rfl,
      fun other ho => by rw [SortedMap.get?_insert, if_neg ho], fun _ _ => .rfl⟩
  · refine ⟨refl_of (IndexState.AgreesBut name) s.side, rfl,
      fun other ho => by rw [SortedMap.get?_insert, if_neg ho], fun e he => ?_⟩
    rw [hs.backlog.mem_pending_record (.whole hname)]
    constructor
    · rintro (rfl | ⟨hp, -⟩)
      · exact absurd rfl he
      · exact hp
    · exact fun hp => .inr ⟨hp, fun h => he h.1⟩

theorem contains_insert (r : Registry) (info : SpaceInfo) (store : Store) :
    (Registry.mk (r.spaces.insert name ⟨info, store⟩)).contains other = true ↔
      other = name ∨ r.contains other = true := by
  rw [Registry.contains, SortedMap.contains, SortedMap.get?_insert]
  split
  · exact iff_of_true rfl (.inl ‹_›)
  · next hne => exact ⟨.inr, fun h => h.resolve_left hne⟩

theorem createSpace_valid (hs : s.Valid) : (createSpace name createdAt s).2.Valid := by
  rcases createSpace_cases (t := (createSpace name createdAt s).2) rfl with
    ⟨-, h⟩ | ⟨registry, hcreate, -, ⟨index, -, h⟩ | ⟨fault, -, h⟩⟩ <;> rw [h]
  · exact hs
  all_goals
    obtain ⟨hname, -, rfl⟩ := Registry.create_eq_ok.mp hcreate
    have names : ∀ other, (Registry.mk (s.registry.spaces.insert name
        ⟨⟨name, createdAt⟩, {}⟩)).contains other = true → isSpaceName other = true :=
      fun other ho => ((contains_insert ..).mp ho).elim (fun h => h ▸ hname) (hs.name other)
  · exact ⟨names, hs.backlog, fun e he => (contains_insert ..).mpr (.inr (hs.contains e he))⟩
  · refine ⟨names, hs.backlog.record (.whole hname) _, fun e he => (contains_insert ..).mpr ?_⟩
    rcases (hs.backlog.mem_pending_record (.whole hname) _).mp he with rfl | ⟨he, -⟩
    · exact .inl rfl
    · exact .inr (hs.contains e he)

theorem dropSpace_agreesBut (hs : s.Valid) : AgreesBut name s (dropSpace name s).2 := by
  rcases dropSpace_cases (t := (dropSpace name s).2) rfl with ⟨-, h⟩ | ⟨registry, hremove, h⟩ <;>
    rw [h]
  · exact refl_of (AgreesBut name) s
  · obtain ⟨hname, -, rfl⟩ := Registry.remove_eq_ok.mp hremove
    refine ⟨IndexM.remove_keeps s.side, rfl,
      fun other ho => by rw [SortedMap.get?_erase, if_neg ho], fun e he => ?_⟩
    rw [hs.backlog.mem_pending_forget hname]
    exact and_iff_left he

theorem contains_erase (r : Registry) :
    (Registry.mk (r.spaces.erase name)).contains other = true ↔
      other ≠ name ∧ r.contains other = true := by
  rw [Registry.contains, SortedMap.contains, SortedMap.get?_erase]
  split
  · next he => exact iff_of_false (by simp) fun h => h.1 he
  · next hne => exact ⟨fun h => ⟨hne, h⟩, And.right⟩

theorem dropSpace_valid (hs : s.Valid) : (dropSpace name s).2.Valid := by
  rcases dropSpace_cases (t := (dropSpace name s).2) rfl with ⟨-, h⟩ | ⟨registry, hremove, h⟩ <;>
    rw [h]
  · exact hs
  · obtain ⟨hname, -, rfl⟩ := Registry.remove_eq_ok.mp hremove
    refine ⟨fun other ho => hs.name other ((contains_erase _).mp ho).2, hs.backlog.forget name,
      fun e he => (contains_erase _).mpr ?_⟩
    obtain ⟨he, hne⟩ := (hs.backlog.mem_pending_forget hname).mp he
    exact ⟨hne, hs.contains e he⟩

theorem rebuild_agreesBut (space : String) (graph : Option Term) (s : Service MemoryIndex) :
    AgreesBut space s (rebuild space graph s).2 := by
  rw [rebuild_run]
  split
  · exact agreesBut_of_side (Scope.rebuild_keeps s.side)
  · exact refl_of (AgreesBut space) s

theorem rebuild_valid (hs : s.Valid) (space : String) (graph : Option Term) :
    (rebuild space graph s).2.Valid := by
  rw [rebuild_run]
  split
  · exact valid_of_side hs _
  · exact hs

/-- The graphs of a batch that a store accepts are scopes. -/
theorem isScope_of_apply {b : Batch} {store store' : Store} {counts : Counts}
    (hname : isSpaceName b.space = true) (h : store.apply b = .ok (store', counts)) :
    ∀ g ∈ b.graphs.toList, Backlog.IsScope b.space (some g) := by
  intro g hg
  rw [SortedSet.mem_toList, Batch.graphs, SortedSet.mem_ofList] at hg
  obtain ⟨op, hop, rfl⟩ := List.mem_map.mp hg
  exact ⟨hname, ((Store.apply_eq_ok.mp h).1 op hop).isGraphScope⟩

theorem applyBatch_agreesBut (b : Batch) (validate : Bool) (hs : s.Valid) :
    AgreesBut b.space s (applyBatch b validate s).2 := by
  have hput : ∀ store other, other ≠ b.space →
      (s.registry.put b.space store).spaces.get? other = s.registry.spaces.get? other :=
    fun store other ho => by rw [Registry.get?_put, if_neg ho]
  rcases applyBatch_cases (t := (applyBatch b validate s).2) rfl with
    ⟨-, h⟩ | ⟨store, store', counts, hget, happly, ⟨side, hside, h⟩ | ⟨fault, side, hside, h⟩⟩
  · rw [h]
    exact refl_of (AgreesBut b.space) s
  all_goals
    have hkeeps : s.side.AgreesBut b.space side := by
      have := Scope.apply_keeps s.settings b s.side
      rwa [hside] at this
  · have hwritten : AgreesBut b.space s
        { s with registry := s.registry.put b.space store', side } :=
      ⟨hkeeps, rfl, hput store', fun _ _ => .rfl⟩
    exact trans_of (AgreesBut b.space) hwritten h.agreesBut
  · rw [h]
    obtain ⟨hname, -⟩ := Registry.get_eq_ok.mp hget
    refine ⟨hkeeps, rfl, hput store', fun e he => ?_⟩
    exact hs.backlog.mem_pending_recordAll_of_ne _ (isScope_of_apply hname happly) he

theorem applyBatch_valid (b : Batch) (validate : Bool) (hs : s.Valid) :
    (applyBatch b validate s).2.Valid := by
  have hput : ∀ store other, (s.registry.put b.space store).contains other = true →
      isSpaceName other = true := fun store other ho =>
    hs.name other (by rwa [Registry.contains_put] at ho)
  rcases applyBatch_cases (t := (applyBatch b validate s).2) rfl with
    ⟨-, h⟩ | ⟨store, store', counts, hget, happly, ⟨side, -, h⟩ | ⟨fault, side, -, h⟩⟩
  · rw [h]
    exact hs
  · refine h.valid ⟨hput store', hs.backlog, fun e he => ?_⟩
    rw [Registry.contains_put]
    exact hs.contains e he
  · rw [h]
    have hscope := isScope_of_apply (Registry.get_eq_ok.mp hget).1 happly
    refine ⟨hput store', hs.backlog.recordAll _ hscope, fun e he => ?_⟩
    rw [Registry.contains_put]
    rcases hs.backlog.mem_pending_recordAll _ hscope he with hspace | he
    · exact hspace ▸ Registry.contains_of_get hget
    · exact hs.contains e he

/-- The batch of a body is against the space that the body is for. -/
theorem space_of_batch {body : Body} {src : Source} {action : Action} {next next' : Nat} {b : Batch}
    (h : body.batch src space action next = .ok (b, next')) : b.space = space := by
  cases body with
  | document content graph =>
    obtain ⟨r, -, hr⟩ := bind_eq_ok.mp h
    obtain ⟨rfl, -⟩ := Prod.mk.inj (pure_eq_ok.mp hr)
    rfl
  | records content =>
    obtain ⟨r, -, hr⟩ := bind_eq_ok.mp h
    obtain ⟨rfl, -⟩ := Prod.mk.inj (pure_eq_ok.mp hr)
    rfl
  | update text =>
    obtain ⟨us, -, h⟩ := bind_eq_ok.mp h
    obtain ⟨r, -, hr⟩ := bind_eq_ok.mp h
    obtain ⟨rfl, -⟩ := Prod.mk.inj (pure_eq_ok.mp hr)
    rfl

theorem update_agreesBut {body : Body} {action : Action} {validate : Bool} (hs : s.Valid) :
    AgreesBut space s (update space body action validate s).2 := by
  rcases update_cases (t := (update space body action validate s).2) rfl with
    ⟨-, h⟩ | ⟨store, b, next, -, hb, h⟩
  · rw [h]
    exact refl_of (AgreesBut space) s
  · obtain rfl := space_of_batch hb
    have hnext : SameBut s { s with side := { s.side with next } } := ⟨next, rfl⟩
    have := applyBatch_agreesBut b validate (hnext.valid hs)
    rw [h] at this
    exact trans_of (AgreesBut b.space) hnext.agreesBut this

theorem update_valid {body : Body} {action : Action} {validate : Bool} (hs : s.Valid) :
    (update space body action validate s).2.Valid := by
  rcases update_cases (t := (update space body action validate s).2) rfl with
    ⟨-, h⟩ | ⟨store, b, next, -, -, h⟩
  · rw [h]
    exact hs
  · have hnext : SameBut s { s with side := { s.side with next } } := ⟨next, rfl⟩
    have := applyBatch_valid b validate (hnext.valid hs)
    rwa [h] at this

/-! ## Reconciling -/

theorem reconcileEntry_agreesBut {e : Entry} (hs : s.Valid)
    (he : Backlog.IsScope e.space e.graph) (sum : Summary) :
    AgreesBut e.space s (reconcileEntry sum e s).2 := by
  have hcomplete : ∀ s : Service MemoryIndex, s.Valid →
      AgreesBut e.space s { s with backlog := (s.backlog.complete e).2 } := fun s hs =>
    ⟨refl_of (IndexState.AgreesBut e.space) s.side, rfl, fun _ _ => rfl,
      fun e' he' => hs.backlog.mem_pending_complete he fun h => he' h.1⟩
  have hagrees := rebuild_agreesBut e.space e.graph s
  have hvalid := rebuild_valid hs e.space e.graph
  rw [reconcileEntry_run]
  split
  · generalize rebuild e.space e.graph s = r at hagrees hvalid ⊢
    obtain ⟨fault | n, s₁⟩ := r
    · exact hagrees
    · exact trans_of (AgreesBut e.space) hagrees (hcomplete s₁ hvalid)
  · exact hcomplete s hs

theorem reconcileEntry_valid (hs : s.Valid) (sum : Summary) (e : Entry) :
    (reconcileEntry sum e s).2.Valid := by
  have hcomplete : ∀ s : Service MemoryIndex, s.Valid →
      Valid { s with backlog := (s.backlog.complete e).2 } := fun s hs =>
    ⟨hs.name, hs.backlog.complete e,
      fun e' he' => hs.contains e' (Backlog.mem_pending_of_complete he')⟩
  have hvalid := rebuild_valid hs e.space e.graph
  rw [reconcileEntry_run]
  split
  · generalize rebuild e.space e.graph s = r at hvalid ⊢
    obtain ⟨fault | n, s₁⟩ := r
    · exact hvalid
    · exact hcomplete s₁ hvalid
  · exact hcomplete s hs

/-- Whatever the work on each entry preserves is preserved by a pass. -/
theorem reconcileEntries_induction {P : Service MemoryIndex → Prop} {entries : List Entry}
    (step : ∀ e ∈ entries, ∀ sum s, P s → P (reconcileEntry sum e s).2) {sum : Summary} (h : P s) :
    P (reconcileEntries sum entries s).2 := by
  induction entries generalizing s sum with
  | nil => exact h
  | cons e entries ih =>
    obtain ⟨sum', -, hrun⟩ := reconcileEntries_cons (s := s) sum e entries
    rw [hrun]
    exact ih (fun e he => step e (List.mem_cons_of_mem _ he)) (step e List.mem_cons_self sum s h)

/-! ## Single calls -/

/-- A call that is about no space works on entries of the backlog, or sets whether the index is
there. -/
theorem perform_induction {P : Service MemoryIndex → Prop} {c : Call} (hc : c.space? = none)
    (side : ∀ available, P (s.perform (.setAvailable available)))
    (step : ∀ e ∈ s.backlog.pending, ∀ sum t, P t → P (reconcileEntry sum e t).2) (h : P s) :
    P (s.perform c) := by
  cases c with
  | reconcilePending => exact reconcileEntries_induction step h
  | reconcileSpace space =>
    exact reconcileEntries_induction
      (fun e he => step e (Backlog.mem_pending_of_mem_pendingFor he)) h
  | setAvailable available => exact side available
  | createSpace | dropSpace | applyBatch | update | rebuild | check | sparqlQuery => cases hc

theorem registry_perform_of_unscoped {c : Call} (hc : c.space? = none) :
    (s.perform c).registry = s.registry :=
  perform_induction hc (P := (·.registry = s.registry)) (fun _ => rfl)
    (fun e _ sum t ht => (registry_reconcileEntry sum e t).trans ht) rfl

theorem perform_valid (hs : s.Valid) (c : Call) : (s.perform c).Valid := by
  cases c with
  | createSpace name createdAt => exact createSpace_valid hs
  | dropSpace name => exact dropSpace_valid hs
  | applyBatch b validate => exact applyBatch_valid b validate hs
  | update space body action validate => exact update_valid hs
  | rebuild space graph => exact rebuild_valid hs space graph
  | check space graph => exact (check_keeps s).valid hs
  | sparqlQuery space text => exact (sparqlQuery_keeps text s).valid hs
  | reconcilePending | reconcileSpace | setAvailable =>
    exact perform_induction rfl (fun _ => valid_of_side hs _)
      (fun e _ sum t ht => reconcileEntry_valid ht sum e) hs

/-- A call leaves the spaces alone that it is not about. -/
theorem perform_agreesBut (hs : s.Valid) {c : Call} (hc : c.space? = some name) :
    AgreesBut name s (s.perform c) := by
  cases c with
  | createSpace name createdAt => cases hc; exact createSpace_agreesBut hs
  | dropSpace name => cases hc; exact dropSpace_agreesBut hs
  | applyBatch b validate => cases hc; exact applyBatch_agreesBut b validate hs
  | update space body action validate => cases hc; exact update_agreesBut hs
  | rebuild space graph => cases hc; exact rebuild_agreesBut _ graph s
  | check space graph => cases hc; exact (check_keeps s).agreesBut
  | sparqlQuery space text => cases hc; exact (sparqlQuery_keeps text s).agreesBut
  | reconcilePending | reconcileSpace | setAvailable => cases hc

theorem run_valid (hs : s.Valid) (calls : List Call) : (s.run calls).Valid := by
  induction calls generalizing s with
  | nil => exact hs
  | cons c calls ih => exact ih (perform_valid hs c)

end Service
end DualStore
