import DualStore.Proofs.Coverage
import DualStore.Proofs.Lockstep

/-! What a space can tell of the service: its store, its dataset, the scopes of it that are
recorded, and whether the index is on. Calls about a space go by that alone (`Service.Alike`), and
calls about other spaces change nothing of it (`Service.AgreesBut.alike`). -/

namespace DualStore

/-! ## Recorded scopes -/

/-- The entry but for its generation. -/
def Entry.undated (e : Entry) : Entry := { e with generation := 0 }

theorem Entry.scope_of_undated {e e' : Entry} (h : e.undated = e'.undated) :
    e.space = e'.space ∧ e.graph = e'.graph :=
  ⟨(Entry.mk.inj h).1, (Entry.mk.inj h).2.1⟩

namespace Backlog

variable {b b' : Backlog} {e : Entry} {space name reason k : String} {graph : Option Term}

/-- The key of a scope contains one zero character. So it starts with a name and this character for
the name of its space only, even if the name is none that a space may have. -/
theorem IsScope.isKeyOf_iff (h : IsScope space graph) (name : String) :
    isKeyOf name (Backlog.key space graph) = true ↔ space = name := by
  refine ⟨fun hkey => ?_, fun hname => hname ▸ isKeyOf_self space graph⟩
  have hspace := zero_notMem_of_isSpaceName h.name
  have hgraph : '\x00' ∉ (graphKey graph).toList := by
    cases graph with
    | none => exact List.not_mem_nil
    | some g =>
      obtain ⟨iri, rfl, hiri⟩ := h.graph g rfl
      intro hmem
      exact absurd (Term.isForbidden_of_checkIri hiri _ hmem) (by decide)
  have hname : '\x00' ∉ name.toList := by
    rw [isKeyOf, List.isPrefixOf_iff_prefix, toList_key, toList_spacePrefix] at hkey
    have hcount := (hkey.sublist.count_le '\x00')
    rw [List.count_append, List.count_append, List.count_singleton_self, List.count_cons_self,
      List.count_eq_zero.mpr hspace, List.count_eq_zero.mpr hgraph] at hcount
    exact List.count_eq_zero.mp (by omega)
  exact (isKeyOf_iff_of_notMem hspace hname).mp hkey

/-- The entries of a space, but for their generations. -/
def waiting (b : Backlog) (name : String) : SortedMap String Entry :=
  (b.entries.filter fun k _ => isKeyOf name k).map Entry.undated

theorem get?_waiting : (b.waiting name).get? k =
    if isKeyOf name k then (b.entries.get? k).map Entry.undated else none := by
  rw [waiting, SortedMap.get?_map, SortedMap.get?_filter]
  cases isKeyOf name k <;> cases b.entries.get? k <;> rfl

/-- The entries of a space are listed in the order of their keys. -/
theorem values_waiting :
    (b.waiting name).values = (b.pendingFor name).map Entry.undated := by
  rw [waiting, pendingFor, SortedMap.values, SortedMap.values, SortedMap.map, List.map_map,
    List.map_map]
  rfl

theorem Valid.filter_pending (h : b.Valid) (name : String) :
    b.pending.filter (·.space = name) = b.pendingFor name := by
  rw [pending, pendingFor, SortedMap.values, SortedMap.values, SortedMap.filter, List.filter_map]
  refine congrArg (List.map _) (List.filter_congr fun r hr => ?_)
  have hget := SortedMap.get?_eq_some_iff.mpr hr
  rw [Bool.eq_iff_iff, Function.comp_apply, decide_eq_true_eq, h.key r.1 r.2 hget]
  exact ((h.scope r.1 r.2 hget).isKeyOf_iff name).symm

theorem waiting_record (b : Backlog) (name : String) (graph : Option Term) (reason : String) :
    (b.record name graph reason).2.waiting name =
      (b.waiting name).insert (key name graph) ⟨name, graph, reason, 0⟩ := by
  refine SortedMap.ext fun k => ?_
  rw [get?_waiting, SortedMap.get?_insert, get?_waiting, Backlog.record, SortedMap.get?_insert]
  by_cases hk : k = key name graph
  · rw [if_pos hk, if_pos hk, hk, isKeyOf_self, if_pos rfl]
    rfl
  · rw [if_neg hk, if_neg hk]

theorem waiting_recordAll (h : b.waiting name = b'.waiting name) (reason : String)
    (graphs : List Term) :
    (b.recordAll name reason graphs).waiting name =
      (b'.recordAll name reason graphs).waiting name := by
  induction graphs generalizing b b' with
  | nil => exact h
  | cons g graphs ih => exact ih (by rw [waiting_record, waiting_record, h])

theorem waiting_forget (b : Backlog) (name : String) : (b.forget name).waiting name = ∅ := by
  refine SortedMap.ext fun k => ?_
  rw [get?_waiting, get?_forget]
  cases isKeyOf name k <;> rfl

theorem Valid.waiting_complete (h : b.Valid) (he : e ∈ b.pending) :
    (b.complete e).2.waiting name = (b.waiting name).erase (Backlog.key e.space e.graph) := by
  refine SortedMap.ext fun k => ?_
  rw [get?_waiting, SortedMap.get?_erase, get?_waiting, h.complete_eq he, get?_removeAll]
  simp only [List.mem_singleton]
  split <;> split <;> rfl

/-- The entries under the keys of a space are those that are recorded of it. -/
theorem Valid.get?_of_isKeyOf (h : b.Valid) (hk : isKeyOf name k = true) :
    b.entries.get? k = some e ↔
      (e.space = name ∧ k = Backlog.key e.space e.graph) ∧ e ∈ b.pending := by
  constructor
  · intro hget
    obtain rfl := h.key k e hget
    exact ⟨⟨((h.scope _ e hget).isKeyOf_iff name).mp hk, rfl⟩, h.mem_pending.mpr hget⟩
  · rintro ⟨⟨-, rfl⟩, he⟩
    exact h.mem_pending.mp he

/-- What is recorded of other spaces does not show. -/
theorem Valid.waiting_congr (h : b.Valid) (h' : b'.Valid)
    (hpending : ∀ e, e.space = name → (e ∈ b'.pending ↔ e ∈ b.pending)) :
    b'.waiting name = b.waiting name := by
  refine SortedMap.ext fun k => ?_
  rw [get?_waiting, get?_waiting]
  by_cases hk : isKeyOf name k = true
  · rw [if_pos hk, if_pos hk]
    congr 1
    ext e
    rw [h'.get?_of_isKeyOf hk, h.get?_of_isKeyOf hk]
    exact and_congr_right fun he => hpending e he.1
  · rw [if_neg hk, if_neg hk]

end Backlog

/-! ## Calls to the registry -/

namespace Registry

variable {r r' : Registry} {name : String}

theorem get_congr (h : r.spaces.get? name = r'.spaces.get? name) : r.get name = r'.get name := by
  rw [get, find, h, get, find]

theorem info_congr (h : r.spaces.get? name = r'.spaces.get? name) : r.info name = r'.info name := by
  rw [info, find, h, info, find]

theorem contains_congr (h : r.spaces.get? name = r'.spaces.get? name) :
    r.contains name = r'.contains name := by
  rw [contains, SortedMap.contains, h, contains, SortedMap.contains]

theorem put_congr (h : r.spaces.get? name = r'.spaces.get? name) (store : Store) :
    (r.put name store).spaces.get? name = (r'.put name store).spaces.get? name := by
  rw [get?_put, get?_put, if_pos rfl, if_pos rfl, h]

theorem create_congr (h : r.spaces.get? name = r'.spaces.get? name) (createdAt : String) :
    (∃ e, r.create name createdAt = .error e ∧ r'.create name createdAt = .error e) ∨
    ∃ u u', r.create name createdAt = .ok u ∧ r'.create name createdAt = .ok u' ∧
      u.spaces.get? name = u'.spaces.get? name := by
  rw [create, create, contains_congr h]
  cases checkName name with
  | error e => exact .inl ⟨e, rfl, rfl⟩
  | ok =>
    cases r'.contains name with
    | true => exact .inl ⟨_, rfl, rfl⟩
    | false =>
      refine .inr ⟨_, _, rfl, rfl, ?_⟩
      rw [SortedMap.get?_insert, SortedMap.get?_insert, if_pos rfl, if_pos rfl]

theorem remove_congr (h : r.spaces.get? name = r'.spaces.get? name) :
    (∃ e, r.remove name = .error e ∧ r'.remove name = .error e) ∨
    ∃ u u', r.remove name = .ok u ∧ r'.remove name = .ok u' ∧
      u.spaces.get? name = u'.spaces.get? name := by
  have hfind : r.find name = r'.find name := by rw [find, h, find]
  rw [remove, remove, hfind]
  cases checkName name with
  | error e => exact .inl ⟨e, rfl, rfl⟩
  | ok =>
    cases r'.find name with
    | error e => exact .inl ⟨e, rfl, rfl⟩
    | ok space =>
      refine .inr ⟨_, _, rfl, rfl, ?_⟩
      rw [SortedMap.get?_erase, SortedMap.get?_erase, if_pos rfl, if_pos rfl]

end Registry

/-! ## Calls about the space -/

namespace Service

variable {N : Nat → Nat → Prop} {name : String} {s t u : Service MemoryIndex}

/-- What a space can tell of the service is the same, and the numbers of the next new blank nodes
are related by `N`. -/
structure Alike (N : Nat → Nat → Prop) (name : String) (s t : Service MemoryIndex) : Prop where
  settings : s.settings = t.settings
  side : s.side.Alike N name t.side
  space : s.registry.spaces.get? name = t.registry.spaces.get? name
  waiting : s.backlog.waiting name = t.backlog.waiting name

variable {α β : Type} {createdAt : String} {graph : Option Term}

theorem liftExcept_respects (r : Except Error α) :
    Respects (Alike N name) (liftExcept (ι := MemoryIndex) r) := fun _ _ h => ⟨rfl, h⟩

theorem liftCheck_respects {act : CheckM MemoryIndex α}
    (h : Respects (IndexState.Alike N name) act) : Respects (Alike N name) (liftCheck act) := by
  intro s t hst
  obtain ⟨hr, hside⟩ := h s.side t.side hst.side
  exact ⟨hr, { hst with side := hside }⟩

theorem tryIndex_respects {act : IndexM MemoryIndex α}
    (h : Respects (IndexState.Alike N name) act) : Respects (Alike N name) (tryIndex act) := by
  intro s t hst
  obtain ⟨hr, hside⟩ := h s.side t.side hst.side
  exact ⟨congrArg Except.ok hr, { hst with side := hside }⟩

theorem store_respects : Respects (Alike N name) (store (ι := MemoryIndex) name) := fun _ _ h =>
  ⟨Registry.get_congr h.space, h⟩

theorem recordAll_respects (reason : String) (graphs : List Term) :
    Respects (Alike N name) (recordAll (ι := MemoryIndex) name reason graphs) := by
  intro s t h
  rw [recordAll_run, recordAll_run]
  exact ⟨rfl, { h with waiting := Backlog.waiting_recordAll h.waiting reason graphs }⟩

theorem createSpace_respects :
    Respects (Alike N name) (createSpace (ι := MemoryIndex) name createdAt) := by
  intro s t h
  simp only [createSpace, bind_run, get_run, liftExcept_run, setRegistry_run, tryIndex_run]
  rcases Registry.create_congr h.space createdAt with ⟨e, hs, ht⟩ | ⟨r, r', hs, ht, hspace⟩ <;>
    simp only [hs, ht]
  · exact ⟨trivial, h⟩
  obtain ⟨hindex, hside⟩ := IndexM.create_respects s.side t.side h.side
  rw [hindex]
  cases (IndexM.create name t.side).1 with
  | ok => exact ⟨Registry.info_congr hspace, h.settings, hside, hspace, h.waiting⟩
  | error fault =>
    refine ⟨Registry.info_congr hspace, h.settings, hside, hspace, ?_⟩
    exact (Backlog.waiting_record ..).trans (h.waiting ▸ (Backlog.waiting_record ..).symm)

theorem dropSpace_respects : Respects (Alike N name) (dropSpace (ι := MemoryIndex) name) := by
  intro s t h
  simp only [dropSpace, bind_run, get_run, liftExcept_run, setRegistry_run, modify_run,
    liftCheck_run, CheckM.writing, adapt_run]
  rcases Registry.remove_congr h.space with ⟨e, hs, ht⟩ | ⟨r, r', hs, ht, hspace⟩ <;>
    simp only [hs, ht]
  · exact ⟨trivial, h⟩
  obtain ⟨hindex, hside⟩ := IndexM.remove_respects s.side t.side h.side
  rw [hindex]
  exact ⟨rfl, h.settings, hside, hspace, by rw [Backlog.waiting_forget, Backlog.waiting_forget]⟩

theorem check_respects : Respects (Alike Eq name) (check (ι := MemoryIndex) name graph) :=
  store_respects.bind fun _ => .get_bind (fun _ _ h => by rw [h.settings]) fun _ =>
    liftCheck_respects Scope.check_respects

theorem rebuild_respects : Respects (Alike Eq name) (rebuild (ι := MemoryIndex) name graph) :=
  store_respects.bind fun _ => .get_bind (fun _ _ h => by rw [h.settings]) fun _ =>
    liftCheck_respects Scope.rebuild_respects

theorem sparqlQuery_respects (text : String) :
    Respects (Alike Eq name) (sparqlQuery (ι := MemoryIndex) name text) := by
  refine Respects.bind (liftExcept_respects _) fun _ => .get_bind
    (fun _ _ h => by rw [Registry.contains_congr h.space]) fun s => ?_
  have hquery : Respects (Alike Eq name)
      (liftCheck (CheckM.querying (IndexM.query (ι := MemoryIndex) name text))) :=
    liftCheck_respects ((IndexM.query_respects text).adapt _)
  cases s.registry.contains name with
  | true => exact hquery.bind fun _ => .pure _
  | false => exact Respects.bind (.throw _) fun _ => hquery.bind fun _ => .pure _

theorem checkGraphs_respects (graphs : List Term) :
    Respects (Alike Eq name) (checkGraphs (ι := MemoryIndex) name graphs) := by
  induction graphs with
  | nil => exact .pure []
  | cons graph graphs ih =>
    exact (Respects.tryCatch (check_respects.bind fun _ => .pure _) fun _ => .pure _).bind fun _ =>
      ih.bind fun _ => .pure _

theorem commit_respects (b : Batch) : Respects (Alike N b.space) (commit (ι := MemoryIndex) b) := by
  intro s t h
  rw [commit_run, commit_run, Registry.get_congr h.space]
  split
  · exact ⟨rfl, h⟩
  split
  · exact ⟨rfl, h⟩
  · exact ⟨rfl, { h with space := Registry.put_congr h.space _ }⟩

theorem applyBatch_respects (b : Batch) (validate : Bool) :
    Respects (Alike Eq b.space) (applyBatch (ι := MemoryIndex) b validate) := by
  refine (commit_respects b).bind fun counts => .get_bind (fun _ _ h => by rw [h.settings]) fun s =>
    (tryIndex_respects (Scope.apply_respects s.settings b)).bind fun r => ?_
  cases r with
  | error fault => exact (recordAll_respects _ _).bind fun _ => .pure _
  | ok =>
    dsimp only
    split
    · exact (checkGraphs_respects _).bind fun _ => .pure _
    · exact .pure _

theorem batchFor_respects (body : Body) (action : Action) :
    Respects (Alike Eq name) (batchFor (ι := MemoryIndex) name body action) := by
  intro s t h
  rw [batchFor_run, batchFor_run, Registry.get_congr h.space, h.side.next]
  split
  · exact ⟨rfl, h⟩
  split
  · exact ⟨rfl, h⟩
  · exact ⟨rfl, { h with side := ⟨h.side.index, rfl⟩ }⟩

theorem update_respects (body : Body) (action : Action) (validate : Bool) :
    Respects (Alike Eq name) (update (ι := MemoryIndex) name body action validate) := by
  refine (batchFor_respects body action).bind_of (P := fun b => b.space = name)
    (fun s b t h => ?_) fun b hb => hb ▸ applyBatch_respects b validate
  obtain ⟨store, next, -, hbatch, -⟩ := batchFor_ok.mp h
  exact space_of_batch hbatch

/-! ## Calls about other spaces -/

open IndexState (Any)

theorem Alike.refl (name : String) (s : Service MemoryIndex) : s.Alike Any name s :=
  ⟨rfl, ⟨.refl name s.side.index, trivial⟩, rfl, rfl⟩

theorem Alike.any (h : s.Alike N name t) : s.Alike Any name t :=
  ⟨h.settings, h.side.any, h.space, h.waiting⟩

theorem Alike.symm (h : s.Alike Any name t) : t.Alike Any name s :=
  ⟨h.settings.symm, h.side.symm, h.space.symm, h.waiting.symm⟩

theorem Alike.trans (h : s.Alike Any name t) (h' : t.Alike Any name u) : s.Alike Any name u :=
  ⟨h.settings.trans h'.settings, h.side.trans h'.side, h.space.trans h'.space,
    h.waiting.trans h'.waiting⟩

theorem SameBut.alike (h : SameBut s t) : t.Alike Any name s := by
  obtain ⟨next, rfl⟩ := h
  exact ⟨rfl, ⟨.refl name s.side.index, trivial⟩, rfl, rfl⟩

/-- What was done about another space does not show. -/
theorem AgreesBut.alike {other : String} (h : AgreesBut other s t) (hs : s.Valid) (ht : t.Valid)
    (hne : name ≠ other) : t.Alike Any name s :=
  ⟨h.settings, ⟨h.index.alike hne, trivial⟩, h.space name hne,
    hs.backlog.waiting_congr ht.backlog fun e he => h.pending e (he ▸ hne)⟩

end Service
end DualStore
