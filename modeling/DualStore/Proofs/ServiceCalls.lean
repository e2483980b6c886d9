import DualStore.Proofs.Backlogs
import DualStore.Proofs.IndexCalls
import DualStore.Proofs.Registries
import DualStore.Service.Apply

/-! What each call of the service can do, with the index in memory. Every later fact about calls
rests on these cases. -/

namespace DualStore
namespace Service

variable {s s' t : Service MemoryIndex} {space name createdAt : String} {graph : Option Term}

/-! ## Spaces -/

/-- A space is refused, or else it is there and empty. Its dataset is made, or the whole space is
recorded. -/
theorem createSpace_cases {r : Except Error SpaceInfo}
    (h : createSpace name createdAt s = (r, t)) :
    ((∃ e, r = .error e) ∧ t = s) ∨
    ∃ registry, s.registry.create name createdAt = .ok registry ∧ (∃ info, r = .ok info) ∧
      ((∃ index, MemoryIndex.create name s.side.index = .ok index ∧
          t = { s with registry, side := { s.side with index } }) ∨
        ∃ fault, MemoryIndex.create name s.side.index = .error fault ∧
          t = { s with
            registry, backlog := (s.backlog.record name none fault.message).2 }) := by
  simp only [createSpace, bind_run, get_run, liftExcept_run, setRegistry_run, tryIndex_run] at h
  cases hcreate : s.registry.create name createdAt with
  | error e =>
    simp only [hcreate] at h
    obtain ⟨rfl, rfl⟩ := Prod.mk.inj h
    exact .inl ⟨⟨e, rfl⟩, rfl⟩
  | ok registry =>
    have hinfo : ∃ info, registry.info name = .ok info := by
      obtain ⟨-, -, rfl⟩ := Registry.create_eq_ok.mp hcreate
      refine ⟨_, map_eq_ok.mpr ⟨⟨⟨name, createdAt⟩, {}⟩, Registry.find_eq_ok.mpr ?_, rfl⟩⟩
      rw [SortedMap.get?_insert, if_pos rfl]
    refine .inr ⟨registry, rfl, ?_⟩
    simp only [hcreate, IndexM.create] at h
    cases hindex : MemoryIndex.create name s.side.index with
    | ok index =>
      simp only [TripleIndex.create, hindex] at h
      obtain ⟨rfl, rfl⟩ := Prod.mk.inj h
      exact ⟨hinfo, .inl ⟨index, rfl, rfl⟩⟩
    | error fault =>
      simp only [TripleIndex.create, hindex, bind_run, record_run] at h
      obtain ⟨rfl, rfl⟩ := Prod.mk.inj h
      exact ⟨hinfo, .inr ⟨fault, rfl, rfl⟩⟩

/-- A space that is there is removed, with what is recorded of it, whether or not its dataset can be
removed as well. -/
theorem dropSpace_cases {r : Except Error Unit} (h : dropSpace name s = (r, t)) :
    ((∃ e, r = .error e) ∧ t = s) ∨
    ∃ registry, s.registry.remove name = .ok registry ∧
      t = { s with
        registry, backlog := s.backlog.forget name, side := (IndexM.remove name s.side).2 } := by
  simp only [dropSpace, bind_run, get_run, liftExcept_run, setRegistry_run, modify_run,
    liftCheck_run, CheckM.writing, adapt_run] at h
  cases hremove : s.registry.remove name with
  | error e =>
    simp only [hremove] at h
    obtain ⟨rfl, rfl⟩ := Prod.mk.inj h
    exact .inl ⟨⟨e, rfl⟩, rfl⟩
  | ok registry =>
    simp only [hremove] at h
    obtain ⟨-, rfl⟩ := Prod.mk.inj h
    exact .inr ⟨registry, rfl, rfl⟩

/-! ## Reading and rebuilding -/

theorem rebuild_run {ι : Type} [TripleIndex ι] {s : Service ι} :
    rebuild space graph s = match s.registry.get space with
    | .ok store => ((Scope.rebuild s.settings space store graph s.side).1,
        { s with side := (Scope.rebuild s.settings space store graph s.side).2 })
    | .error e => (.error e, s) := by
  simp only [rebuild, bind_run, store_run, get_run, liftCheck_run]
  cases s.registry.get space <;> rfl

theorem registry_rebuild {ι : Type} [TripleIndex ι] (space : String) (graph : Option Term)
    (s : Service ι) :
    (rebuild space graph s).2.registry = s.registry := by
  rw [rebuild_run]
  split <;> rfl

theorem backlog_rebuild {ι : Type} [TripleIndex ι] (space : String) (graph : Option Term)
    (s : Service ι) :
    (rebuild space graph s).2.backlog = s.backlog := by
  rw [rebuild_run]
  split <;> rfl

theorem check_run {ι : Type} [TripleIndex ι] {s : Service ι} :
    check space graph s = match s.registry.get space with
    | .ok store => ((Scope.check s.settings space store graph s.side).1,
        { s with side := (Scope.check s.settings space store graph s.side).2 })
    | .error e => (.error e, s) := by
  simp only [check, bind_run, store_run, get_run, liftCheck_run]
  cases s.registry.get space <;> rfl

/-- Only the numbers of new blank nodes differ. -/
def SameBut (s s' : Service MemoryIndex) : Prop :=
  ∃ next, s' = { s with side := { s.side with next } }

instance : IsPreorder (Service MemoryIndex) SameBut where
  refl s := ⟨s.side.next, rfl⟩
  trans _ _ _ := fun ⟨_, h⟩ ⟨next, h'⟩ => ⟨next, by rw [h', h]⟩

theorem liftCheck_keeps {α : Type} {act : CheckM MemoryIndex α}
    (h : Keeps IndexState.SameIndex act) : Keeps SameBut (liftCheck act) := by
  intro s
  have hindex : (act s.side).2.index = s.side.index := h s.side
  exact ⟨(act s.side).2.next,
    congrArg (fun index => { s with side := ⟨index, (act s.side).2.next⟩ }) hindex⟩

theorem check_keeps : Keeps SameBut (check (ι := MemoryIndex) space graph) := by
  intro s
  rw [check_run]
  split
  · exact liftCheck_keeps Scope.check_keeps s
  · exact refl_of SameBut s

theorem checkGraphs_keeps (graphs : List Term) :
    Keeps SameBut (checkGraphs (ι := MemoryIndex) space graphs) := by
  induction graphs with
  | nil => exact .pure []
  | cons graph graphs ih =>
    exact (Keeps.tryCatch (check_keeps.bind fun _ => .pure _) fun _ => .pure _).bind fun _ =>
      ih.bind fun _ => .pure _

theorem sparqlQuery_keeps (text : String) :
    Keeps SameBut (sparqlQuery (ι := MemoryIndex) space text) := by
  refine Keeps.bind (fun s => refl_of SameBut s) fun _ => Keeps.get.bind fun s => ?_
  have hquery : Keeps SameBut
      (liftCheck (CheckM.querying (IndexM.query (ι := MemoryIndex) space text))) :=
    liftCheck_keeps (IndexM.query_keeps.adapt _)
  cases s.registry.contains space with
  | true => exact hquery.bind fun _ => .pure _
  | false => exact Keeps.bind (.throw _) fun _ => hquery.bind fun _ => .pure _

/-! ## Applying -/

section
variable {ι : Type} {s : Service ι} {b : Batch} {validate : Bool} {store store' : Store}
  {counts : Counts}

theorem recordAll_run (reason : String) (graphs : List Term) : recordAll space reason graphs s =
    (.ok (), { s with backlog := s.backlog.recordAll space reason graphs }) := by
  induction graphs generalizing s with
  | nil => rfl
  | cons graph graphs ih =>
    rw [recordAll, bind_run, record_run]
    exact ih

theorem commit_run : commit b s = match s.registry.get b.space with
    | .error e => (.error e, s)
    | .ok store => match store.apply b with
      | .error fault => (.error (.validation (.quad fault)), s)
      | .ok (store', counts) =>
        (.ok counts, { s with registry := s.registry.put b.space store' }) := by
  simp only [commit, bind_run, store_run, get_run, liftInvalid, liftExcept_run, setRegistry_run,
    pure_run]
  cases s.registry.get b.space with
  | error e => rfl
  | ok store =>
    dsimp only
    cases store.apply b <;> rfl

variable [TripleIndex ι]

/-- What the checks of graphs come to, one after the other, and the service after them. -/
def checkEach (space : String) : List Term → Service ι → List (Except Error Report) × Service ι
  | [], s => ([], s)
  | graph :: graphs, s =>
    let (r, s₁) := check space (some graph) s
    let (rs, s₂) := checkEach space graphs s₁
    (r :: rs, s₂)

theorem checkEach_cons (graph : Term) (graphs : List Term) :
    (checkEach space (graph :: graphs) s).1 = (check space (some graph) s).1 ::
      (checkEach space graphs (check space (some graph) s).2).1 := rfl

/-- The reports are those of the checks that come to one. -/
theorem checkGraphs_run (graphs : List Term) : checkGraphs space graphs s =
    (.ok ((checkEach space graphs s).1.filterMap Except.toOption),
      (checkEach space graphs s).2) := by
  induction graphs generalizing s with
  | nil => rfl
  | cons graph graphs ih =>
    simp only [checkGraphs, checkEach, bind_run, tryCatch_run]
    rcases check space (some graph) s with ⟨e | report, s₁⟩
    all_goals
      simp only [pure_run, ih]
      rfl

/-- A batch that its store does not take is refused. -/
theorem applyBatch_refused {e : Error} (h : commit b s = (.error e, s)) :
    applyBatch b validate s = (.error e, s) := by
  rw [applyBatch, bind_run, h]

/-- A batch is refused for want of its space or because of a quad that may not be stored, or else
its store takes it. -/
theorem applyBatch_refused_or (b : Batch) (validate : Bool) (s : Service ι) :
    (∃ e, applyBatch b validate s = (.error e, s) ∧
      ∀ store, s.registry.get b.space = .ok store → ∃ op ∈ b.ops, ¬ op.quad.Storable) ∨
    ∃ store store' counts, s.registry.get b.space = .ok store ∧
      store.apply b = .ok (store', counts) := by
  have hcommit := commit_run (s := s) (b := b)
  split at hcommit
  next e hget =>
    refine .inl ⟨e, applyBatch_refused hcommit, fun store hstore => ?_⟩
    rw [hget] at hstore
    cases hstore
  next store hget =>
    split at hcommit
    next fault happly =>
      refine .inl ⟨_, applyBatch_refused hcommit, fun store' hstore => ?_⟩
      rw [hget] at hstore
      obtain rfl := Except.ok.inj hstore
      by_contra! hstorable
      rw [Store.apply_eq_ok.mpr ⟨hstorable, rfl⟩] at happly
      cases happly
    next store' counts happly => exact .inr ⟨store, store', counts, hget, happly⟩

/-- A batch that its store takes is applied to the index as well, or its graphs are recorded. -/
theorem applyBatch_run (validate : Bool) (hget : s.registry.get b.space = .ok store)
    (happly : store.apply b = .ok (store', counts)) : applyBatch b validate s =
      match Scope.apply s.settings b s.side with
      | (.error fault, side) =>
        (.ok { status := .pending, counts, indexFault := some fault },
          { s with
            registry := s.registry.put b.space store', side,
            backlog := s.backlog.recordAll b.space fault.message b.graphs.toList })
      | (.ok (), side) =>
        let u : Service ι := { s with registry := s.registry.put b.space store', side }
        if validate || s.settings.validateWrites then
          let checks := checkEach b.space b.graphs.toList u
          let reports := checks.1.filterMap Except.toOption
          let status := if reports.all (·.isConsistent) then .validated else .applied
          (.ok { status, counts, reports }, checks.2)
        else (.ok { status := .applied, counts }, u) := by
  have hcommit : commit b s =
      (.ok counts, { s with registry := s.registry.put b.space store' }) := by
    simp only [commit_run, hget, happly]
  simp only [applyBatch, bind_run, hcommit, get_run, tryIndex_run]
  rcases Scope.apply s.settings b s.side with ⟨fault | ⟨⟩, side⟩
  · simp only [bind_run, recordAll_run, pure_run]
  · dsimp only
    split
    · simp only [bind_run, checkGraphs_run, pure_run]
    · rfl

end

/-- Checks change nothing but the numbers of new blank nodes. -/
theorem checkEach_sameBut (graphs : List Term) (s : Service MemoryIndex) :
    SameBut s (checkEach space graphs s).2 := by
  have hkeeps : SameBut s (checkGraphs space graphs s).2 := checkGraphs_keeps graphs s
  rwa [checkGraphs_run] at hkeeps

/-- A batch is refused, or else it is committed and then applied to the index or recorded. -/
theorem applyBatch_cases {b : Batch} {validate : Bool} {r : Except Error Outcome}
    (h : applyBatch b validate s = (r, t)) :
    ((∃ e, r = .error e) ∧ t = s) ∨
    ∃ store store' counts, s.registry.get b.space = .ok store ∧
      store.apply b = .ok (store', counts) ∧
      ((∃ side, Scope.apply s.settings b s.side = (.ok (), side) ∧
          SameBut { s with registry := s.registry.put b.space store', side } t) ∨
        ∃ fault side, Scope.apply s.settings b s.side = (.error fault, side) ∧
          t = { s with
            registry := s.registry.put b.space store', side,
            backlog := s.backlog.recordAll b.space fault.message b.graphs.toList }) := by
  rcases applyBatch_refused_or b validate s with
    ⟨e, hrun, -⟩ | ⟨store, store', counts, hget, happly⟩
  · rw [hrun] at h
    obtain ⟨rfl, rfl⟩ := Prod.mk.inj h
    exact .inl ⟨⟨e, rfl⟩, rfl⟩
  refine .inr ⟨store, store', counts, hget, happly, ?_⟩
  rw [applyBatch_run validate hget happly] at h
  rcases hindex : Scope.apply s.settings b s.side with ⟨fault | ⟨⟩, side⟩
  · simp only [hindex] at h
    exact .inr ⟨fault, side, rfl, (Prod.mk.inj h).2.symm⟩
  · refine .inl ⟨side, rfl, ?_⟩
    simp only [hindex] at h
    split at h
    · rw [← (Prod.mk.inj h).2]
      exact checkEach_sameBut _ _
    · rw [← (Prod.mk.inj h).2]
      exact refl_of SameBut _

/-- A batch that was applied was taken by its store. -/
theorem applyBatch_ok {b : Batch} {validate : Bool} {o : Outcome}
    (h : applyBatch b validate s = (.ok o, t)) : ∃ store store' counts,
      s.registry.get b.space = .ok store ∧ store.apply b = .ok (store', counts) ∧
        t.registry = s.registry.put b.space store' := by
  rcases applyBatch_cases h with ⟨⟨e, he⟩, -⟩ | ⟨store, store', counts, hget, happly, hrun⟩
  · cases he
  · refine ⟨store, store', counts, hget, happly, ?_⟩
    rcases hrun with ⟨side, -, next, rfl⟩ | ⟨fault, side, -, rfl⟩ <;> rfl

/-- A batch that its store takes is applied, whatever becomes of the index. -/
theorem applyBatch_of_apply {b : Batch} {store store' : Store} {counts : Counts} (validate : Bool)
    (hget : s.registry.get b.space = .ok store) (happly : store.apply b = .ok (store', counts)) :
    ∃ o t, applyBatch b validate s = (.ok o, t) ∧
      t.registry = s.registry.put b.space store' := by
  have hok : ∃ o t, applyBatch b validate s = (.ok o, t) := by
    rw [applyBatch_run validate hget happly]
    rcases Scope.apply s.settings b s.side with ⟨fault | ⟨⟩, side⟩
    · exact ⟨_, _, rfl⟩
    · dsimp only
      split <;> exact ⟨_, _, rfl⟩
  obtain ⟨o, t, hrun⟩ := hok
  obtain ⟨_, _, _, hget', happly', hregistry⟩ := applyBatch_ok hrun
  rw [hget] at hget'
  cases hget'
  rw [happly] at happly'
  cases happly'
  exact ⟨o, t, hrun, hregistry⟩

/-- A body that is refused uses up no numbers. -/
theorem batchFor_run {body : Body} {action : Action} : batchFor space body action s =
    match s.registry.get space with
    | .error e => (.error e, s)
    | .ok store => match body.batch store.source space action s.side.next with
      | .error fault => (.error (.validation fault), s)
      | .ok (b, next) => (.ok b, { s with side := { s.side with next } }) := by
  simp only [batchFor, bind_run, store_run, get_run, liftInvalid, liftExcept_run, setNext,
    modify_run, pure_run]
  cases s.registry.get space with
  | error e => rfl
  | ok store =>
    dsimp only
    cases body.batch store.source space action s.side.next <;> rfl

theorem batchFor_ok {body : Body} {action : Action} {b : Batch} :
    batchFor space body action s = (.ok b, t) ↔ ∃ store next, s.registry.get space = .ok store ∧
      body.batch store.source space action s.side.next = .ok (b, next) ∧
        t = { s with side := { s.side with next } } := by
  constructor
  · intro h
    rw [batchFor_run] at h
    split at h
    next => cases (Prod.mk.inj h).1
    next store hget =>
      split at h
      next => cases (Prod.mk.inj h).1
      next b' next hbatch =>
        cases h
        exact ⟨store, next, hget, hbatch, rfl⟩
  · rintro ⟨store, next, hget, hbatch, rfl⟩
    simp only [batchFor_run, hget, hbatch]

/-- A body is refused, or else the batch that it stands for is applied. -/
theorem update_cases {body : Body} {action : Action} {validate : Bool} {r : Except Error Outcome}
    (h : update space body action validate s = (r, t)) :
    ((∃ e, r = .error e) ∧ t = s) ∨
    ∃ store b next, s.registry.get space = .ok store ∧
      body.batch store.source space action s.side.next = .ok (b, next) ∧
      applyBatch b validate { s with side := { s.side with next } } = (r, t) := by
  simp only [update, bind_run, batchFor_run] at h
  cases hget : s.registry.get space with
  | error e =>
    simp only [hget] at h
    obtain ⟨rfl, rfl⟩ := Prod.mk.inj h
    exact .inl ⟨⟨e, rfl⟩, rfl⟩
  | ok store =>
    simp only [hget] at h
    cases hbatch : body.batch store.source space action s.side.next with
    | error fault =>
      simp only [hbatch] at h
      obtain ⟨rfl, rfl⟩ := Prod.mk.inj h
      exact .inl ⟨⟨_, rfl⟩, rfl⟩
    | ok result =>
      simp only [hbatch] at h
      exact .inr ⟨store, result.1, result.2, rfl, hbatch, h⟩

/-! ## Reconciling -/

/-- An entry of a space that is gone is removed. Another is removed once its scope is rebuilt. -/
theorem reconcileEntry_run (sum : Summary) (e : Entry) : reconcileEntry sum e s =
    if s.registry.contains e.space then
      match rebuild e.space e.graph s with
      | (.ok _, s') => (.ok (if (s'.backlog.complete e).1
            then { sum with rebuilt := sum.rebuilt + 1 }
            else { sum with retained := sum.retained + 1 }),
          { s' with backlog := (s'.backlog.complete e).2 })
      | (.error _, s') => (.ok { sum with failed := sum.failed + 1 }, s')
    else (.ok sum, { s with backlog := (s.backlog.complete e).2 }) := by
  simp only [reconcileEntry, bind_run, get_run, Bool.not_eq_true']
  cases hc : s.registry.contains e.space with
  | false => simp only [↓reduceIte, bind_run, complete_run, pure_run, Bool.false_eq_true]
  | true =>
    simp only [↓reduceIte, bind_run, tryCatch_run, Bool.true_eq_false]
    rcases rebuild e.space e.graph s with ⟨fault | n, s₁⟩
    · rfl
    · simp only [pure_run, Bool.true_eq_false, if_false, bind_run, complete_run]
      split <;> rfl

theorem registry_reconcileEntry (sum : Summary) (e : Entry) (s : Service MemoryIndex) :
    (reconcileEntry sum e s).2.registry = s.registry := by
  have hrebuild := registry_rebuild e.space e.graph s
  rw [reconcileEntry_run]
  split
  · generalize rebuild e.space e.graph s = r at hrebuild ⊢
    obtain ⟨fault | n, s₁⟩ := r <;> exact hrebuild
  · rfl

theorem reconcileEntries_cons (sum : Summary) (e : Entry) (entries : List Entry) :
    ∃ sum', reconcileEntry sum e s = (.ok sum', (reconcileEntry sum e s).2) ∧
      reconcileEntries sum (e :: entries) s =
        reconcileEntries sum' entries (reconcileEntry sum e s).2 := by
  have hok : ∃ sum', (reconcileEntry sum e s).1 = .ok sum' := by
    rw [reconcileEntry_run]
    split
    · split <;> exact ⟨_, rfl⟩
    · exact ⟨_, rfl⟩
  obtain ⟨sum', hsum⟩ := hok
  have hrun : reconcileEntry sum e s = (.ok sum', (reconcileEntry sum e s).2) := Prod.ext hsum rfl
  refine ⟨sum', hrun, ?_⟩
  rw [reconcileEntries, bind_run, hrun]

theorem reconcilePending_run :
    reconcilePending s = reconcileEntries {} s.backlog.pending s := rfl

end Service
end DualStore
