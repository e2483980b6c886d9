import DualStore.Index.Pinned
import DualStore.Proofs.Coverage
import DualStore.Proofs.StoreCalls

/-! What a call that applies a batch reports. The outcome tells what became of either side
(`Service.applyBatch_truthful`). A batch counts as validated when all reports at hand are
consistent, and nothing is said of graphs that could not be checked
(`Service.applyBatch_validated_iff`). -/

namespace DualStore

/-! ## Recording -/

namespace Backlog

variable {b : Backlog} {space reason : String} {g g' : Term} {graphs : List Term} {start : Nat}

/-- The entry of the graph was made since the generation `start`. -/
def RecordedSince (b : Backlog) (start : Nat) (space reason : String) (g : Term) : Prop :=
  ∃ generation, start ≤ generation ∧ generation < b.next ∧
    b.entries.get? (key space (some g)) = some ⟨space, some g, reason, generation⟩

/-- Recording a graph leaves an entry of it, and one that was there of another graph. -/
theorem recordedSince_record (hg : IsScope space (some g)) (hg' : IsScope space (some g'))
    (hstart : start ≤ b.next) (h : g = g' ∨ b.RecordedSince start space reason g) :
    (b.record space (some g') reason).2.RecordedSince start space reason g := by
  by_cases heq : g = g'
  · subst heq
    exact ⟨b.next, hstart, Nat.lt_succ_self _, (SortedMap.get?_insert ..).trans (if_pos rfl)⟩
  · obtain ⟨generation, hsince, hlt, hget⟩ := h.resolve_left heq
    have hkey : key space (some g) ≠ key space (some g') := fun hkey =>
      heq (Option.some.inj (hg.key_inj hg' hkey).2)
    refine ⟨generation, hsince, Nat.lt_succ_of_lt hlt, ?_⟩
    rw [Backlog.record, SortedMap.get?_insert, if_neg hkey]
    exact hget

/-- All graphs that are recorded have entries that were made meanwhile. -/
theorem recordedSince_recordAll (hs : ∀ g ∈ graphs, IsScope space (some g))
    (hg : IsScope space (some g)) (hstart : start ≤ b.next)
    (h : g ∈ graphs ∨ b.RecordedSince start space reason g) :
    (b.recordAll space reason graphs).RecordedSince start space reason g := by
  induction graphs generalizing b with
  | nil => exact h.resolve_left List.not_mem_nil
  | cons first graphs ih =>
    obtain ⟨hfirst, hrest⟩ := List.forall_mem_cons.mp hs
    refine ih hrest (hstart.trans (Nat.le_succ _)) ?_
    by_cases hlater : g ∈ graphs
    · exact .inl hlater
    · refine .inr (recordedSince_record hg hfirst hstart (h.imp_left fun hmem => ?_))
      exact (List.mem_cons.mp hmem).resolve_right hlater

theorem RecordedSince.exists_pending (h : b.RecordedSince start space reason g) :
    ∃ e ∈ b.pending, e.space = space ∧ e.graph = some g ∧ e.reason = reason ∧
      start ≤ e.generation ∧ e.generation < b.next := by
  obtain ⟨generation, hsince, hlt, hget⟩ := h
  exact ⟨_, SortedMap.mem_values.mpr ⟨_, hget⟩, rfl, rfl, rfl, hsince, hlt⟩

end Backlog

/-! ## What is touched -/

namespace Operation

variable {s m : SortedSet Quad} {ops : List Operation} {op : Operation}

/-- What stands for a quad that is touched is there just when the quad is, whatever was there
before. -/
theorem mem_applyAll_skolemize (hops : ∀ op ∈ ops, op.quad.Storable) (hop : op ∈ ops) :
    op.quad.skolemize ∈ applyAll m (ops.map skolemize) ↔ op.quad ∈ applyAll s ops := by
  obtain ⟨last, hlast, hquad⟩ := touched_lastOnly.mpr ⟨op, hop, rfl⟩
  have hmirrored : last.skolemize ∈ lastOnly (ops.map skolemize) := by
    rw [lastOnly_map_skolemize hops]
    exact List.mem_map_of_mem hlast
  have hindex : last.skolemize.quad ∈ applyAll m (ops.map skolemize) ↔ last.action = .insert := by
    rw [← applyAll_lastOnly]
    exact (steady_lastOnly _).mem_applyAll hmirrored
  rw [← hquad, ← applyAll_lastOnly s, (steady_lastOnly ops).mem_applyAll hlast]
  exact hindex

end Operation

/-- A batch counts the quads that it brings and those that it takes away. -/
theorem Store.Valid.counts_apply {s s' : Store} {b : Batch} {counts : Counts} (hs : s.Valid)
    (h : s.apply b = .ok (s', counts)) (hf : s'.Fits) :
    counts = .between s.content s'.content := by
  have hrun := (Store.apply_eq_ok.mp h).2
  have hsteady : Operation.Steady b.effective := Operation.steady_lastOnly b.ops
  have hcounts := Store.Valid.counts_foldl (r := (s, {})) hs (by rw [hrun]; exact hf) hsteady
  rw [hrun] at hcounts
  simpa only [Counts.plus, Nat.zero_add] using hcounts

namespace Service

/-! ## Both sides -/

variable {s t : Service MemoryIndex} {b : Batch} {validate : Bool} {o : Outcome}

/-- What the outcome of a batch says about the service before and after it, of which `store` and
`store'` are the store of the space. -/
structure Tells (o : Outcome) (b : Batch) (s t : Service MemoryIndex) (store store' : Store) :
    Prop where
  quads : store'.quads = Operation.applyAll store.quads b.ops
  counts : o.counts = .between store.content store'.content
  /-- Both sides hold the same of what the batch touches. -/
  mirrored : o.status ≠ .pending → t.backlog = s.backlog ∧ ∀ op ∈ b.ops,
    (op.quad.skolemize ∈ t.mirror b.space ↔ op.quad ∈ store'.quads)
  /-- The index is as it was, and the call has recorded all graphs of the batch. -/
  recorded : o.status = .pending → t.side.index = s.side.index ∧ ∀ g ∈ b.graphs,
    ∃ e ∈ t.backlog.pending, e.space = b.space ∧ e.graph = some g ∧
      some e.reason = o.indexFault.map (·.message) ∧
      s.backlog.next ≤ e.generation ∧ e.generation < t.backlog.next

/-- What is told of a batch that the index took. -/
private theorem tells_of_applied {store store' : Store} {side : IndexState MemoryIndex}
    (hquads : store'.quads = Operation.applyAll store.quads b.ops)
    (hcounts : o.counts = .between store.content store'.content)
    (hstorable : ∀ op ∈ b.ops, op.quad.Storable)
    (hheld : side.index.held b.space =
      Operation.applyAll (s.side.index.held b.space) (b.ops.map Operation.skolemize))
    (hstatus : o.status ≠ .pending)
    (hsame : SameBut { s with registry := s.registry.put b.space store', side } t) :
    Tells o b s t store store' := by
  refine ⟨hquads, hcounts, fun _ => ⟨?_, fun op hop => ?_⟩, fun h => absurd h hstatus⟩
  · obtain ⟨next, rfl⟩ := hsame
    rfl
  · have hmirror : t.mirror b.space = side.index.held b.space := hsame.mirror
    rw [hmirror, hheld, hquads]
    exact Operation.mem_applyAll_skolemize hstorable hop

/-- A batch that is refused changes nothing. The outcome of any other tells the truth. -/
theorem applyBatch_truthful (validate : Bool) (hb : ∀ op ∈ b.ops, op.quad.Normal)
    (hs : ∀ store, s.registry.get b.space = .ok store → store.Reachable)
    (hf : (applyBatch b validate s).2.Fits) :
    match applyBatch b validate s with
    | (.error _, t) => t = s ∧
      ∀ store, s.registry.get b.space = .ok store → ∃ op ∈ b.ops, ¬ op.quad.Storable
    | (.ok o, t) => ∃ store store', s.registry.get b.space = .ok store ∧
      t.registry = s.registry.put b.space store' ∧ Tells o b s t store store' := by
  rcases applyBatch_refused_or b validate s with
    ⟨e, hrun, hrefused⟩ | ⟨store, store', counts, hget, happly⟩
  · rw [hrun]
    exact ⟨rfl, hrefused⟩
  obtain ⟨o, t, hrun, hregistry⟩ := applyBatch_of_apply validate hget happly
  obtain ⟨hname, info, hspace⟩ := Registry.get_eq_ok.mp hget
  have hscope := isScope_of_apply hname happly
  have hstorable := (Store.apply_eq_ok.mp happly).1
  have hfits : store'.Fits := by
    have hput : (applyBatch b validate s).2.registry.spaces.get? b.space = some ⟨info, store'⟩ := by
      rw [hrun, hregistry, Registry.get?_put, if_pos rfl, hspace]
      rfl
    exact hf.store hput
  have hvalid := ((hs store hget).valid (Store.fits_of_apply happly hfits)).1
  have hquads := (hvalid.apply happly hfits).2
  have hcounts := hvalid.counts_apply happly hfits
  have hindex := Scope.apply_cases s.settings s.side fun op hop => ⟨hb op hop, hstorable op hop⟩
  rw [hrun]
  refine ⟨store, store', hget, hregistry, ?_⟩
  rw [applyBatch_run validate hget happly] at hrun
  rcases hindex with ⟨side, hside, hheld⟩ | ⟨fault, hside⟩ <;> simp only [hside] at hrun
  · split at hrun <;> obtain ⟨ho, rfl⟩ := Prod.mk.inj hrun <;> obtain rfl := Except.ok.inj ho
    · refine tells_of_applied hquads hcounts hstorable hheld ?_ (checkEach_sameBut ..)
      dsimp only
      split <;> exact nofun
    · exact tells_of_applied hquads hcounts hstorable hheld nofun (refl_of SameBut _)
  · obtain ⟨ho, rfl⟩ := Prod.mk.inj hrun
    obtain rfl := Except.ok.inj ho
    refine ⟨hquads, hcounts, fun h => absurd rfl h, fun _ => ⟨rfl, fun g hg => ?_⟩⟩
    have hg := SortedSet.mem_toList.mpr hg
    obtain ⟨e, he, hspace, hgraph, hreason, hgeneration⟩ := (Backlog.recordedSince_recordAll hscope
      (hscope g hg) (Nat.le_refl s.backlog.next) (.inl hg)).exists_pending
    exact ⟨e, he, hspace, hgraph, congrArg some hreason, hgeneration⟩

/-- A batch that is applied and validated while the index is on, and recorded while it is off. -/
theorem applyBatch_truthful_outage :
    let q : Quad := ⟨.iri "x:a", .iri "x:p", .plain "v", .defaultGraph⟩
    let u : Quad := ⟨.blank "b", .iri "x:p", .plain "v", .iri "x:g"⟩
    let b : Batch := ⟨"s", [⟨.delete, q⟩, ⟨.insert, u⟩]⟩
    let store := (Store.perform ({}, {}) ⟨.insert, q⟩).1
    let s := fun available : Bool => ({
      registry := ⟨(∅ : SortedMap _ _).insert "s" ⟨⟨"s", "1"⟩, store⟩⟩
      side := { index := { available, datasets :=
        (∅ : SortedMap _ _).insert "s" (Quad.skolemizeAll store.quads) } } } :
      Service MemoryIndex)
    let Ends := fun available status => ∃ o t store', applyBatch b true (s available) = (.ok o, t) ∧
      o.status = status ∧ Tells o b (s available) t store store'
    Ends true .validated ∧ Ends false .pending := by
  intro q u b store s Ends
  have hwrite : ({} : Store).write [⟨.insert, q⟩] = .ok (store, ⟨1, 0⟩) := by decide +kernel
  have hstore : store.Reachable := .write .empty hwrite
  have hnormal : ∀ op ∈ b.ops, op.quad.Normal := by decide +kernel
  have hget : ∀ available, (s available).registry.get "s" = .ok store := by decide +kernel
  have hruns : ∀ available, (applyBatch b true (s available)).2.Fits ∧
      (applyBatch b true (s available)).1.toOption.map (·.status) =
        some (if available then .validated else .pending) := by decide +kernel
  have ends : ∀ available, Ends available (if available then .validated else .pending) := by
    intro available
    obtain ⟨hf, hstatus⟩ := hruns available
    have htells := applyBatch_truthful true hnormal (fun store' hstore' => by
      rw [hget available] at hstore'
      exact Except.ok.inj hstore' ▸ hstore) hf
    rcases hrun : applyBatch b true (s available) with ⟨e | o, t⟩ <;> rw [hrun] at hstatus htells
    · cases hstatus
    · obtain ⟨store₀, store', hstore₀, -, htells⟩ := htells
      rw [hget available] at hstore₀
      obtain rfl := Except.ok.inj hstore₀
      exact ⟨o, t, store', hrun, Option.some.inj hstatus, htells⟩
  exact ⟨ends true, ends false⟩

/-! ## Validation -/

/-- Each graph of a batch has a report, and all reports are consistent. -/
def Vouches (reports : List Report) (b : Batch) : Prop :=
  (∀ g ∈ b.graphs, ∃ report ∈ reports, report.graph = some g) ∧
    ∀ report ∈ reports, report.isConsistent = true

section
variable {ι : Type} [TripleIndex ι] {s t : Service ι} {b : Batch} {store store' : Store}
  {counts : Counts} {side : IndexState ι} {report : Report} {space : String} {graphs : List Term}

/-- A report is about the graph that was to be checked. -/
theorem graph_of_check {graph : Option Term} (h : (check space graph s).1 = .ok report) :
    report.graph = graph := by
  rw [check_run] at h
  split at h
  next store hget =>
    obtain ⟨count, side, -, h⟩ := bind_run_eq_ok.mp (run_eq h)
    split at h
    · obtain ⟨index, side', -, h⟩ := bind_run_eq_ok.mp h
      exact Except.ok.inj (Prod.mk.inj h).1 ▸ rfl
    · exact Except.ok.inj (Prod.mk.inj h).1 ▸ rfl
  next => cases h

theorem graph_of_checkEach (h : .ok report ∈ (checkEach space graphs s).1) :
    ∃ g ∈ graphs, report.graph = some g := by
  induction graphs generalizing s with
  | nil => cases h
  | cons first graphs ih =>
    rw [checkEach_cons] at h
    rcases List.mem_cons.mp h with h | h
    · exact ⟨first, List.mem_cons_self, graph_of_check h.symm⟩
    · obtain ⟨g, hg, hgraph⟩ := ih h
      exact ⟨g, List.mem_cons_of_mem _ hg, hgraph⟩

/-- Each graph has a report just when each could be checked. -/
theorem forall_report_iff (hnodup : graphs.Nodup) : (∀ g ∈ graphs, ∃ report,
      .ok report ∈ (checkEach space graphs s).1 ∧ report.graph = some g) ↔
    ∀ r ∈ (checkEach space graphs s).1, r.isOk = true := by
  induction graphs generalizing s with
  | nil => exact iff_of_true (List.forall_mem_nil _) (List.forall_mem_nil _)
  | cons first graphs ih =>
    obtain ⟨hfirst, hrest⟩ := List.nodup_cons.mp hnodup
    rw [List.forall_mem_cons, checkEach_cons, List.forall_mem_cons, ← ih hrest]
    simp only [List.mem_cons]
    -- a report on the first graph is no report on another one
    refine and_congr ⟨?_, fun hok => ?_⟩ (forall₂_congr fun g hg => ⟨?_, ?_⟩)
    · rintro ⟨report, hreport | hreport, hgraph⟩
      · rw [← hreport]
        rfl
      · obtain ⟨g, hg, hgraph'⟩ := graph_of_checkEach hreport
        rw [hgraph, Option.some.injEq] at hgraph'
        exact absurd (hgraph' ▸ hg) hfirst
    · cases hcheck : (check space (some first) s).1 with
      | ok report => exact ⟨report, .inl rfl, graph_of_check hcheck⟩
      | error e =>
        rw [hcheck] at hok
        cases hok
    · rintro ⟨report, hreport | hreport, hgraph⟩
      · rw [graph_of_check hreport.symm, Option.some.injEq] at hgraph
        exact absurd (hgraph ▸ hg) hfirst
      · exact ⟨report, hreport, hgraph⟩
    · rintro ⟨report, hreport, hgraph⟩
      exact ⟨report, .inr hreport, hgraph⟩

theorem mem_reports {rs : List (Except Error Report)} :
    report ∈ rs.filterMap Except.toOption ↔ .ok report ∈ rs := by
  rw [List.mem_filterMap]
  constructor
  · rintro ⟨e | report, hr, heq⟩
    · cases heq
    · exact Option.some.inj heq ▸ hr
  · exact fun hr => ⟨.ok report, hr, rfl⟩

/-- Of a batch that the index took, and that is to be validated, the graphs that cannot be checked
are left out. It counts as validated if the reports that are left are consistent, so this vouches
for all graphs just when all could be checked or some report is not consistent. -/
theorem applyBatch_validated_iff (validate : Bool) (hget : s.registry.get b.space = .ok store)
    (happly : store.apply b = .ok (store', counts))
    (hindex : Scope.apply s.settings b s.side = (.ok (), side))
    (hvalidate : (validate || s.settings.validateWrites) = true) :
    let checks := (checkEach b.space b.graphs.toList
      { s with registry := s.registry.put b.space store', side }).1
    ∃ o, (applyBatch b validate s).1 = .ok o ∧ o.reports = checks.filterMap Except.toOption ∧
      (o.status = .validated ↔ ∀ report ∈ o.reports, report.isConsistent = true) ∧
      ((o.status = .validated ↔ Vouches o.reports b) ↔
        (∀ r ∈ checks, r.isOk = true) ∨ ∃ report ∈ o.reports, report.isConsistent = false) := by
  intro checks
  have hrun := applyBatch_run validate hget happly
  simp only [hindex, hvalidate, if_true] at hrun
  refine ⟨_, congrArg Prod.fst hrun, rfl, ?_⟩
  have hall : ((checks.filterMap Except.toOption).all (·.isConsistent)) = true ↔
      ∀ report ∈ checks.filterMap Except.toOption, report.isConsistent = true := List.all_eq_true
  have hvalidated : (if (checks.filterMap Except.toOption).all (·.isConsistent)
      then Status.validated else .applied) = .validated ↔
        ∀ report ∈ checks.filterMap Except.toOption, report.isConsistent = true := by
    rw [← hall]
    split <;> simp_all
  have hvouches : Vouches (checks.filterMap Except.toOption) b ↔ (∀ r ∈ checks, r.isOk = true) ∧
      ∀ report ∈ checks.filterMap Except.toOption, report.isConsistent = true := by
    rw [Vouches, ← forall_report_iff (SortedSet.nodup b.graphs)]
    simp only [mem_reports, SortedSet.mem_toList]
    rfl
  refine ⟨hvalidated, ?_⟩
  have hdiverged : (¬ ∀ report ∈ checks.filterMap Except.toOption, report.isConsistent = true) ↔
      ∃ report ∈ checks.filterMap Except.toOption, report.isConsistent = false := by
    simp only [not_forall, Bool.not_eq_true, exists_prop]
  dsimp only
  rw [hvalidated, hvouches, iff_and_self, imp_iff_or_not, hdiverged]

end

/-- No question about the graph is answered with a number, and the batch counts as validated. -/
theorem applyBatch_validated_iff_unanswered :
    let b : Batch := ⟨"s", [⟨.insert, ⟨.iri "x:a", .iri "x:p", .plain "v", .iri "x:g"⟩⟩]⟩
    let s : Service (PinnedIndex MemoryIndex) :=
      { registry := ⟨(∅ : SortedMap _ _).insert "s" ⟨⟨"s", "1"⟩, {}⟩⟩
        side := { index := { index := { datasets := (∅ : SortedMap _ _).insert "s" ∅ }
                             answer := some (.boolean true) } } }
    ∃ o, (applyBatch b true s).1 = .ok o ∧ o.status = .validated ∧ ¬ Vouches o.reports b := by
  intro b s
  let store' := (b.effective.foldl Store.perform ({}, {})).1
  let side := (Scope.apply s.settings b s.side).2
  have hget : s.registry.get b.space = .ok {} := by decide +kernel
  have happly : ({} : Store).apply b = .ok (store', ⟨1, 0⟩) := by decide +kernel
  have hindex : Scope.apply s.settings b s.side = (.ok (), side) := run_eq (by decide +kernel)
  have hchecks : (checkEach b.space b.graphs.toList
      { s with registry := s.registry.put b.space store', side }).1 =
        [.error (.indexQuery .noCount)] := by decide +kernel
  obtain ⟨o, hrun, hreports, hstatus, hvouches⟩ :=
    applyBatch_validated_iff true hget happly hindex rfl
  rw [hchecks] at hreports hvouches
  have hnone : o.reports = [] := hreports
  have hvalidated : o.status = .validated := by
    rw [hstatus, hnone]
    exact List.forall_mem_nil _
  refine ⟨o, hrun, hvalidated, fun h => ?_⟩
  rcases hvouches.mp (iff_of_true hvalidated h) with hok | ⟨report, hreport, -⟩
  · cases hok _ List.mem_cons_self
  · rw [hnone] at hreport
    cases hreport

end Service
end DualStore
