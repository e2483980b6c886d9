import DualStore.Proofs.MirroredSolutions
import DualStore.Proofs.ServiceCalls

/-! Queries that the service passes on to an index are answered as the store would answer them, as
long as the index holds the quads of the store (`Service.sparqlQuery_alike`). Only the order of
rows and triples may differ, so queries with a limit or an offset are left out. -/

namespace DualStore

open List (Perm)

variable {src src' : Source} {sols sols' : List Solution}

namespace Answer

/-- The answers are the same up to order. -/
def Alike : Answer → Answer → Prop
  | rows sols, rows sols' => sols.Perm sols'
  | triples ts, triples ts' => ts.Perm ts'
  | boolean b, boolean b' => b = b'
  | _, _ => False

end Answer

/-- A query for everything that there is of something: a selection without limit and offset, a
question or a description. -/
def Query.IsWhole : Query → Prop
  | select _ _ _ limit offset => limit = none ∧ offset = 0
  | construct .. => False
  | ask _ | describe .. => True

/-- The query names an IRI that stands for a blank node in the index. -/
def Query.namesSkolem (q : Query) : Bool :=
  q.nodes.any fun
    | .term t => t.isSkolem
    | .var _ => false

theorem Query.not_isSkolem_of_mem_nodes {q : Query} {t : Term} (h : q.namesSkolem = false)
    (ht : .term t ∈ q.nodes) : t.isSkolem = false :=
  Bool.not_eq_true _ ▸ List.any_eq_false.mp h (.term t) ht

/-! ## Rows -/

namespace Mirrors

theorem nodup_map_skolemize (h : ∀ sol ∈ sols, sol.Plain) (hnodup : sols.Nodup) :
    (sols.map Solution.skolemize).Nodup :=
  hnodup.map_on fun sol hsol sol' hsol' => (h sol hsol).skolemize_inj (h sol' hsol')

theorem eraseDups (h : Mirrors sols sols') : Mirrors sols.eraseDups sols'.eraseDups := by
  have hplain : ∀ sol ∈ sols.eraseDups, sol.Plain :=
    fun sol hsol => h.plain sol (List.mem_eraseDups.mp hsol)
  refine ⟨hplain, (List.perm_ext_iff_of_nodup (nodup_eraseDups _)
    (nodup_map_skolemize hplain (nodup_eraseDups _))).mpr fun sol => ?_⟩
  rw [List.mem_eraseDups, h.perm.mem_iff, List.mem_map, List.mem_map]
  exact exists_congr fun sol => and_congr_left fun _ => List.mem_eraseDups.symm

theorem filter (h : Mirrors sols sols') (p : String → Bool) :
    Mirrors (sols.map (·.filter fun v _ => p v)) (sols'.map (·.filter fun v _ => p v)) where
  plain := by
    intro _ hmap v t ht
    obtain ⟨sol, hsol, rfl⟩ := List.mem_map.mp hmap
    rw [SortedMap.get?_filter, Option.filter_eq_some_iff] at ht
    exact h.plain sol hsol v t ht.1
  perm := by
    refine (h.perm.map _).trans (.of_eq ?_)
    rw [List.map_map, List.map_map]
    refine List.map_congr_left fun sol _ => SortedMap.ext fun v => ?_
    simp only [Function.comp_apply, SortedMap.get?_filter, Solution.get?_skolemize]
    cases sol.get? v with
    | none => rfl
    | some t => exact Option.filter_map.trans rfl

theorem project (h : Mirrors sols sols') (projection : Projection) :
    Mirrors (Query.project projection sols) (Query.project projection sols') := by
  cases projection with
  | all => exact h.filter _
  | vars names => exact h.filter _
  | count var distinct =>
    have hlength : (if distinct then sols'.eraseDups else sols').length =
        (if distinct then sols.eraseDups else sols).length := by
      split
      · exact h.eraseDups.perm.length_eq.trans (List.length_map _)
      · exact h.perm.length_eq.trans (List.length_map _)
    rw [Query.project, Query.project, hlength]
    have hrow : ∀ n, Solution.skolemize ((∅ : Solution).insert var (Query.countTerm n)) =
        (∅ : Solution).insert var (Query.countTerm n) := fun n => Solution.skolemize_insert var
    refine ⟨fun sol hsol => ?_, .of_eq ?_⟩
    · exact List.mem_singleton.mp hsol ▸ Solution.plain_empty.insert rfl var
    · rw [List.map_singleton, hrow]

theorem deskolemize (h : Mirrors sols sols') :
    (sols'.map (·.map Term.deskolemize)).Perm sols := by
  refine (h.perm.map _).trans (.of_eq ?_)
  rw [List.map_map]
  exact (List.map_congr_left fun sol hsol => (h.plain sol hsol).deskolemize_skolemize).trans
    (List.map_id _)

/-! ## Descriptions -/

theorem described (h : Mirrors sols sols') {resources : List Node}
    (hr : ∀ n ∈ resources, n.Plain) :
    (∀ t ∈ Query.described resources sols, t.isSkolem = false) ∧
    (Query.described resources sols').toList.Perm
      ((Query.described resources sols).toList.map Term.skolemize) := by
  have hmem : ∀ sols t, t ∈ Query.described resources sols ↔
      ∃ sol ∈ sols, ∃ n ∈ resources, n.value? sol = some t := by
    intro sols t
    simp only [Query.described, SortedSet.mem_ofList, List.mem_flatMap, List.mem_filterMap]
  have hplain : ∀ t ∈ Query.described resources sols, t.isSkolem = false := by
    intro t ht
    obtain ⟨sol, hsol, n, hn, ht⟩ := (hmem sols t).mp ht
    exact Node.not_isSkolem_of_value? (hr n hn) (h.plain sol hsol) ht
  have hnodup : ((Query.described resources sols).toList.map Term.skolemize).Nodup :=
    (SortedSet.nodup _).map_on fun t ht u hu => Term.skolemize_inj (hplain t ht) (hplain u hu)
  refine ⟨hplain, (List.perm_ext_iff_of_nodup (SortedSet.nodup _) hnodup).mpr fun u => ?_⟩
  rw [SortedSet.mem_toList, hmem, List.mem_map]
  constructor
  · rintro ⟨sol', hsol', n, hn, hu⟩
    obtain ⟨sol, hsol, rfl⟩ := List.mem_map.mp (h.perm.mem_iff.mp hsol')
    rw [Node.value?_skolemize (hr n hn)] at hu
    obtain ⟨t, ht, rfl⟩ := Option.map_eq_some_iff.mp hu
    exact ⟨t, (hmem sols t).mpr ⟨sol, hsol, n, hn, ht⟩, rfl⟩
  · rintro ⟨t, ht, rfl⟩
    obtain ⟨sol, hsol, n, hn, ht⟩ := (hmem sols t).mp ht
    refine ⟨sol.skolemize, h.perm.mem_iff.mpr (List.mem_map_of_mem hsol), n, hn, ?_⟩
    rw [Node.value?_skolemize (hr n hn), ht, Option.map_some]

end Mirrors

/-- A triple of the answer of an index with its blank nodes put back. -/
def Triple.deskolemize (t : Triple) : Triple :=
  ⟨t.subject.deskolemize, t.predicate, t.object.deskolemize⟩

theorem Quad.Storable.deskolemize_triple {q : Quad} (h : q.Storable) :
    q.skolemize.triple.deskolemize = q.triple := by
  have hterms := h.notSkolem
  simp only [List.forall_mem_cons] at hterms
  obtain ⟨hs, -, ho, -⟩ := hterms
  simp only [Triple.deskolemize, Quad.triple, Quad.skolemize, Term.deskolemize_skolemize hs,
    Term.deskolemize_skolemize ho, Term.skolemize_of_isIri h.predicate]

/-- A resource has the same description over the store and over the index. -/
theorem Source.MirroredBy.description (h : src.MirroredBy src') {t : Term}
    (ht : t.isSkolem = false) :
    ((src'.matching { subject := some t.skolemize, graph := some .defaultGraph }).map
      (Triple.deskolemize ∘ Quad.triple)).Perm
    ((src.matching { subject := some t, graph := some .defaultGraph }).map Quad.triple) := by
  have hplain : QuadPattern.Plain { subject := some t, graph := some .defaultGraph } :=
    ⟨fun u hu => Option.some.inj hu ▸ ht, nofun, nofun, fun u hu => Option.some.inj hu ▸ by decide⟩
  refine ((h.perm _ hplain).map _).trans (.of_eq ?_)
  rw [List.map_map]
  exact List.map_congr_left fun q hq => (h.storable _ q hq).deskolemize_triple

/-! ## Answers -/

theorem Query.answer_mirrored (h : src.MirroredBy src') {q : Query} (hq : q.IsWhole)
    (hn : ∀ n ∈ q.nodes, n.Plain) (next next' : Nat) :
    (q.answer src' next').1.deskolemize.Alike (q.answer src next).1 := by
  cases q with
  | select distinct projection pattern limit offset =>
    obtain ⟨rfl, rfl⟩ := hq
    have hrows := (Group.mirrors_solutions h hn).project projection
    cases distinct with
    | false => exact hrows.deskolemize
    | true => exact hrows.eraseDups.deskolemize
  | construct template pattern limit => cases hq
  | ask pattern =>
    have hperm := (Group.mirrors_solutions h hn).perm
    exact congrArg (!·) (hperm.isEmpty_eq.trans List.isEmpty_map)
  | describe resources pattern =>
    obtain ⟨hresources, hpattern⟩ := List.forall_mem_append.mp hn
    have hdescribed : ∀ {sols sols' : List Solution}, Mirrors sols sols' →
        (((described resources sols').toList.flatMap fun t => (src'.matching
          { subject := some t, graph := some .defaultGraph }).map Quad.triple).map
            Triple.deskolemize).Perm
        ((described resources sols).toList.flatMap fun t => (src.matching
          { subject := some t, graph := some .defaultGraph }).map Quad.triple) := by
      intro sols sols' hsols
      obtain ⟨hplain, hperm⟩ := hsols.described hresources
      rw [List.map_flatMap]
      refine (hperm.flatMap_right _).trans ?_
      rw [List.flatMap_map]
      refine .flatMap_left _ fun t ht => ?_
      rw [List.map_map]
      exact h.description (hplain t ht)
    cases pattern with
    | none => exact hdescribed .empty
    | some g =>
      refine hdescribed (Group.mirrors_solutions h fun n hn => hpattern n ?_)
      exact List.mem_flatMap.mpr ⟨g, List.mem_singleton_self g, hn⟩

/-! ## Calls -/

namespace Service

variable {s : Service MemoryIndex} {space text : String} {q : Query}

/-- Queries are answered from the dataset of the space, unless the index cannot be reached. -/
theorem sparqlQuery_run (hget : s.registry.contains space = true) (hq : Query.ofText text = .ok q)
    {m : SortedSet Quad} (hm : s.side.index.datasets.get? space = some m) :
    (sparqlQuery space text s).1 =
      if s.side.index.available then .ok (q.answer (.ofSet m) s.side.next).1.deskolemize
      else .error (.indexQuery .unavailable) := by
  simp only [sparqlQuery, bind_run, liftInvalid, liftExcept_run, QueryForm.detect_of_ofText hq,
    mapError_ok, get_run, hget, if_true, pure_run, liftCheck_run, CheckM.querying, adapt_run,
    IndexM.query_run hq hm]
  cases s.side.index.available <;> rfl

/-- A query is answered from the index as it would be from the store. -/
theorem sparqlQuery_alike {store : Store} (hget : s.registry.get space = .ok store)
    (hstore : store.Reachable) (hf : store.Fits)
    (hm : s.side.index.datasets.get? space = some (Quad.skolemizeAll store.quads))
    (hq : Query.ofText text = .ok q) (hwhole : q.IsWhole)
    (hskolem : q.namesSkolem = false) (next : Nat) :
    if s.side.index.available then
      ∃ answer, (sparqlQuery space text s).1 = .ok answer ∧
        answer.Alike (q.answer store.source next).1
    else (sparqlQuery space text s).1 = .error (.indexQuery .unavailable) := by
  rw [sparqlQuery_run (Registry.contains_of_get hget) hq hm]
  split
  · obtain ⟨hvalid, hstorable⟩ := hstore.valid hf
    have hmirrored := (hvalid.source_lawful hf).mirroredBy (Source.lawful_ofSet _) hstorable
    refine ⟨_, rfl, Query.answer_mirrored hmirrored hwhole (fun n hn => ?_) next s.side.next⟩
    refine Node.plain_of_label? (Query.ofText_nodes hq n hn) fun t ht => ?_
    exact Query.not_isSkolem_of_mem_nodes hskolem (ht ▸ hn)
  · rfl

/-- A blank node is found as the subject of a triple in one graph and as the object in another. -/
theorem sparqlQuery_alike_union :
    let u : Quad := ⟨.blank "b", .iri "x:p", .plain "1", .defaultGraph⟩
    let v : Quad := ⟨.iri "x:a", .iri "x:q", .blank "b", .iri "x:g"⟩
    let store := (Store.perform (Store.perform ({}, {}) ⟨.insert, u⟩) ⟨.insert, v⟩).1
    let s : Service MemoryIndex :=
      { registry := ⟨(∅ : SortedMap _ _).insert "s" ⟨⟨"s", ""⟩, store⟩⟩
        side := { index :=
          { datasets := (∅ : SortedMap _ _).insert "s" (Quad.skolemizeAll store.quads) } } }
    let text :=
      "SELECT DISTINCT ?x \x7b\x7b?x <x:p> ?y\x7d UNION \x7bGRAPH ?g \x7b?z <x:q> ?x\x7d\x7d\x7d"
    let q : Query := .select true (.vars ["x"]) [.union [
      [.triple ⟨.var "x", .term (.iri "x:p"), .var "y"⟩],
      [.graph (.var "g") [.triple ⟨.var "z", .term (.iri "x:q"), .var "x"⟩]]]] none 0
    s.registry.get "s" = .ok store ∧ store.Reachable ∧ store.Fits ∧
      s.side.index.datasets.get? "s" = some (Quad.skolemizeAll store.quads) ∧
      Query.ofText text = .ok q ∧ q.IsWhole ∧ q.namesSkolem = false ∧
      ∃ answer, (sparqlQuery "s" text s).1 = .ok answer ∧
        answer.Alike (q.answer store.source 0).1 := by
  intro u v store s text q
  have hget : s.registry.get "s" = .ok store := by decide +kernel
  have hwrite : ({} : Store).write [⟨.insert, u⟩, ⟨.insert, v⟩] = .ok (store, ⟨2, 0⟩) := by
    decide +kernel
  have hstore : store.Reachable := .write .empty hwrite
  have hf : store.Fits := by decide +kernel
  have hm : s.side.index.datasets.get? "s" = some (Quad.skolemizeAll store.quads) :=
    SortedMap.get?_insert ..
  have htokens : Token.ofText text = .ok [.word "SELECT", .word "DISTINCT", .var "x",
      .punct '\x7b', .punct '\x7b', .var "x", .iri "x:p", .var "y", .punct '\x7d', .word "UNION",
      .punct '\x7b', .word "GRAPH", .var "g", .punct '\x7b', .var "z", .iri "x:q", .var "x",
      .punct '\x7d', .punct '\x7d', .punct '\x7d'] := by decide +kernel
  have hq : Query.ofText text = .ok q := by
    rw [Query.ofText, htokens]
    change Query.ofTokens _ = .ok q
    with_unfolding_all rfl
  exact ⟨hget, hstore, hf, hm, hq, ⟨rfl, rfl⟩, rfl,
    sparqlQuery_alike hget hstore hf hm hq ⟨rfl, rfl⟩ rfl 0⟩

end Service

end DualStore
