import DualStore.Proofs.AnsweredTerms
import DualStore.Proofs.Checks

/-! What a check finds. Over an index that holds what stands for a set of quads, the question for
the contents of a scope is answered with the quads of the set in that scope
(`Scope.indexQuads_run`), so a check compares the set with the store (`Scope.check_compares`). -/

namespace DualStore

variable {X m : SortedSet Quad} {q u : Quad} {graph : Option Term} {g : Group} {space : String}
  {settings : Settings} {store : Store} {side : IndexState MemoryIndex}

/-! ## Quads read back -/

namespace Quad

/-- The quad with its blank nodes put back. -/
def deskolemize (q : Quad) : Quad :=
  ⟨q.subject.deskolemize, q.predicate.deskolemize, q.object.deskolemize, q.graph.deskolemize⟩

theorem Storable.deskolemize_skolemize (h : q.Storable) : q.skolemize.deskolemize = q := by
  have hterms := h.notSkolem
  simp only [List.forall_mem_cons] at hterms
  obtain ⟨hs, hp, ho, hg, -⟩ := hterms
  simp only [deskolemize, skolemize, Term.deskolemize_skolemize hs, Term.deskolemize_skolemize hp,
    Term.deskolemize_skolemize ho, Term.deskolemize_skolemize hg]

/-- The triple of a quad that the index holds may stand in the default graph. -/
theorem Storable.check_triple_skolemize (h : q.Storable) :
    ({ q.skolemize with graph := .defaultGraph } : Quad).check = .ok () := by
  have hcheck := h.check_skolemize
  simp only [check_eq_ok, List.forall_mem_cons] at hcheck ⊢
  obtain ⟨⟨hs, hp, ho, -⟩, hsubject, hpredicate, -, hdefault⟩ := hcheck
  exact ⟨⟨hs, hp, ho, by decide, fun _ h => nomatch h⟩, hsubject, hpredicate, rfl, hdefault⟩

end Quad

/-! ## Rows -/

namespace Scope

private theorem quadOfRow_withTriple (sol : Solution) (q : Quad) :
    quadOfRow (((sol.withTriple q).filter fun v _ => ["s", "p", "o", "g"].contains v).map
      Term.deskolemize) = .ok (.of q.subject.deskolemize q.predicate.deskolemize
        q.object.deskolemize ((sol.get? "g").map Term.deskolemize)) := by
  have hget : ∀ v ∈ ["s", "p", "o", "g"], (((sol.withTriple q).filter fun v _ =>
      ["s", "p", "o", "g"].contains v).map Term.deskolemize).get? v =
        ((sol.withTriple q).get? v).map Term.deskolemize := by
    intro v hv
    have hv : ["s", "p", "o", "g"].contains v = true := List.contains_iff_mem.mpr hv
    rw [SortedMap.get?_map, SortedMap.get?_filter, hv]
    cases (sol.withTriple q).get? v <;> rfl
  simp only [List.forall_mem_cons] at hget
  obtain ⟨hs, hp, ho, hg, -⟩ := hget
  rw [quadOfRow, hs, hp, ho, hg]
  simp [Solution.withTriple, SortedMap.get?_insert]

/-- The solutions over all graphs, cut down to the columns and read as rows. -/
private theorem mapM_quadOfRow (m : SortedSet Quad) (hg : Request.group? none = some g) :
    ∃ qs : List Quad, (∀ q, q ∈ qs ↔ q ∈ m) ∧ (g.solutions (.ofSet m)).mapM (fun sol => quadOfRow
      ((sol.filter fun v _ => ["s", "p", "o", "g"].contains v).map Term.deskolemize)) =
        .ok (qs.map Quad.deskolemize) := by
  refine ⟨m.toList.filter (QuadPattern.ofGraph (some .defaultGraph)).accepts ++
    m.toList.filter (!·.inDefaultGraph), fun q => ?_, ?_⟩
  · rw [List.mem_append, List.mem_filter, List.mem_filter, ← and_or_left]
    refine and_iff_left ?_
    rw [QuadPattern.accepts_ofGraph, ← Term.isDefaultGraph_iff, Bool.not_eq_true']
    exact Bool.eq_false_or_eq_true q.inDefaultGraph
  · rw [Request.solutions_group?_none m hg, List.mapM_append, List.mapM_map, List.mapM_map,
      List.map_append]
    have hunnamed : ∀ q ∈ m.toList.filter (QuadPattern.ofGraph (some .defaultGraph)).accepts,
        quadOfRow (((Solution.withTriple ∅ q).filter fun v _ =>
          ["s", "p", "o", "g"].contains v).map Term.deskolemize) = .ok q.deskolemize := by
      intro q hq
      have hgraph := QuadPattern.accepts_ofGraph.mp (List.mem_filter.mp hq).2
      rw [quadOfRow_withTriple, Quad.deskolemize, hgraph]
      rfl
    have hnamed : ∀ q ∈ m.toList.filter (!·.inDefaultGraph), quadOfRow
        (((Solution.withTriple ((∅ : Solution).insert "g" q.graph) q).filter fun v _ =>
          ["s", "p", "o", "g"].contains v).map Term.deskolemize) = .ok q.deskolemize := by
      intro q _
      rw [quadOfRow_withTriple, SortedMap.get?_insert, if_pos rfl]
      rfl
    exact bind_eq_ok.mpr ⟨_, mapM_ok hunnamed, bind_eq_ok.mpr ⟨_, mapM_ok hnamed, rfl⟩⟩

/-- The rows of a whole dataset are the quads that it stands for. -/
theorem quadsOfAnswer_rows (hX : ∀ q ∈ X, q.Storable) (hg : Request.group? none = some g)
    (next : Nat) : quadsOfAnswer none ((Request.contentsQuery none g).answer
      (.ofSet (Quad.skolemizeAll X)) next).1 = .ok (Quad.within none X) := by
  obtain ⟨qs, hmem, hrows⟩ := mapM_quadOfRow (Quad.skolemizeAll X) hg
  have hset : SortedSet.ofList (qs.map Quad.deskolemize) = Quad.within none X := by
    refine SortedSet.ext fun u => ?_
    rw [SortedSet.mem_ofList, List.mem_map, Quad.mem_within]
    simp only [hmem]
    constructor
    · rintro ⟨_, hq, rfl⟩
      obtain ⟨v, hv, rfl⟩ := Quad.mem_skolemizeAll.mp hq
      rw [(hX v hv).deskolemize_skolemize]
      exact ⟨hv, rfl⟩
    · rintro ⟨hu, -⟩
      exact ⟨u.skolemize, Quad.mem_skolemizeAll.mpr ⟨u, hu, rfl⟩, (hX u hu).deskolemize_skolemize⟩
  change ((((g.solutions (.ofSet (Quad.skolemizeAll X))).map _).map _).mapM quadOfRow).map _ = _
  rw [List.mapM_map, List.mapM_map]
  exact map_eq_ok.mpr ⟨_, hrows, hset⟩

/-! ## Triples -/

private theorem instantiate_any (sol : Solution) (name : String → Term)
    (h : ({ q with graph := .defaultGraph } : Quad).check = .ok ()) :
    (⟨.any, none⟩ : QuadTemplate).instantiate (sol.withTriple q) name =
      some { q with graph := .defaultGraph } := by
  refine QuadTemplate.instantiate_eq_some.mpr ⟨h, rfl, ?_, ?_, ?_⟩ <;>
    simp [TriplePattern.any, Node.instantiate, Solution.withTriple, SortedMap.get?_insert]

/-- Each solution has the triple that it was made from. -/
private theorem quads_any {qs : List Quad}
    (h : ∀ q ∈ qs, ({ q with graph := .defaultGraph } : Quad).check = .ok ()) (next : Nat) :
    QuadTemplate.quads [⟨.any, none⟩]
      (QuadTemplate.nameBlanks [⟨.any, none⟩] next (qs.map (Solution.withTriple ∅))).1 =
        qs.map fun q => { q with graph := .defaultGraph } := by
  induction qs generalizing next with
  | nil => rfl
  | cons q qs ih =>
    have hone : ∀ name, [(⟨.any, none⟩ : QuadTemplate)].filterMap
        (·.instantiate (Solution.withTriple ∅ q) name) = [{ q with graph := .defaultGraph }] :=
      fun name => by
        rw [List.filterMap_cons, instantiate_any ∅ name (h q List.mem_cons_self), List.filterMap_nil]
    rw [List.map_cons, List.map_cons, QuadTemplate.nameBlanks, QuadTemplate.quads,
      List.flatMap_cons]
    exact congrArg₂ (· ++ ·) (hone _) (ih (fun q hq => h q (List.mem_cons_of_mem _ hq)) _)

/-- The triples of a graph are those of the quads that it stands for. -/
theorem quadsOfAnswer_triples {name : Term} (hX : ∀ q ∈ X, q.Storable) (hn : name.isBlank = false)
    (hg : Request.group? (some name) = some g) (next : Nat) :
    quadsOfAnswer (some name) ((Request.contentsQuery (some name) g).answer
      (.ofSet (Quad.skolemizeAll X)) next).1 = .ok (Quad.within (some name) X) := by
  let qs := (Quad.skolemizeAll X).toList.filter (QuadPattern.ofGraph (some name)).accepts
  have hcheck : ∀ q ∈ qs, ({ q with graph := .defaultGraph } : Quad).check = .ok () := by
    intro q hq
    obtain ⟨u, hu, rfl⟩ := Quad.mem_skolemizeAll.mp (List.mem_of_mem_filter hq)
    exact (hX u hu).check_triple_skolemize
  have hsols : g.solutions (.ofSet (Quad.skolemizeAll X)) = qs.map (Solution.withTriple ∅) :=
    Request.solutions_group?_some _ hn hg
  have hanswer : ((Request.contentsQuery (some name) g).answer
      (.ofSet (Quad.skolemizeAll X)) next).1 =
        .triples ((qs.map fun q => { q with graph := .defaultGraph }).map Quad.triple).eraseDups := by
    rw [← quads_any hcheck next, ← hsols]
    rfl
  rw [hanswer]
  refine congrArg Except.ok (SortedSet.ext fun u => ?_)
  simp only [SortedSet.mem_ofList, Quad.mem_within, List.mem_map, List.mem_eraseDups, qs,
    List.mem_filter, SortedSet.mem_toList, QuadPattern.accepts_ofGraph]
  constructor
  · rintro ⟨_, ⟨_, ⟨_, ⟨_, ⟨hq, hgraph⟩, rfl⟩, rfl⟩, rfl⟩, rfl⟩
    obtain ⟨v, hv, rfl⟩ := Quad.mem_skolemizeAll.mp hq
    rw [Quad.skolemize, Term.skolemize_of_isIri (hX v hv).graph] at hgraph
    change v.skolemize.triple.deskolemize.inGraph name ∈ X ∧ name = name
    rw [(hX v hv).deskolemize_triple, ← hgraph]
    exact ⟨hv, rfl⟩
  · rintro ⟨hu, rfl⟩
    have hgraph : u.skolemize.graph = u.graph := Term.skolemize_of_isIri (hX u hu).graph
    refine ⟨u.triple, ⟨u.skolemize.triple, ⟨{ u.skolemize with graph := .defaultGraph },
      ⟨u.skolemize, ⟨Quad.mem_skolemizeAll.mpr ⟨u, hu, rfl⟩, hgraph⟩, rfl⟩, rfl⟩, ?_⟩, rfl⟩
    exact (hX u hu).deskolemize_triple

end Scope

/-! ## Scopes -/

namespace IsGraphScope

variable (h : IsGraphScope graph)
include h

theorem isBlank : ∀ g ∈ graph, g.isBlank = false := by
  intro g hg
  obtain ⟨iri, rfl, -⟩ := h g hg
  rfl

theorem normal : ∀ g ∈ graph, g.Normal := by
  intro g hg
  obtain ⟨iri, rfl, hiri⟩ := h g hg
  exact Term.normal_of_isIri hiri rfl

/-- The pattern of a scope that is not a blank node is read. -/
theorem exists_group? : ∃ g, Request.group? graph = some g := by
  cases graph with
  | none => exact ⟨_, rfl⟩
  | some name =>
    obtain ⟨iri, rfl, -⟩ := h name rfl
    rw [Request.group?]
    split
    · exact ⟨_, rfl⟩
    · exact ⟨_, rfl⟩

end IsGraphScope

namespace Scope

/-- The answer about a scope has the quads in it, with their blank nodes put back. -/
theorem quadsOfAnswer_contents (hX : ∀ q ∈ X, q.Storable) (h : IsGraphScope graph)
    (hg : Request.group? graph = some g) (next : Nat) :
    quadsOfAnswer graph ((Request.contentsQuery graph g).answer
      (.ofSet (Quad.skolemizeAll X)) next).1 = .ok (Quad.within graph X) := by
  cases graph with
  | none => exact quadsOfAnswer_rows hX hg next
  | some name => exact quadsOfAnswer_triples hX (h.isBlank name rfl) hg next

section
variable (hX : ∀ q ∈ X, q.Storable) (hg : IsGraphScope graph)
  (hm : side.index.datasets.get? space = some (Quad.skolemizeAll X))
  (hav : side.index.available = true)
include hX hg hm hav

/-- The index tells which quads the set has in the scope. -/
theorem indexQuads_run :
    (indexQuads space graph side).1 = .ok (Quad.within graph X) := by
  obtain ⟨g, hgroup⟩ := hg.exists_group?
  have hquery := IndexM.query_run (Query.ofText_contents hg.normal hgroup) hm
  rw [if_pos hav] at hquery
  rw [indexQuads, bind_run, hquery]
  exact quadsOfAnswer_contents hX hg hgroup _

/-- The index tells how many quads the set has in the scope, if a word can hold the number. -/
theorem indexCount_run (hsize : (Quad.within graph X).size ≤ Text.maxUnsigned) :
    (indexCount space graph side).1 = .ok (Quad.within graph X).size := by
  obtain ⟨g, hgroup⟩ := hg.exists_group?
  have hquery := IndexM.query_run
    ((Query.ofText_count_eq_ok hg.normal).mpr ⟨g, hgroup, rfl⟩) hm
  rw [if_pos hav] at hquery
  rw [indexCount, bind_run, hquery]
  have hcount := Query.count?_answer (Quad.skolemizeAll X) hgroup side.next
  rw [Quad.countedIn_of_not_isBlank hg.isBlank, Quad.countIn_skolemizeAll hX, ← Quad.size_within,
    if_pos hsize] at hcount
  dsimp only
  rw [hcount]
  rfl

/-- What a check comes to when the index answers. -/
theorem check_run (settings : Settings) (store : Store)
    (hsize : (Quad.within graph X).size ≤ Text.maxUnsigned) :
    (check settings space store graph side).1 = .ok
      ⟨space, graph, store.count graph, (Quad.within graph X).size,
        if store.count graph ≠ (Quad.within graph X).size ∧
            max (store.count graph) (Quad.within graph X).size ≤ settings.diffThreshold then
          some (differenceOf (.ofList (store.scan (.ofGraph graph))) (Quad.within graph X))
        else none⟩ := by
  have hcount := run_eq (indexCount_run hX hg hm hav hsize)
  have hsame : (indexCount space graph side).2.index = side.index := indexCount_keeps side
  generalize (indexCount space graph side).2 = side₁ at hcount hsame
  rw [check]
  dsimp only
  rw [bind_run, CheckM.querying, adapt_run, hcount]
  dsimp only [mapError_ok]
  split
  · have hm' : side₁.index.datasets.get? space = some (Quad.skolemizeAll X) := hsame ▸ hm
    have hquads := run_eq (indexQuads_run hX hg hm' (hsame ▸ hav))
    rw [bind_run, CheckM.querying, adapt_run, hquads]
    rfl
  · rfl

end

end Scope

/-! ## Reports -/

/-- A list of the quads that only one of two sets has in the scope, and one of those that only the
other has. Both are strictly increasing, so no quad is listed twice. -/
structure Difference.Tells (d : Difference) (graph : Option Term) (s t : SortedSet Quad) :
    Prop where
  mem_missing : ∀ q, q ∈ d.missing ↔ q ∈ Quad.within graph (s.diff t)
  mem_extra : ∀ q, q ∈ d.extra ↔ q ∈ Quad.within graph (t.diff s)
  sorted_missing : d.missing.Pairwise fun q u => compare q u = .lt
  sorted_extra : d.extra.Pairwise fun q u => compare q u = .lt

/-- The numbers of quads that two sets have in the scope and, if these differ and neither is above
the threshold, the quads themselves. -/
structure Report.Tells (r : Report) (threshold : Nat) (s t : SortedSet Quad) : Prop where
  primaryCount : r.primaryCount = (Quad.within r.graph s).size
  indexCount : r.indexCount = (Quad.within r.graph t).size
  isSome : r.difference.isSome = true ↔
    r.primaryCount ≠ r.indexCount ∧ max r.primaryCount r.indexCount ≤ threshold
  difference : ∀ d, r.difference = some d → d.Tells r.graph s t

namespace Scope

theorem tells_differenceOf (graph : Option Term) (s t : SortedSet Quad) :
    (differenceOf (Quad.within graph s) (Quad.within graph t)).Tells graph s t := by
  have hmem : ∀ (s t : SortedSet Quad) q, q ∈ ((Quad.within graph s).diff (Quad.within graph t)) ↔
      q ∈ Quad.within graph (s.diff t) := by
    intro s t q
    simp only [SortedSet.mem_diff, Quad.mem_within]
    constructor
    · rintro ⟨⟨hs, haccepts⟩, ht⟩
      exact ⟨⟨hs, fun h => ht ⟨h, haccepts⟩⟩, haccepts⟩
    · rintro ⟨⟨hs, ht⟩, haccepts⟩
      exact ⟨⟨hs, haccepts⟩, fun h => ht h.1⟩
  exact ⟨hmem s t, hmem t s, SortedSet.sorted _, SortedSet.sorted _⟩

theorem ofList_scan (hs : store.Valid) (hf : store.Fits) (graph : Option Term) :
    SortedSet.ofList (store.scan (.ofGraph graph)) = Quad.within graph store.quads := by
  refine SortedSet.ext fun q => ?_
  rw [SortedSet.mem_ofList, hs.mem_scan hf, Quad.mem_within]

/-- The store is compared with the set of quads that the index holds in their skolemized form,
whatever the two have to do with each other: the report has the number of quads of both in the
scope. It has a difference if and only if these differ and neither is above the threshold, and then
all quads that only one side has in the scope. An index that is off is not compared. -/
theorem check_compares (settings : Settings) (space : String) (hs : store.Reachable)
    (hf : store.Fits) (hX : ∀ q ∈ X, q.Storable) (hg : IsGraphScope graph)
    (hm : side.index.datasets.get? space = some (Quad.skolemizeAll X))
    (hsize : (Quad.within graph X).size ≤ Text.maxUnsigned) :
    (side.index.available = true →
      ∃ r side', check settings space store graph side = (.ok r, side') ∧
        side'.index = side.index ∧ r.space = space ∧ r.graph = graph ∧
        r.Tells settings.diffThreshold store.quads X) ∧
    (side.index.available = false →
      check settings space store graph side = (.error (.indexQuery .unavailable), side)) := by
  constructor
  · intro hav
    obtain ⟨hvalid, -⟩ := hs.valid hf
    have hrun := check_run hX hg hm hav settings store hsize
    rw [hvalid.count hf, ← Quad.size_within, ofList_scan hvalid hf] at hrun
    refine ⟨_, _, run_eq hrun, check_keeps side, rfl, rfl, rfl, rfl, ?_, ?_⟩
    · exact Option.isSome_ite
    · intro d hd
      obtain rfl := Option.some.inj (Option.ite_none_right_eq_some.mp hd).2
      exact tells_differenceOf graph store.quads X
  · intro hoff
    obtain ⟨g, hgroup⟩ := hg.exists_group?
    have hquery := IndexM.query_run
      ((Query.ofText_count_eq_ok hg.normal).mpr ⟨g, hgroup, rfl⟩) hm
    rw [if_neg (hoff ▸ Bool.false_ne_true)] at hquery
    rw [check]
    dsimp only
    rw [bind_run, CheckM.querying, adapt_run, indexCount, bind_run, hquery]
    rfl

/-- The index misses a quad of the graph that has a blank node, and has two that the store does not
have; another graph is not looked at. -/
theorem check_compares_astray :
    let q : Quad := ⟨.iri "x:a", .iri "x:p", .blank "b", .iri "x:g"⟩
    let u : Quad := ⟨.blank "c", .iri "x:p", .plain "v", .iri "x:g"⟩
    let v : Quad := ⟨.iri "x:a", .iri "x:q", .plain "w", .iri "x:g"⟩
    let w : Quad := ⟨.iri "x:a", .iri "x:p", .plain "v", .defaultGraph⟩
    let store := (Store.perform ({}, {}) ⟨.insert, q⟩).1
    let held := Quad.skolemizeAll (.ofList [u, v, w])
    let side : IndexState MemoryIndex :=
      { index := { datasets := (∅ : SortedMap _ _).insert "s" held } }
    ∃ r side', check {} "s" store (some (.iri "x:g")) side = (.ok r, side') ∧
      r.primaryCount = 1 ∧ r.indexCount = 2 ∧
      ∃ d, r.difference = some d ∧ (∀ p, p ∈ d.missing ↔ p = q) ∧
        ∀ p, p ∈ d.extra ↔ p = u ∨ p = v := by
  intro q u v w store held side
  have hwrite : ({} : Store).write [⟨.insert, q⟩] = .ok (store, ⟨1, 0⟩) := by decide +kernel
  have hf : store.Fits := by decide +kernel
  have hX : ∀ q ∈ SortedSet.ofList [u, v, w], q.Storable := by decide +kernel
  have hg : IsGraphScope (some (.iri "x:g")) := fun g h =>
    ⟨_, (Option.some.inj h).symm, by decide +kernel⟩
  have hm : side.index.datasets.get? "s" = some held := SortedMap.get?_insert ..
  have hsize : (Quad.within (some (.iri "x:g")) (.ofList [u, v, w])).size = 2 := by decide +kernel
  have hcount : (Quad.within (some (.iri "x:g")) store.quads).size = 1 := by decide +kernel
  obtain ⟨r, side', hrun, -, -, hgraph, htells⟩ := (check_compares {} "s" (.write .empty hwrite)
    hf hX hg hm (hsize ▸ by decide)).1 rfl
  obtain ⟨hprimary, hindex, hsome, hdiffer⟩ := htells
  rw [hgraph, hcount] at hprimary
  rw [hgraph, hsize] at hindex
  rw [hprimary, hindex] at hsome
  obtain ⟨d, hd⟩ := Option.isSome_iff_exists.mp (hsome.mpr (by decide))
  obtain ⟨hmissing, hextra, -, -⟩ := hgraph ▸ hdiffer d hd
  have hleft : Quad.within (some (.iri "x:g")) (store.quads.diff (.ofList [u, v, w])) =
    .ofList [q] := by decide +kernel
  have hright : Quad.within (some (.iri "x:g")) (SortedSet.diff (.ofList [u, v, w]) store.quads) =
    .ofList [u, v] := by decide +kernel
  refine ⟨r, side', hrun, hprimary, hindex, d, hd, fun p => ?_, fun p => ?_⟩
  · rw [hmissing, hleft, SortedSet.mem_ofList, List.mem_singleton]
  · rw [hextra, hright, SortedSet.mem_ofList, List.mem_pair]

end Scope
end DualStore
