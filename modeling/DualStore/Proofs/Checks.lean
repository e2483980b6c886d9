import DualStore.Proofs.Mirroring
import DualStore.Proofs.PrintedQueries
import DualStore.Proofs.ServiceCalls

/-! What a check finds out. The store counts the keys of a graph, the index counts the solutions of
a pattern, and both are the number of quads that a set has in the scope (`Quad.countIn`). -/

namespace DualStore

variable {s m : SortedSet Quad} {graph : Option Term} {q : Quad}

/-- The number of quads that a set has in a graph, or in all. -/
def Quad.countIn (graph : Option Term) (s : SortedSet Quad) : Nat :=
  s.toList.countP (QuadPattern.ofGraph graph).accepts

theorem Quad.size_within (graph : Option Term) (s : SortedSet Quad) :
    (within graph s).size = countIn graph s :=
  List.countP_eq_length_filter.symm

theorem Source.Lawful.length_matching {src : Source} (h : src.Lawful s) (graph : Option Term) :
    (src.matching (.ofGraph graph)).length = Quad.countIn graph s := by
  have hperm : (src.matching (.ofGraph graph)).Perm
      (s.toList.filter (QuadPattern.ofGraph graph).accepts) := by
    refine (List.perm_ext_iff_of_nodup (h _).1 ((SortedSet.nodup s).filter _)).mpr fun q => ?_
    rw [(h _).2, List.mem_filter, SortedSet.mem_toList]
  rw [hperm.length_eq, Quad.countIn, List.countP_eq_length_filter]

theorem Quad.countIn_skolemizeAll (h : ∀ q ∈ s, q.Storable) (graph : Option Term) :
    countIn graph (skolemizeAll s) = countIn graph s := by
  rw [countIn, (toList_skolemizeAll_perm h).countP_eq, List.countP_map, countIn]
  refine List.countP_congr fun q hq => ?_
  rw [Function.comp_apply, (h q hq).accepts_skolemize]

/-! ## The store -/

namespace Store

variable {store : Store} {p : QuadPattern}

/-- Every quad of numbers that a pattern accepts is the quad of some terms. -/
theorem Valid.length_scan (h : store.Valid) (hf : store.Fits) {p' : IdPattern}
    (hp : store.resolveMatch? p = some p') : (store.scan p).length = (store.pattern p').length := by
  rw [scan, hp]
  refine List.filterMap_length_eq_length.mpr fun ids hids => ?_
  obtain ⟨q, hq⟩ := h.exists_encode? (h.mem_pattern.mp hids).1
  rw [(h.decode_eq_ok hf).mpr hq]
  rfl

/-- The keys of the first ordering are those of all quads. -/
private theorem Valid.size_spog (h : store.Valid) : store.spog.size = (store.pattern {}).length := by
  have hperm : store.spog.toList.Perm ((store.pattern {}).map KeyOrder.spog.encode) := by
    have hnodup : ((store.pattern {}).map KeyOrder.spog.encode).Nodup :=
      (h.nodup_pattern {}).map_on fun ids _ ids' _ he => KeyOrder.encode_inj he
    refine (List.perm_ext_iff_of_nodup (SortedSet.nodup _) hnodup).mpr fun key => ?_
    rw [SortedSet.mem_toList, List.mem_map]
    have hids : ∀ ids, ids ∈ store.pattern {} ↔ store.Holds ids := fun ids =>
      h.mem_pattern.trans (and_iff_left rfl)
    exact (h.keys .spog key).trans (exists_congr fun ids => and_congr (hids ids).symm eq_comm)
  rw [SortedSet.size, hperm.length_eq, List.length_map]

/-- The store counts its quads. -/
theorem Valid.count (h : store.Valid) (hf : store.Fits) (graph : Option Term) :
    store.count graph = Quad.countIn graph store.quads := by
  rw [← (h.source_lawful hf).length_matching graph]
  change store.count graph = (store.scan (.ofGraph graph)).length
  cases graph with
  | none => exact h.size_spog.trans (h.length_scan hf rfl).symm
  | some g =>
    rw [Store.count]
    cases hg : store.dictionary.lookup? g with
    | some id =>
      have hresolve : store.resolveMatch? (.ofGraph (some g)) = some { graph := some id } := by
        simp [resolveMatch?, QuadPattern.ofGraph, hg]
      exact (h.length_scan hf hresolve).symm
    | none =>
      have hresolve : store.resolveMatch? (.ofGraph (some g)) = none := by
        simp [resolveMatch?, QuadPattern.ofGraph, hg]
      rw [scan, hresolve]
      rfl

end Store

/-! ## The index -/

namespace Text

private theorem digits?_toDigits (n : Nat) : digits? (Nat.toDigits 10 n) = some n := by
  have hne : (Nat.toDigits 10 n).isEmpty = false := by
    rw [List.isEmpty_eq_false_iff]
    exact Nat.toDigits_ne_nil
  have hall : (Nat.toDigits 10 n).all Char.isDigit = true :=
    List.all_eq_true.mpr fun c hc => Nat.isDigit_of_mem_toDigits (by decide) (by decide) hc
  rw [digits?, hne, hall]
  exact congrArg some (Nat.ofDigitChars_toDigits (by decide) (by decide))

/-- A number is read back from its digits, unless it is too large for a word. -/
theorem unsigned?_toString (n : Nat) :
    unsigned? (toString n) = if n ≤ maxUnsigned then some n else none := by
  have hlist : (toString n).toList = Nat.toDigits 10 n := Nat.toList_repr
  unfold unsigned?
  rw [hlist]
  split
  next ds heq =>
    have hplus : '+' ∈ Nat.toDigits 10 n := heq ▸ List.mem_cons_self
    exact absurd (Nat.isDigit_of_mem_toDigits (by decide) (by decide) hplus) (by decide)
  next =>
    rw [digits?_toDigits]
    simp [Option.filter]

end Text

/-- A solution with the parts of a triple. -/
def Solution.withTriple (sol : Solution) (q : Quad) : Solution :=
  ((sol.insert "s" q.subject).insert "p" q.predicate).insert "o" q.object

namespace TriplePattern

variable {sol : Solution}

theorem unify_any (h : ∀ v ∈ ["s", "p", "o"], sol.get? v = none) (q : Quad) :
    any.unify none sol q = some (sol.withTriple q) := by
  simp only [List.forall_mem_cons] at h
  obtain ⟨hs, hp, ho, -⟩ := h
  simp [unify, any, Solution.unify, Solution.withTriple, hs, hp, ho, SortedMap.get?_insert]

end TriplePattern

/-- The number of quads that the index counts in a scope. A blank node is a variable there, so all
named graphs are counted instead of one. -/
def Quad.countedIn (graph : Option Term) (s : SortedSet Quad) : Nat :=
  if graph.any Term.isBlank then s.toList.countP (!·.inDefaultGraph) else countIn graph s

theorem Quad.countedIn_of_not_isBlank (h : ∀ g ∈ graph, g.isBlank = false) (s : SortedSet Quad) :
    countedIn graph s = countIn graph s := by
  cases graph with
  | none => rfl
  | some g => rw [countedIn, Option.any_some, h g rfl, if_neg Bool.false_ne_true]

namespace Request

private theorem get?_empty_of_mem : ∀ v ∈ ["s", "p", "o"], (∅ : Solution).get? v = none :=
  fun _ _ => rfl

private theorem extend_any_none (m : SortedSet Quad) : TriplePattern.any.extend (.ofSet m) none ∅ =
    ((Source.ofSet m).matching (.ofGraph (some .defaultGraph))).map (Solution.withTriple ∅) := by
  have hunify : TriplePattern.any.unify none ∅ = some ∘ Solution.withTriple ∅ :=
    funext (TriplePattern.unify_any get?_empty_of_mem)
  rw [TriplePattern.extend, hunify, List.filterMap_eq_map]
  rfl

private theorem extend_any_term (m : SortedSet Quad) {g : Term} (hd : g.isDefaultGraph = false) :
    TriplePattern.any.extend (.ofSet m) (some (.term g)) ∅ =
      ((Source.ofSet m).matching (.ofGraph (some g))).map (Solution.withTriple ∅) := by
  rw [TriplePattern.extend, ← List.filterMap_eq_map]
  refine List.filterMap_congr fun q hq => ?_
  obtain rfl := QuadPattern.accepts_ofGraph.mp (List.mem_filter.mp hq).2
  rw [TriplePattern.unify_some, Quad.inDefaultGraph, hd, if_neg Bool.false_ne_true,
    Solution.unify, if_pos rfl, Option.bind_some, TriplePattern.unify_any get?_empty_of_mem]
  rfl

private theorem extend_any_var (m : SortedSet Quad) {v : String} (hv : v ∉ ["s", "p", "o"]) :
    TriplePattern.any.extend (.ofSet m) (some (.var v)) ∅ =
      (m.toList.filter (!·.inDefaultGraph)).map fun q =>
        Solution.withTriple ((∅ : Solution).insert v q.graph) q := by
  have hall : (Source.ofSet m).matching {} = m.toList := List.filter_eq_self.mpr fun _ _ => rfl
  change ((Source.ofSet m).matching {}).filterMap _ = _
  rw [hall, ← List.filterMap_eq_map, List.filterMap_filter]
  refine List.filterMap_congr fun q _ => ?_
  have hfree : ∀ u ∈ ["s", "p", "o"], ((∅ : Solution).insert v q.graph).get? u = none := by
    intro u hu
    have hne : u ≠ v := fun he => hv (he ▸ hu)
    rw [SortedMap.get?_insert, if_neg hne, get?_empty_of_mem u hu]
  have hgraph : Solution.unify ∅ (.var v) q.graph = some ((∅ : Solution).insert v q.graph) := rfl
  rw [TriplePattern.unify_some, hgraph, Option.bind_some, TriplePattern.unify_any hfree]
  cases q.inDefaultGraph <;> rfl

/-- The solutions over all graphs: one for each quad, those of the default graph first. -/
theorem solutions_group?_none (m : SortedSet Quad) {g : Group} (hg : group? none = some g) :
    g.solutions (.ofSet m) =
      ((Source.ofSet m).matching (.ofGraph (some .defaultGraph))).map (Solution.withTriple ∅) ++
        (m.toList.filter (!·.inDefaultGraph)).map fun q =>
          Solution.withTriple ((∅ : Solution).insert "g" q.graph) q := by
  obtain rfl := Option.some.inj hg
  rw [← extend_any_none, ← extend_any_var m (v := "g") (by decide), ← List.append_nil
    (TriplePattern.any.extend (.ofSet m) (some (.var "g")) ∅)]
  exact congrArg₂ (· ++ ·) (List.flatMap_singleton ..)
    (congrArg (· ++ []) (List.flatMap_singleton ..))

/-- The solutions over one graph: one for each quad. -/
theorem solutions_group?_some (m : SortedSet Quad) {name : Term} {g : Group}
    (hb : name.isBlank = false) (hg : group? (some name) = some g) : g.solutions (.ofSet m) =
      ((Source.ofSet m).matching (.ofGraph (some name))).map (Solution.withTriple ∅) := by
  rw [group?] at hg
  cases hd : name.isDefaultGraph with
  | true =>
    obtain rfl := Term.isDefaultGraph_iff.mp hd
    obtain rfl := Option.some.inj hg
    exact (List.flatMap_singleton ..).trans (extend_any_none m)
  | false =>
    have hnode : graphNode? name = some (.term name) := by
      cases name with
      | blank label => cases hb
      | _ => rfl
    rw [hd, hnode] at hg
    obtain rfl := Option.some.inj hg
    exact (List.flatMap_singleton ..).trans (extend_any_term m hd)

/-- The solutions over the graphs that a blank node may stand for. -/
theorem solutions_group?_blank (m : SortedSet Quad) {label : String} {g : Group}
    (hg : group? (some (.blank label)) = some g) : g.solutions (.ofSet m) =
      (m.toList.filter (!·.inDefaultGraph)).map fun q =>
        Solution.withTriple ((∅ : Solution).insert ("_:" ++ label) q.graph) q := by
  have hv : "_:" ++ label ∉ ["s", "p", "o"] := fun hmem => by
    have hhead : ∀ v ∈ ["s", "p", "o"], v.toList.head? ≠ some '_' := by decide
    exact hhead _ hmem (by simp)
  obtain ⟨n, hn, rfl⟩ := Option.map_eq_some_iff.mp hg
  rw [graphNode?, Option.ite_none_left_eq_some] at hn
  obtain rfl := Option.some.inj hn.2
  exact (List.flatMap_singleton ..).trans (extend_any_var m hv)

/-- The number of solutions of the pattern of a scope. -/
theorem length_solutions_group? (m : SortedSet Quad) {g : Group} (hg : group? graph = some g) :
    (g.solutions (.ofSet m)).length = Quad.countedIn graph m := by
  have hlength := fun graph => (Source.lawful_ofSet m).length_matching graph
  rw [Quad.countedIn]
  cases graph with
  | none =>
    have hdefault : Quad.countIn (some .defaultGraph) m = m.toList.countP (·.inDefaultGraph) :=
      List.countP_congr fun q _ => QuadPattern.accepts_ofGraph.trans Term.isDefaultGraph_iff.symm
    have hall : Quad.countIn none m = m.toList.length := congrFun List.countP_true _
    rw [solutions_group?_none m hg, List.length_append, List.length_map, List.length_map, hlength,
      hdefault, ← List.countP_eq_length_filter, Option.any_none, if_neg Bool.false_ne_true, hall,
      List.length_eq_countP_add_countP (·.inDefaultGraph)]
    simp only [Bool.not_eq_true, Bool.decide_eq_false]
  | some name =>
    rw [Option.any_some]
    cases hb : name.isBlank with
    | false =>
      rw [solutions_group?_some m hb hg, List.length_map, hlength, if_neg Bool.false_ne_true]
    | true =>
      cases name with
      | blank label =>
        rw [solutions_group?_blank m hg, List.length_map, ← List.countP_eq_length_filter,
          if_pos rfl]
      | _ => cases hb

end Request

/-- The first row of a counting selection has the number in it. -/
private theorem Answer.count?_countTerm (var : String) (n : Nat) :
    (rows [(∅ : Solution).insert var (Query.countTerm n)]).count? var =
      if n ≤ Text.maxUnsigned then some n else none := by
  rw [← Text.unsigned?_toString]
  simp [count?, Query.countTerm, Term.lexical, SortedMap.get?_insert]

/-- The question for the number of quads is answered with the number of quads in the scope. -/
theorem Query.count?_answer (m : SortedSet Quad) {g : Group} (hg : Request.group? graph = some g)
    (next : Nat) :
    ((select false (.count "count" false) g none 0).answer (.ofSet m) next).1.count? "count" =
      if Quad.countedIn graph m ≤ Text.maxUnsigned then some (Quad.countedIn graph m)
      else none := by
  rw [← Request.length_solutions_group? m hg, ← Answer.count?_countTerm]
  rfl

variable {space : String} {settings : Settings} {store : Store} {n : Nat} {r : Report}
  {side side' : IndexState MemoryIndex}

namespace Scope

/-- The index is asked for a number, and answers with the number of quads in the scope. -/
theorem indexCount_eq_ok (hg : ∀ g ∈ graph, g.Normal)
    (h : indexCount space graph side = (.ok n, side')) :
    ∃ m, side.index.datasets.get? space = some m ∧ n = Quad.countedIn graph m := by
  obtain ⟨answer, side₁, hquery, h⟩ := bind_run_eq_ok.mp h
  obtain ⟨q, m, hq, hm, rfl⟩ := IndexM.query_eq_ok hquery
  obtain ⟨g, hgroup, rfl⟩ := (Query.ofText_count_eq_ok hg).mp hq
  rw [Query.count?_answer m hgroup] at h
  by_cases hfits : Quad.countedIn graph m ≤ Text.maxUnsigned
  · rw [if_pos hfits] at h
    exact ⟨m, hm, (Except.ok.inj (Prod.mk.inj h).1).symm⟩
  · rw [if_neg hfits] at h
    cases (Prod.mk.inj h).1

/-- A report gives the numbers of quads on both sides, and is consistent if and only if they are
equal. -/
theorem check_eq_ok (hg : ∀ g ∈ graph, g.Normal)
    (h : check settings space store graph side = (.ok r, side')) :
    ∃ m, side.index.datasets.get? space = some m ∧ r.space = space ∧ r.graph = graph ∧
      r.primaryCount = store.count graph ∧ r.indexCount = Quad.countedIn graph m ∧
      (r.isConsistent = true ↔ r.primaryCount = r.indexCount) := by
  obtain ⟨n, side₁, hcount, h⟩ := bind_run_eq_ok.mp h
  rw [CheckM.querying, adapt_run] at hcount
  obtain ⟨hn, rfl⟩ := Prod.mk.inj hcount
  obtain ⟨m, hm, rfl⟩ := indexCount_eq_ok hg (Prod.ext (mapError_eq_ok.mp hn) rfl)
  refine ⟨m, hm, ?_⟩
  by_cases hdiffer : store.count graph ≠ Quad.countedIn graph m ∧
      max (store.count graph) (Quad.countedIn graph m) ≤ settings.diffThreshold
  · rw [if_pos hdiffer] at h
    obtain ⟨index, side₂, -, h⟩ := bind_run_eq_ok.mp h
    obtain rfl := Except.ok.inj (Prod.mk.inj h).1
    refine ⟨rfl, rfl, rfl, rfl, iff_of_false ?_ hdiffer.1⟩
    simp [Report.isConsistent, hdiffer.1]
  · rw [if_neg hdiffer] at h
    obtain rfl := Except.ok.inj (Prod.mk.inj h).1
    exact ⟨rfl, rfl, rfl, rfl, by simp [Report.isConsistent]⟩

end Scope
end DualStore
