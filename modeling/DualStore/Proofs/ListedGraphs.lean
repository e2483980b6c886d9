import DualStore.Proofs.GraphLists
import DualStore.Proofs.WrittenTables

/-! The graphs that are listed after a run. They are those of the quads that the accepted calls
leave. Tables list the graphs of the quads that they hold, whatever the digests are
(`Store.run_lists_graphs`). -/

namespace DualStore
namespace Tables

variable {digest : Bytes → Bytes} {T : Tables} {q : Quad} {ids : IdQuad}

/-! ## Reading -/

theorem graph_of_decode (h : T.decode ids = .ok q) : T.resolve ids.graph = .ok q.graph := by
  simp only [decode, bind_eq_ok, pure_eq_ok] at h
  obtain ⟨_, -, _, -, _, -, _, hgraph, rfl⟩ := h
  exact hgraph

theorem Kept.exists_decode (h : T.Kept digest) (hids : T.Holds ids) :
    ∃ q, T.decode ids = .ok q := by
  obtain ⟨subject, hs⟩ := h.exists_resolve hids .subject
  obtain ⟨predicate, hp⟩ := h.exists_resolve hids .predicate
  obtain ⟨object, ho⟩ := h.exists_resolve hids .object
  obtain ⟨graph, hg⟩ := h.exists_resolve hids .graph
  exact ⟨⟨subject, predicate, object, graph⟩, bind_eq_ok.mpr ⟨_, hs, bind_eq_ok.mpr ⟨_, hp,
    bind_eq_ok.mpr ⟨_, ho, bind_eq_ok.mpr ⟨_, hg, rfl⟩⟩⟩⟩⟩

/-- All keys of an ordering are read. -/
theorem Kept.scanKeys (h : T.Kept digest) (o : KeyOrder) (p : IdPattern) (keys : List Bytes)
    (hkeys : ∀ key ∈ keys, key ∈ T.keys o) : ∃ quads, T.scanKeys o p keys = .ok quads ∧
      ∀ q, q ∈ quads ↔
        ∃ ids, o.encode ids ∈ keys ∧ p.accepts ids = true ∧ T.decode ids = .ok q := by
  induction keys with
  | nil => exact ⟨[], rfl, fun q => iff_of_false List.not_mem_nil fun ⟨_, h, _⟩ => nomatch h⟩
  | cons key keys ih =>
    obtain ⟨ids, hids, rfl⟩ := (h.keys o key).mp (hkeys key List.mem_cons_self)
    obtain ⟨quads, hquads, hmem⟩ := ih fun key hkey => hkeys key (List.mem_cons_of_mem _ hkey)
    obtain ⟨q, hq⟩ := h.exists_decode hids
    have hcons : ∀ u, (∃ ids', o.encode ids' ∈ o.encode ids :: keys ∧ p.accepts ids' = true ∧
        T.decode ids' = .ok u) ↔ p.accepts ids = true ∧ q = u ∨ u ∈ quads := fun u => by
      simp only [List.mem_cons, KeyOrder.encode_inj_iff, or_and_right, exists_or, exists_eq_left,
        hmem, hq, Except.ok.injEq]
    simp only [scanKeys_encode, hq, hquads, hcons]
    split
    next hp =>
      refine ⟨q :: quads, rfl, fun u => ?_⟩
      rw [List.mem_cons, and_iff_right hp, eq_comm]
    next hp => exact ⟨quads, rfl, fun u => (or_iff_right fun h => hp h.1).symm⟩

/-- The quads that are there are all found. -/
theorem Kept.scan_all (h : T.Kept digest) : ∃ quads, T.scan digest {} = .ok quads ∧
    ∀ q, q ∈ quads ↔ ∃ ids, T.Holds ids ∧ T.decode ids = .ok q := by
  have hscan : T.scan digest {} = T.scanKeys .spog {} T.spog.toList := by
    have hall : T.spog.toList.filter ((KeyOrder.spog.keyPrefix {}).isPrefixOf ·) = T.spog.toList :=
      List.filter_eq_self.mpr fun _ _ => List.isPrefixOf_nil_left
    exact congrArg (T.scanKeys .spog {}) hall
  obtain ⟨quads, hquads, hmem⟩ := h.scanKeys .spog {} T.spog.toList fun _ => id
  refine ⟨quads, hscan.trans hquads, fun q => (hmem q).trans (exists_congr fun ids => ?_)⟩
  have haccepts : IdPattern.accepts {} ids = true := rfl
  rw [and_iff_right haccepts]
  exact .rfl

/-- Tables in order list the graphs of the quads that they hold. -/
theorem Kept.listsGraphs (h : T.Kept digest) : ∃ quads ts, T.scan digest {} = .ok quads ∧
    T.graphs = .ok ts ∧ Store.ListsGraphs T.gspo.toList T.resolve {q | q ∈ quads} ts := by
  obtain ⟨quads, hscan, hmem⟩ := h.scan_all
  have hquad : ∀ ids, T.Holds ids → ∃ q ∈ {q | q ∈ quads}, T.resolve ids.graph = .ok q.graph := by
    intro ids hids
    obtain ⟨q, hq⟩ := h.exists_decode hids
    exact ⟨q, (hmem q).mpr ⟨ids, hids, hq⟩, graph_of_decode hq⟩
  have hheld : ∀ q ∈ {q | q ∈ quads}, ∃ ids, T.Holds ids ∧ T.resolve ids.graph = .ok q.graph := by
    intro q hq
    obtain ⟨ids, hids, hdecode⟩ := (hmem q).mp hq
    exact ⟨ids, hids, graph_of_decode hdecode⟩
  obtain ⟨ts, hts, hlists⟩ := Store.listsGraphs_of_keys (h.keys .gspo)
    (fun _ _ _ => h.resolve_inj) hquad hheld
  exact ⟨quads, ts, hscan, mapM_eq_ok.mpr hts, hlists⟩

end Tables

namespace Store

/-- After every run the graphs that hold a quad which the accepted calls leave are listed, each of
them once and in the order of their numbers. So are the graphs of all quads that are found in tables
on which the same calls were made, even if calls were refused half-way because terms have one
digest. -/
theorem run_lists_graphs (calls : List Call) :
    ((run calls).Fits →
      ListsGraphs (run calls).gspo.toList (run calls).resolve (contents calls)
        (run calls).graphs) ∧
    ∀ digest, Tables.HasRoom digest {} calls →
      ∃ quads ts, (Tables.run digest calls).scan digest {} = .ok quads ∧
        (Tables.run digest calls).graphs = .ok ts ∧
        ListsGraphs (Tables.run digest calls).gspo.toList (Tables.run digest calls).resolve
          {q | q ∈ quads} ts := by
  refine ⟨fun hf => ?_, fun digest hroom => (Tables.kept_run hroom).listsGraphs⟩
  rw [← content_run hf]
  exact ((reachable_run calls).valid hf).1.listsGraphs hf

/-- One graph is emptied again, and one that had its number early gets its quad late. To tables that
take the last byte of a record for its digest, two other graphs are the same: what is to go to the
second one is refused, after a new term was numbered. -/
theorem run_lists_graphs_collided :
    let digest : Bytes → Bytes := fun record => record.getLast?.toList
    let q : Quad := ⟨.iri "x:a", .iri "x:p", .blank "b", .defaultGraph⟩
    let emptied : Quad := { q with graph := .iri "x:k" }
    let calls : List Call := [.intern (.iri "x:j"),
      .insertAll [emptied, { q with graph := .iri "x:g" }, q],
      .insertAll [{ q with object := .iri "x:n", graph := .iri "y:g" }], .reopen,
      .insertAll [{ q with graph := .iri "x:j" }], .eraseAll [emptied]]
    (run calls).Fits ∧ Tables.HasRoom digest {} calls ∧
      ListsGraphs (run calls).gspo.toList (run calls).resolve (contents calls)
        [.iri "x:j", .iri "x:g", .defaultGraph, .iri "y:g"] ∧
      ∃ quads, (Tables.run digest calls).scan digest {} = .ok quads ∧
        ListsGraphs (Tables.run digest calls).gspo.toList (Tables.run digest calls).resolve
          {q | q ∈ quads} [.iri "x:j", .iri "x:g", .defaultGraph] := by
  intro digest q emptied calls
  have hf : (run calls).Fits := by decide +kernel
  have hroom : Tables.HasRoom digest {} calls := by decide +kernel
  obtain ⟨hstore, htables⟩ := run_lists_graphs calls
  obtain ⟨quads, ts, hscan, hts, hlists⟩ := htables digest hroom
  have hgraphs : (run calls).graphs = [.iri "x:j", .iri "x:g", .defaultGraph, .iri "y:g"] := by
    decide +kernel
  have hfew : (Tables.run digest calls).graphs = .ok [.iri "x:j", .iri "x:g", .defaultGraph] := by
    decide +kernel
  obtain rfl := Except.ok.inj (hts.symm.trans hfew)
  exact ⟨hf, hroom, hgraphs ▸ hstore hf, quads, hscan, hlists⟩

end Store
end DualStore
