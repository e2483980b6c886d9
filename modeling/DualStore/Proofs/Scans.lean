import DualStore.Proofs.Checks
import DualStore.Proofs.GraphLists
import DualStore.Proofs.TableRuns

/-! How stores and tables answer. A scan of any ordering finds each quad that a pattern accepts, and
what is counted is what a scan finds (`Store.Valid.answers`). Tables answer as the store does that
they keep (`Tables.Sound.scan`, `Tables.Sound.count`, `Tables.Sound.graphs`). -/

namespace DualStore

/-! ## Stores -/

namespace Quad

variable {s : SortedSet Quad} {gs : List Term}

theorem countIn_none (s : SortedSet Quad) : countIn none s = s.size := by
  rw [countIn, SortedSet.size]
  exact List.countP_eq_length.mpr fun _ _ => rfl

theorem countIn_some (g : Term) (s : SortedSet Quad) :
    countIn (some g) s = (s.toList.map Quad.graph).count g := by
  rw [countIn, List.count, List.countP_map]
  refine List.countP_congr fun q _ => ?_
  rw [QuadPattern.accepts_ofGraph, Function.comp_apply, beq_iff_eq]

/-- Every quad is counted in its graph. -/
theorem sum_countIn (hgs : gs.Nodup) (h : ∀ t, t ∈ gs ↔ ∃ q ∈ s, q.graph = t) :
    (gs.map fun g => countIn (some g) s).sum = countIn none s := by
  have hperm : gs.Perm (s.toList.map Quad.graph).dedup := by
    refine (List.perm_ext_iff_of_nodup hgs (List.nodup_dedup _)).mpr fun t => ?_
    simp only [h, List.mem_dedup, List.mem_map, SortedSet.mem_toList]
  simp only [countIn_some, countIn_none]
  rw [(hperm.map _).sum_eq, List.sum_map_count_dedup_eq_length, List.length_map, SortedSet.size]

end Quad

namespace Store

variable {s : Store}

/-- Patterns are answered right from every ordering, each quad once, and what is counted is what is
found. -/
structure Answers (s : Store) (content : Set Quad) : Prop where
  once : ∀ p, (s.scan p).Nodup
  found : ∀ p q, q ∈ s.scan p ↔ q ∈ content ∧ p.accepts q = true
  fromAny : ∀ o p, (s.scanIn o p).Perm (s.scan p)
  all : s.count none = content.ncard
  inGraph : ∀ g, s.count (some g) = (s.scan { graph := some g }).length
  overGraphs : (s.graphs.map fun g => s.count (some g)).sum = s.count none

theorem Valid.scanIn_perm (h : s.Valid) (hf : s.Fits) (o : KeyOrder) (p : QuadPattern) :
    (s.scanIn o p).Perm (s.scan p) := by
  obtain ⟨hnodup, hmem⟩ := h.source_lawful hf p
  exact (List.perm_ext_iff_of_nodup (h.nodup_scanIn hf o p) hnodup).mpr fun q =>
    (h.mem_scanIn hf).trans (hmem q).symm

theorem ncard_content (s : Store) : s.content.ncard = s.quads.size := by
  have hcoe : s.content = ↑s.quads.toList.toFinset := Set.ext fun q => List.mem_toFinset.symm
  rw [hcoe, Set.ncard_coe_finset, List.toFinset_card_of_nodup (SortedSet.nodup _), SortedSet.size]

theorem Valid.answers (h : s.Valid) (hf : s.Fits) : s.Answers s.content where
  once p := (h.source_lawful hf p).1
  found _ _ := h.mem_scan hf
  fromAny := h.scanIn_perm hf
  all := by rw [h.count hf, Quad.countIn_none, ncard_content]
  inGraph g := by
    rw [h.count hf]
    exact ((h.source_lawful hf).length_matching (some g)).symm
  overGraphs := by
    simp only [h.count hf]
    exact Quad.sum_countIn (h.listsGraphs hf).once (h.listsGraphs hf).mem

end Store

/-! ## Tables -/

namespace Tables

variable {digest : Bytes → Bytes} {T : Tables} {s : Store}

theorem Sound.countKeys (h : T.Sound digest s) (o : KeyOrder) (p : IdPattern) {keys : List Bytes}
    (hkeys : ∀ key ∈ keys, key ∈ s.keys o) : countKeys o p keys =
      .ok ((keys.filterMap fun key => (o.decode key).toOption).filter p.accepts).length := by
  induction keys with
  | nil => rfl
  | cons key keys ih =>
    obtain ⟨ids, hids, rfl⟩ := (h.valid.keys o key).mp (hkeys key List.mem_cons_self)
    have ih := ih fun key hkey => hkeys key (List.mem_cons_of_mem _ hkey)
    rw [Tables.countKeys, KeyOrder.decode_encode, List.filterMap_cons, KeyOrder.decode_encode, ih]
    dsimp only [Except.toOption]
    rw [List.filter_cons]
    change Except.ok _ = Except.ok _
    split <;> rfl

/-- Sound tables count what the store counts. -/
theorem Sound.count (h : T.Sound digest s) {graph : Option Term}
    (hgraph : ∀ g, graph = some g → Apart digest s.dictionary g) :
    T.count digest graph = .ok (s.count graph) := by
  cases graph with
  | none =>
    have hspog : T.spog = s.spog := h.models.keys .spog
    rw [Tables.count, hspog]
    rfl
  | some g =>
    rw [Tables.count, Store.count, h.models.lookup_eq h.valid h.fits (hgraph g rfl)]
    cases s.dictionary.lookup? g with
    | none => rfl
    | some id =>
      refine (h.countKeys _ _ fun key hkey => ?_).trans ?_
      · rw [h.models.keys] at hkey
        exact List.mem_of_mem_filter hkey
      · rw [h.models.keys]
        rfl

/-- Sound tables list the graphs that the store lists. -/
theorem Sound.graphs (h : T.Sound digest s) : T.graphs = .ok s.graphs := by
  have hgspo : T.gspo = s.gspo := h.models.keys .gspo
  have hresolve : ∀ ids : List TermId, (∀ id ∈ ids, ∃ t, s.dictionary.resolve? id = some t) →
      ids.mapM T.resolve = .ok (ids.filterMap s.dictionary.resolve?) := by
    intro ids hids
    induction ids with
    | nil => rfl
    | cons id ids ih =>
      obtain ⟨t, ht⟩ := hids id List.mem_cons_self
      rw [List.mapM_cons, h.models.resolve_eq_ok.mpr ht, List.filterMap_cons_some ht,
        ih fun id hid => hids id (List.mem_cons_of_mem _ hid)]
      rfl
  rw [Tables.graphs, hgspo]
  refine hresolve _ fun id hid => ?_
  obtain ⟨ids, hids, rfl⟩ := h.valid.mem_graphNumbers.mp hid
  obtain ⟨t, ht⟩ := h.valid.numbered ids hids .graph
  exact ⟨t, (h.valid.dictionary.resolve?_eq_some h.fits).mpr ht⟩

end Tables

/-! ## Runs -/

namespace Store

/-- After every run of calls the store answers for the quads that the accepted calls leave. Tables
on which the same calls were made answer alike. -/
theorem run_answers (calls : List Call) (hf : (run calls).Fits) :
    (run calls).Answers (contents calls) ∧
    ∀ digest,
      (∀ p, Tables.NoCollision digest (calls ++ [.scan p]) →
        (Tables.run digest calls).scan digest p = .ok ((run calls).scan p)) ∧
      (∀ g, Tables.NoCollision digest (calls ++ [.lookup g]) →
        (Tables.run digest calls).count digest (some g) = .ok ((run calls).count (some g))) ∧
      (Tables.NoCollision digest calls →
        (Tables.run digest calls).count digest none = .ok ((run calls).count none) ∧
        (Tables.run digest calls).graphs = .ok (run calls).graphs) := by
  have hvalid := ((reachable_run calls).valid hf).1
  have hsound : ∀ {digest}, Tables.NoCollision digest calls →
      (Tables.run digest calls).Sound digest (run calls) := fun h =>
    ⟨Tables.models_run h hf, hvalid, hf⟩
  -- what only reads leaves the run as it is, and looks up the terms that it names
  have hapart : ∀ {digest} {c : Call}, Tables.NoCollision digest (calls ++ [c]) → c.Accepted →
      ∀ t ∈ c.names, Tables.Apart digest (run calls).dictionary t := by
    intro digest c h hc t ht u hu
    obtain ⟨c', hc', hstores⟩ := (knows_run hf u).mp hu
    exact h t ⟨c, List.mem_append_right _ List.mem_cons_self, hc, ht⟩ u
      ⟨c', List.mem_append_left _ hc', hstores⟩
  refine ⟨content_run hf ▸ hvalid.answers hf, fun digest => ⟨fun p h => ?_, fun g h => ?_, ?_⟩⟩
  · exact (hsound h.left).scan (hapart h trivial)
  · refine (hsound h.left).count fun g' hg' => hapart h trivial g' ?_
    exact List.mem_singleton.mpr (Option.some.inj hg').symm
  · exact fun h => ⟨(hsound h).count nofun, (hsound h).graphs⟩

/-- Quads of three graphs, one of which was emptied again. -/
theorem run_answers_emptied :
    let q : Quad := ⟨.iri "x:a", .iri "x:p", .blank "b", .defaultGraph⟩
    let u : Quad := ⟨.iri "x:a", .iri "x:p", .plain "v", .iri "x:g"⟩
    let v : Quad := ⟨.iri "x:a", .iri "x:p", .plain "v", .iri "x:h"⟩
    let calls : List Call := [.insertAll [v, u, q, u], .reopen, .eraseAll [v]]
    (run calls).Fits ∧ (run calls).Answers (contents calls) ∧
      (run calls).scan { object := some (.plain "v") } = [u] ∧
      (run calls).scan { graph := some (.iri "x:unknown") } = [] ∧
      (run calls).graphs = [.iri "x:g", .defaultGraph] ∧ (run calls).count none = 2 := by
  intro q u v calls
  have hf : (run calls).Fits := by decide +kernel
  refine ⟨hf, (run_answers calls hf).1, ?_, ?_, ?_, ?_⟩ <;> decide +kernel

end Store
end DualStore
