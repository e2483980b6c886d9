import DualStore.Proofs.Rebuilding
import DualStore.Proofs.RefusedRequests
import DualStore.Proofs.ServiceCalls

/-! Rebuilds that are interrupted. Once a scope was emptied, a failure leaves out the pieces that
were not replayed yet and records nothing, so the graphs of these pieces are lost for the index
unless they had been recorded before (`Service.interrupted_rebuild_iff`). -/

namespace DualStore

/-! ## An index that may fail -/

/-- An index in memory any call to which may fail. A failure has no effect; what becomes of a call
depends on how many were served before it. -/
structure FlakyIndex where
  memory : MemoryIndex
  /-- What goes wrong after so many calls that were served. -/
  faults : Nat → Option IndexFault
  served : Nat := 0

namespace FlakyIndex

variable {α : Type} {i : FlakyIndex}

def attempt (i : FlakyIndex) (x : Except IndexFault α) : Except IndexFault α :=
  match i.faults i.served with
  | some fault => .error fault
  | none => x

def after (i : FlakyIndex) (memory : MemoryIndex) : FlakyIndex :=
  { i with memory, served := i.served + 1 }

instance : TripleIndex FlakyIndex where
  create space i := i.attempt ((i.memory.create space).map i.after)
  remove space i := i.attempt ((i.memory.remove space).map i.after)
  delay i := i.memory.delay
  update space text next i := i.attempt
    ((i.memory.update space text next).map fun (memory, next) => (i.after memory, next))
  query space text next i := i.attempt (i.memory.query space text next)

/-- What the index holds of a space. -/
def mirror (i : FlakyIndex) (space : String) : SortedSet Quad := i.memory.held space

private theorem eq_ok_of_attempt {x : Except IndexFault α} {a : α} (h : i.attempt x = .ok a) :
    x = .ok a := by
  unfold attempt at h
  split at h
  · cases h
  · exact h

end FlakyIndex

variable {side side' : IndexState FlakyIndex} {space text : String} {graph : Option Term}
  {q u : Quad} {qs : List Quad} {fault : IndexFault} {settings : Settings} {store : Store}

namespace IndexM

/-! ## Calls that are served -/

theorem create_served (h : create space side = (.ok (), side')) :
    side'.index.served = side.index.served + 1 ∧
      side'.index.mirror space = side.index.mirror space := by
  unfold create at h
  split at h
  next index hcreate =>
    obtain ⟨-, rfl⟩ := Prod.mk.inj h
    obtain ⟨memory, hmemory, rfl⟩ := map_eq_ok.mp (FlakyIndex.eq_ok_of_attempt hcreate)
    exact ⟨rfl, MemoryIndex.held_of_create hmemory⟩
  next => cases h

theorem updateWithin_served {limit : Nat}
    (h : updateWithin limit space text side = (.ok (), side')) :
    side'.index.served = side.index.served + 1 ∧
      MemoryIndex.update space text side.next side.index.memory =
        .ok (side'.index.memory, side'.next) := by
  unfold updateWithin at h
  split at h
  · cases h
  unfold update at h
  split at h
  next index next hupdate =>
    obtain ⟨-, rfl⟩ := Prod.mk.inj h
    obtain ⟨⟨memory, next⟩, hmemory, heq⟩ := map_eq_ok.mp (FlakyIndex.eq_ok_of_attempt hupdate)
    cases heq
    exact ⟨rfl, hmemory⟩
  next => cases h

/-- A call that fails has no effect. -/
theorem create_failed (h : create space side = (.error fault, side')) : side' = side := by
  unfold create at h
  split at h
  · cases h
  · exact (Prod.mk.inj h).2.symm

theorem updateWithin_failed {limit : Nat}
    (h : updateWithin limit space text side = (.error fault, side')) : side' = side := by
  unfold updateWithin at h
  split at h
  · exact (Prod.mk.inj h).2.symm
  unfold update at h
  split at h
  · cases h
  · exact (Prod.mk.inj h).2.symm

theorem drop_served {limit : Nat} (hg : IsGraphScope graph)
    (h : updateWithin limit space (Request.drop graph) side = (.ok (), side')) :
    side'.index.served = side.index.served + 1 ∧ ∀ u, u ∈ side'.index.mirror space ↔
      u ∈ side.index.mirror space ∧ (QuadPattern.ofGraph graph).accepts u = false := by
  obtain ⟨hserved, hupdate⟩ := updateWithin_served h
  obtain ⟨hav, m, -, hm, -, -⟩ := MemoryIndex.update_eq_ok.mp hupdate
  rw [MemoryIndex.update_drop hg hav hm, Except.ok.injEq, Prod.mk.injEq] at hupdate
  refine ⟨hserved, fun u => ?_⟩
  rw [FlakyIndex.mirror, FlakyIndex.mirror, ← hupdate.1, MemoryIndex.held, MemoryIndex.held,
    SortedMap.get?_insert, if_pos rfl, hm, Option.getD_some, Option.getD_some,
    SortedSet.mem_filter, Bool.not_eq_true']

/-- All quads of an insertion that is served are added. -/
theorem insert_served {limit : Nat} (hqs : ∀ q ∈ qs, q.Storable)
    (h : updateWithin limit space (Request.insertData qs) side = (.ok (), side')) :
    side'.index.served = side.index.served + 1 ∧ ∀ u, u ∈ side'.index.mirror space ↔
      u ∈ side.index.mirror space ∨ ∃ q ∈ qs, q.skolemize = u := by
  obtain ⟨hserved, hupdate⟩ := updateWithin_served h
  obtain ⟨hav, m, -, hm, -, -⟩ := MemoryIndex.update_eq_ok.mp hupdate
  have hnormal := MemoryIndex.normal_of_update_insertData hqs hupdate
  rw [MemoryIndex.update_insertData (fun q hq => ⟨hnormal q hq, hqs q hq⟩) hav hm,
    Except.ok.injEq, Prod.mk.injEq] at hupdate
  refine ⟨hserved, fun u => ?_⟩
  rw [FlakyIndex.mirror, FlakyIndex.mirror, ← hupdate.1, MemoryIndex.held, MemoryIndex.held,
    SortedMap.get?_insert, if_pos rfl, hm, Option.getD_some, Option.getD_some,
    Operation.mem_applyAll_inserts, List.mem_map, or_comm]

end IndexM

namespace Scope

/-! ## Interrupted rebuilds -/

/-- The pieces before the one that fails are added. -/
theorem replay_interrupted {pieces : List (List Quad)} (hq : ∀ q ∈ pieces.flatten, q.Storable)
    (h : replay settings space pieces side = (.error fault, side')) :
    ∃ n, side'.index.served = side.index.served + n ∧ ∀ u, u ∈ side'.index.mirror space ↔
      u ∈ side.index.mirror space ∨ ∃ q ∈ (pieces.take n).flatten, q.skolemize = u := by
  induction pieces generalizing side with
  | nil => cases h
  | cons quads pieces ih =>
    rw [List.flatten_cons] at hq
    rw [replay, bind_run] at h
    rcases hcall : IndexM.updateWithin settings.indexTimeout space (Request.insertData quads) side
      with ⟨fault' | ⟨⟩, side₁⟩
    · rw [hcall] at h
      cases h
      obtain rfl := IndexM.updateWithin_failed hcall
      exact ⟨0, rfl, fun u => by simp⟩
    · rw [hcall] at h
      obtain ⟨hserved, hmirror⟩ :=
        IndexM.insert_served (fun q h => hq q (List.mem_append_left _ h)) hcall
      obtain ⟨n, hserved', hmirror'⟩ := ih (fun q h => hq q (List.mem_append_right _ h)) h
      refine ⟨n + 1, by rw [hserved', hserved]; omega, fun u => ?_⟩
      simp only [hmirror', hmirror, List.take_succ_cons, List.flatten_cons, List.mem_append,
        or_and_right, exists_or, or_assoc]

/-- Before the scope is emptied nothing changes. After that it holds what was replayed. -/
theorem rebuild_interrupted {e : Error} (hg : IsGraphScope graph)
    (hq : ∀ q ∈ store.scan (.ofGraph graph), q.Storable)
    (h : rebuild settings space store graph side = (.error e, side')) :
    ∃ n, side'.index.served = side.index.served + n ∧
      if n < 2 then side'.index.mirror space = side.index.mirror space
      else ∀ u, u ∈ side'.index.mirror space ↔
        u ∈ side.index.mirror space ∧ (QuadPattern.ofGraph graph).accepts u = false ∨
        ∃ q ∈ ((chunks settings.chunkSize (store.scan (.ofGraph graph))).take (n - 2)).flatten,
          q.skolemize = u := by
  rw [rebuild, CheckM.writing, adapt_run, bind_run] at h
  rcases hcreate : IndexM.create space side with ⟨fault | ⟨⟩, side₁⟩
  · rw [hcreate] at h
    cases h
    obtain rfl := IndexM.create_failed hcreate
    exact ⟨0, rfl, rfl⟩
  rw [hcreate] at h
  dsimp only at h
  rw [bind_run] at h
  obtain ⟨hserved₁, hmirror₁⟩ := IndexM.create_served hcreate
  rcases hdrop : IndexM.updateWithin settings.indexTimeout space (Request.drop graph) side₁
    with ⟨fault | ⟨⟩, side₂⟩
  · rw [hdrop] at h
    cases h
    obtain rfl := IndexM.updateWithin_failed hdrop
    exact ⟨1, hserved₁, hmirror₁⟩
  rw [hdrop] at h
  dsimp only at h
  rw [bind_run] at h
  obtain ⟨hserved₂, hmirror₂⟩ := IndexM.drop_served hg hdrop
  rcases hreplay : replay settings space (chunks settings.chunkSize
    (store.scan (.ofGraph graph))) side₂ with ⟨fault | ⟨⟩, side₃⟩
  · rw [hreplay] at h
    dsimp only at h
    obtain ⟨-, rfl⟩ := Prod.mk.inj h
    obtain ⟨n, hserved₃, hmirror₃⟩ :=
      replay_interrupted (fun q h => hq q (by rwa [flatten_chunks] at h)) hreplay
    refine ⟨n + 2, by omega, ?_⟩
    rw [if_neg (by omega)]
    intro u
    rw [hmirror₃, hmirror₂, hmirror₁, Nat.add_sub_cancel]
  · rw [hreplay] at h
    cases h

end Scope

namespace Service

variable {s s' : Service FlakyIndex} {name : String} {g : Term} {e : Error}

/-- The graph is the one that is rebuilt, or all are. -/
def InScope (graph : Option Term) (g : Term) : Prop := ∀ h, graph = some h → h = g

private theorem accepts_ofGraph_iff (hu : u.graph = g) :
    (QuadPattern.ofGraph graph).accepts u = true ↔ InScope graph g := by
  subst hu
  cases graph with
  | none => exact iff_of_true rfl nofun
  | some h =>
    rw [QuadPattern.accepts_ofGraph]
    exact ⟨fun he g hg => Option.some.inj hg ▸ he.symm, fun hin => (hin h rfl).symm⟩

/-- What a graph of the store and its image in the index come to once the pieces `done` of a scope
were replayed and the pieces `todo` were not. -/
private theorem agreeOn_iff_of_replayed {m m' : SortedSet Quad} {done todo : List Quad}
    (hs : store.Valid) (hf : store.Fits) (hq : ∀ q ∈ store.quads, q.Storable)
    (hscan : store.scan (.ofGraph graph) = done ++ todo)
    (hm : m.AgreeOn (·.graph == g) (Quad.skolemizeAll store.quads))
    (hm' : ∀ u, u ∈ m' ↔ u ∈ m ∧ (QuadPattern.ofGraph graph).accepts u = false ∨
      ∃ q ∈ done, q.skolemize = u) :
    m'.AgreeOn (·.graph == g) (Quad.skolemizeAll store.quads) ↔
      ¬ InScope graph g ∨ ∀ q ∈ todo, q.graph ≠ g := by
  have hmem : ∀ q, q ∈ done ∨ q ∈ todo ↔
      q ∈ store.quads ∧ (QuadPattern.ofGraph graph).accepts q = true := by
    intro q
    rw [← List.mem_append, ← hscan, hs.mem_scan hf]
  have hgraph : ∀ q ∈ store.quads, q.skolemize.graph = q.graph :=
    fun q h => Term.skolemize_of_isIri (hq q h).graph
  by_cases hin : InScope graph g
  · have hm' : ∀ u, u.graph = g → (u ∈ m' ↔ ∃ q ∈ done, q.skolemize = u) := by
      intro u hu
      rw [hm', (accepts_ofGraph_iff hu).mpr hin]
      simp only [Bool.true_eq_false, and_false, false_or]
    rw [or_iff_right (not_not_intro hin)]
    constructor
    · rintro hagree q hqt rfl
      have hqs := ((hmem q).mp (.inr hqt)).1
      have hu : q.skolemize.graph = q.graph := hgraph q hqs
      have hdone := (hagree q.skolemize (beq_iff_eq.mpr hu)).mpr
        (Quad.mem_skolemizeAll.mpr ⟨q, hqs, rfl⟩)
      obtain ⟨q', hqd, he⟩ := (hm' _ hu).mp hdone
      have hqs' := ((hmem q').mp (.inl hqd)).1
      -- no quad is listed twice, so this one was not replayed with another piece
      obtain rfl := (hq q' hqs').skolemize_inj (hq q hqs) he
      have hnodup := (hs.source_lawful hf (.ofGraph graph)).1
      rw [show store.source.matching (.ofGraph graph) = done ++ todo from hscan] at hnodup
      exact List.disjoint_of_nodup_append hnodup hqd hqt
    · intro htodo u hu
      have hu := beq_iff_eq.mp hu
      rw [hm' u hu, Quad.mem_skolemizeAll]
      constructor
      · rintro ⟨q, hqd, rfl⟩
        exact ⟨q, ((hmem q).mp (.inl hqd)).1, rfl⟩
      · rintro ⟨q, hqs, rfl⟩
        have hqg : q.graph = g := (hgraph q hqs).symm.trans hu
        have := (hmem q).mpr ⟨hqs, (accepts_ofGraph_iff hqg).mpr hin⟩
        exact ⟨q, this.resolve_right fun h => htodo q h hqg, rfl⟩
  · refine iff_of_true (fun u hu => ?_) (.inl hin)
    have hug := beq_iff_eq.mp hu
    rw [← hm u hu, hm', Bool.eq_false_iff.mpr fun h => hin ((accepts_ofGraph_iff hug).mp h)]
    refine (or_iff_left ?_).trans (and_iff_left rfl)
    rintro ⟨q, hqd, rfl⟩
    obtain ⟨hqs, haccepts⟩ := (hmem q).mp (.inl hqd)
    exact hin ((accepts_ofGraph_iff ((hgraph q hqs).symm.trans hug)).mp haccepts)

/-- After a rebuild that fails, a graph that the index followed before is followed still or
recorded, unless it was not recorded before, its scope was emptied, and a piece that was not
replayed holds quads of it. -/
theorem interrupted_rebuild_iff (hget : s.registry.get name = .ok store) (hs : store.Reachable)
    (hf : store.Fits) (hg : IsGraphScope graph) (hrun : rebuild name graph s = (.error e, s'))
    (hagree : (s.side.index.mirror name).AgreeOn (·.graph == g)
      (Quad.skolemizeAll store.quads)) :
    let served := s'.side.index.served - s.side.index.served
    let pieces := chunks s.settings.chunkSize (store.scan (.ofGraph graph))
    s'.registry = s.registry ∧
    ((s'.side.index.mirror name).AgreeOn (·.graph == g) (Quad.skolemizeAll store.quads) ∨
        s'.backlog.Covers name g ↔
      s.backlog.Covers name g ∨ served < 2 ∨ ¬ InScope graph g ∨
        ∀ q ∈ (pieces.drop (served - 2)).flatten, q.graph ≠ g) := by
  intro served pieces
  obtain ⟨hvalid, hstorable⟩ := hs.valid hf
  have hregistry := registry_rebuild name graph s
  have hbacklog := backlog_rebuild name graph s
  rw [hrun] at hregistry hbacklog
  refine ⟨hregistry, ?_⟩
  rw [rebuild_run, hget, Prod.mk.injEq] at hrun
  obtain ⟨hrebuild, rfl⟩ := hrun
  obtain ⟨n, hserved, hmirror⟩ := Scope.rebuild_interrupted hg
    (fun q h => hstorable q ((hvalid.mem_scan hf).mp h).1) (Prod.ext hrebuild rfl)
  have hn : served = n := Nat.sub_eq_of_eq_add' hserved
  rw [hn, hbacklog]
  by_cases hlt : n < 2
  · rw [if_pos hlt] at hmirror
    refine iff_of_true (.inl ?_) (.inr (.inl hlt))
    dsimp only
    rw [hmirror]
    exact hagree
  · rw [if_neg hlt] at hmirror
    have hscan : store.scan (.ofGraph graph) =
        (pieces.take (n - 2)).flatten ++ (pieces.drop (n - 2)).flatten := by
      rw [← List.flatten_append, List.take_append_drop, flatten_chunks]
    have hiff := agreeOn_iff_of_replayed hvalid hf hstorable hscan hagree hmirror
    dsimp only
    rw [hiff, or_iff_right hlt, or_comm]

/-- A string that lacks a language keeps its space from being rebuilt: the graph that it is in was
recorded when it was written, but the default graph is lost for the index. -/
theorem interrupted_rebuild_iff_untagged :
    let q : Quad := ⟨.iri "x:a", .iri "x:p", .plain "v", .defaultGraph⟩
    let u : Quad := ⟨.iri "x:a", .iri "x:p", .untagged "v", .iri "x:g"⟩
    let first := (Store.perform ({}, {}) ⟨.insert, q⟩).1
    let store := (Store.perform (first, {}) ⟨.insert, u⟩).1
    let memory : MemoryIndex :=
      { datasets := (∅ : SortedMap _ _).insert "s" (Quad.skolemizeAll (.ofList [q])) }
    let s : Service FlakyIndex :=
      { registry := ⟨(∅ : SortedMap _ _).insert "s" ⟨⟨"s", "1"⟩, store⟩⟩
        backlog := (({} : Backlog).record "s" (some u.graph) "refused").2
        side := { index := ⟨memory, fun _ => none, 0⟩ } }
    let s' := (rebuild "s" none s).2
    store.Reachable ∧ (∃ e, rebuild "s" none s = (.error e, s')) ∧
      (s.side.index.mirror "s").AgreeOn (·.graph == q.graph) (Quad.skolemizeAll store.quads) ∧
      ¬ ((s'.side.index.mirror "s").AgreeOn (·.graph == q.graph)
          (Quad.skolemizeAll store.quads) ∨ s'.backlog.Covers "s" q.graph) := by
  intro q u first store memory s s'
  have hfirst : ({} : Store).write [⟨.insert, q⟩] = .ok (first, ⟨1, 0⟩) := by decide +kernel
  have hsecond : first.write [⟨.insert, u⟩] = .ok (store, ⟨1, 0⟩) := by decide +kernel
  have hs : store.Reachable := .write (.write .empty hfirst) hsecond
  have hf : store.Fits := by decide +kernel
  have hget : s.registry.get "s" = .ok store := by decide +kernel
  have hagree : (s.side.index.mirror "s").AgreeOn (·.graph == q.graph)
      (Quad.skolemizeAll store.quads) := by decide +kernel
  have hpending : s.backlog.pending = [⟨"s", some u.graph, "refused", 0⟩] := by decide +kernel
  have hfails : (match rebuild "s" none s with
      | (.ok _, _) => none
      | (.error _, t) => some t.side.index.served) = some 2 := by decide +kernel
  obtain ⟨e, hrun, hserved⟩ : ∃ e, rebuild "s" none s = (.error e, s') ∧
      s'.side.index.served - s.side.index.served = 2 := by
    split at hfails
    next => cases hfails
    next e t h =>
      have ht : s' = t := congrArg Prod.snd h
      exact ⟨e, by rw [ht, h], by rw [ht]; exact Option.some.inj hfails⟩
  refine ⟨hs, ⟨e, hrun⟩, hagree, ?_⟩
  rw [(interrupted_rebuild_iff hget hs hf isGraphScope_none hrun hagree).2, hserved]
  rintro (⟨entry, hentry, -, hgraph⟩ | hlt | hscope | hleft)
  · rw [hpending, List.mem_singleton] at hentry
    subst hentry
    rcases hgraph with hgraph | hgraph
    · cases hgraph
    · exact absurd (Option.some.inj hgraph) (by decide)
  · omega
  · exact hscope nofun
  · have hq : q ∈ store.scan (.ofGraph none) := by decide +kernel
    rw [Nat.sub_self, List.drop_zero, flatten_chunks] at hleft
    exact hleft q hq rfl

end Service
end DualStore
