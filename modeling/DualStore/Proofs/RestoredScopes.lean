import DualStore.Proofs.Checks
import DualStore.Proofs.Rebuilding

/-! What a rebuild restores. Whatever the index held, the scope of the rebuild comes to hold what
stands for the quads of the store, the rest stays, and nothing is left to do for a second rebuild
(`Scope.rebuild_restores`). -/

namespace DualStore

variable {m : SortedSet Quad} {u : Quad} {graph : Option Term} {space : String} {store : Store}
  {settings : Settings} {side : IndexState MemoryIndex}

theorem Store.Valid.length_scan_ofGraph (h : store.Valid) (hf : store.Fits)
    (graph : Option Term) :
    (store.scan (.ofGraph graph)).length = (Quad.within graph store.quads).size :=
  ((h.source_lawful hf).length_matching graph).trans (Quad.size_within graph _).symm

namespace Scope

theorem within_rebuilt (hs : store.Valid) (hf : store.Fits) (hq : ∀ q ∈ store.quads, q.Storable) :
    Quad.within graph (rebuilt graph m (store.scan (.ofGraph graph))) =
      Quad.skolemizeAll (Quad.within graph store.quads) := by
  refine SortedSet.ext fun u => ?_
  rw [Quad.mem_within, mem_rebuilt hs hf hq]
  constructor
  · rintro ⟨hu, haccepts⟩
    rw [if_pos haccepts] at hu
    obtain ⟨q, h, rfl⟩ := Quad.mem_skolemizeAll.mp hu
    rw [(hq q h).accepts_skolemize] at haccepts
    exact Quad.mem_skolemizeAll.mpr ⟨q, Quad.mem_within.mpr ⟨h, haccepts⟩, rfl⟩
  · intro hu
    obtain ⟨q, h, rfl⟩ := Quad.mem_skolemizeAll.mp hu
    obtain ⟨h, haccepts⟩ := Quad.mem_within.mp h
    rw [(hq q h).accepts_skolemize, if_pos haccepts]
    exact ⟨Quad.mem_skolemizeAll.mpr ⟨q, h, rfl⟩, haccepts⟩

theorem outside_rebuilt (hs : store.Valid) (hf : store.Fits)
    (hq : ∀ q ∈ store.quads, q.Storable) :
    Quad.outside graph (rebuilt graph m (store.scan (.ofGraph graph))) = Quad.outside graph m := by
  refine SortedSet.ext fun u => ?_
  rw [Quad.mem_outside, Quad.mem_outside, mem_rebuilt hs hf hq]
  exact and_congr_left fun houtside => by rw [if_neg houtside]

/-- What was rebuilt is rebuilt as it is. -/
theorem rebuilt_rebuilt (hs : store.Valid) (hf : store.Fits)
    (hq : ∀ q ∈ store.quads, q.Storable) :
    rebuilt graph (rebuilt graph m (store.scan (.ofGraph graph))) (store.scan (.ofGraph graph)) =
      rebuilt graph m (store.scan (.ofGraph graph)) := by
  refine SortedSet.ext fun u => ?_
  rw [mem_rebuilt hs hf hq, mem_rebuilt hs hf hq]
  split <;> rfl

/-- An index that is on, and does not hold updates back for longer than the service waits, is
rebuilt whatever it held before and whatever the size of the pieces: its scope comes to hold what
stands for the quads that the store has there, nothing else changes, and a second rebuild changes
nothing. An index that holds updates back for longer is not rebuilt, and all that it holds stays.

An update that is held back for exactly as long as the service waits is served here. With clocks,
two timers end at the same time then, and either may be noticed first. -/
theorem rebuild_restores (settings : Settings) (space : String) (hs : store.Reachable)
    (hf : store.Fits) (hq : ∀ q ∈ store.quads, q.Normal) (hg : IsGraphScope graph)
    (hav : side.index.available = true) :
    (side.index.delay ≤ settings.indexTimeout →
      ∃ side', rebuild settings space store graph side =
          (.ok (Quad.within graph store.quads).size, side') ∧
        Quad.within graph (side'.index.held space) =
          Quad.skolemizeAll (Quad.within graph store.quads) ∧
        Quad.outside graph (side'.index.held space) =
          Quad.outside graph (side.index.held space) ∧
        side.AgreesBut space side' ∧ side'.next = side.next ∧
        rebuild settings space store graph side' =
          (.ok (Quad.within graph store.quads).size, side')) ∧
    (settings.indexTimeout < side.index.delay →
      ∃ side', rebuild settings space store graph side =
          (.error (.indexWrite (.timedOut settings.indexTimeout)), side') ∧
        ∀ other, side'.index.held other = side.index.held other) := by
  obtain ⟨hvalid, hstorable⟩ := hs.valid hf
  have hboth : ∀ q ∈ store.quads, q.Normal ∧ q.Storable := fun q h => ⟨hq q h, hstorable q h⟩
  constructor
  · intro hdelay
    have hr : side.Ready settings := ⟨hav, hdelay⟩
    rw [← hvalid.length_scan_ofGraph hf]
    refine ⟨_, rebuild_run space hr hvalid hf hboth hg, ?_, ?_,
      side.agreesBut_withDataset space _, rfl, ?_⟩
    · rw [IndexState.held_withDataset]
      exact within_rebuilt hvalid hf hstorable
    · rw [IndexState.held_withDataset]
      exact outside_rebuilt hvalid hf hstorable
    · have hr' := (side.agreesBut_withDataset space (rebuilt graph (side.index.held space)
        (store.scan (.ofGraph graph)))).ready hr
      rw [rebuild_run space hr' hvalid hf hboth hg, IndexState.held_withDataset,
        rebuilt_rebuilt hvalid hf hstorable, IndexState.withDataset_withDataset]
  · intro hlate
    refine ⟨_, rebuild_of_late space store graph hav hlate, fun other => ?_⟩
    by_cases hother : other = space
    · rw [hother, IndexState.held_withDataset]
    · have hagrees := side.agreesBut_withDataset space (side.index.held space)
      rw [MemoryIndex.held, hagrees.dataset other hother, MemoryIndex.held]

/-- The default graph is rebuilt quad by quad, with a blank node in it; a stale quad goes, and the
one of another graph stays. -/
theorem rebuild_restores_stale :
    let q : Quad := ⟨.blank "b", .iri "x:p", .plain "v", .defaultGraph⟩
    let u : Quad := ⟨.iri "x:a", .iri "x:p", .blank "b", .defaultGraph⟩
    let v : Quad := ⟨.iri "x:a", .iri "x:p", .plain "v", .iri "x:g"⟩
    let stale : Quad := ⟨.iri "x:a", .iri "x:q", .plain "w", .defaultGraph⟩
    let store := ([q, u].foldl (fun r q => Store.perform r ⟨.insert, q⟩) ({}, {})).1
    let side : IndexState MemoryIndex :=
      { index := { datasets := (∅ : SortedMap _ _).insert "s" (.ofList [stale, v]) } }
    let settings : Settings := { chunkSize := 0 }
    ∃ side', rebuild settings "s" store (some .defaultGraph) side = (.ok 2, side') ∧
      Quad.within (some .defaultGraph) (side'.index.held "s") =
        .ofList [q.skolemize, u.skolemize] ∧
      Quad.outside (some .defaultGraph) (side'.index.held "s") = .ofList [v] ∧
      rebuild settings "s" store (some .defaultGraph) side' = (.ok 2, side') := by
  intro q u v stale store side settings
  have hwrite : ({} : Store).write [⟨.insert, q⟩, ⟨.insert, u⟩] = .ok (store, ⟨2, 0⟩) := by
    decide +kernel
  have hs : store.Reachable := .write .empty hwrite
  have hf : store.Fits := by decide +kernel
  have hq : ∀ q ∈ store.quads, q.Normal := by decide +kernel
  have hg : IsGraphScope (some .defaultGraph) := fun g h =>
    ⟨_, (Option.some.inj h).symm, by decide +kernel⟩
  have hsize : (Quad.within (some .defaultGraph) store.quads).size = 2 := by decide +kernel
  have hav : side.index.available = true := rfl
  obtain ⟨side', hrun, hwithin, houtside, -, -, hagain⟩ :=
    (rebuild_restores settings "s" hs hf hq hg hav).1 (Nat.zero_le _)
  rw [hsize] at hrun hagain
  exact ⟨side', hrun, hwithin.trans (by decide +kernel), houtside.trans (by decide +kernel), hagain⟩

/-- A rebuild fails while the index holds updates back for longer than the service waits. -/
theorem rebuild_held_back :
    let q : Quad := ⟨.iri "x:a", .iri "x:p", .plain "v", .defaultGraph⟩
    let store := (Store.perform ({}, {}) ⟨.insert, q⟩).1
    let side : IndexState MemoryIndex := { index := { delay := 3000 } }
    let settings : Settings := { indexTimeout := 20 }
    store.Reachable ∧ store.Fits ∧ (∀ q ∈ store.quads, q.Normal) ∧
      side.index.available = true ∧ (Quad.within none store.quads).size = 1 ∧
      ¬ ∃ n side', rebuild settings "s" store none side = (.ok n, side') := by
  intro q store side settings
  have hwrite : ({} : Store).write [⟨.insert, q⟩] = .ok (store, ⟨1, 0⟩) := by decide +kernel
  have hav : side.index.available = true := rfl
  have hlate : settings.indexTimeout < side.index.delay := by decide
  refine ⟨.write .empty hwrite, by decide +kernel, by decide +kernel, hav, by decide +kernel, ?_⟩
  rintro ⟨n, side', hrun⟩
  rw [rebuild_of_late "s" store none hav hlate] at hrun
  cases hrun

end Scope
end DualStore
