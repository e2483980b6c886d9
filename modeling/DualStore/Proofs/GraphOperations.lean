import DualStore.Proofs.ReadNodes

/-! The operations on whole graphs: each does to the graphs what its name says and leaves the others
alone, whatever is staged before it (`Update.planFrom_manages`). With `SILENT` none of them fails.
What it does instead of failing is nothing, except that the destination of a transfer is emptied for
a source that is missing (`Update.planAll_silent`). -/

namespace DualStore

/-- What a transfer between different graphs leaves in them. -/
structure TransferMode.Transfers (mode : TransferMode) (source destination : Term)
    (before after : SortedSet Quad) : Prop where
  filled : ∀ t : Triple, t.inGraph destination ∈ after ↔
    t.inGraph source ∈ before ∨ mode = .add ∧ t.inGraph destination ∈ before
  left : ∀ t : Triple, t.inGraph source ∈ after ↔ t.inGraph source ∈ before ∧ mode ≠ .move
  others : ∀ q : Quad, q.graph ≠ source → q.graph ≠ destination → (q ∈ after ↔ q ∈ before)

namespace Update

open Operation (applyAll lastOnly applyAll_append applyAll_lastOnly)

variable {src : Source} {s : SortedSet Quad} {q : Quad} {ops staged : List Operation} {u : Update}
  {target : GraphTarget} {mode : TransferMode} {silent : Bool} {source destination : Option Term}
  {fault : GraphFault} {next last : Nat}

/-- What an operation on whole graphs leaves of the quads that are there before it. A graph that is
not given is the default graph. -/
def Manages (before after : SortedSet Quad) : Update → Prop
  | create _ _ => after = before
  | drop _ target | clear _ target => ∀ q, q ∈ after ↔ q ∈ before ∧ target.covers q = false
  | transfer mode _ source destination =>
    if source = destination then after = before
    else mode.Transfers (source.getD .defaultGraph) (destination.getD .defaultGraph) before after
  | insertData _ | deleteData _ | deleteWhere _ | modify _ _ _ => True

/-- The same operation with or without `SILENT`. -/
def withSilent (silent : Bool) : Update → Update
  | create _ graph => create silent graph
  | drop _ target => drop silent target
  | clear _ target => clear silent target
  | transfer mode _ source destination => transfer mode silent source destination
  | u => u

/-- The graph that an operation empties in order to put another one in its place. -/
def replacedGraph? : Update → Option Term
  | transfer mode _ _ destination =>
    if mode.replaces then some (destination.getD .defaultGraph) else none
  | _ => none

/-! ## Single plans -/

private theorem mem_applyAll_deletes_if {c : Prop} [Decidable c] {qs : List Quad} :
    q ∈ applyAll s (if c then Operation.deletes qs else []) ↔ q ∈ s ∧ ¬(c ∧ q ∈ qs) := by
  split
  next hc => rw [Operation.mem_applyAll_deletes, and_iff_right hc]
  next hc => exact (and_iff_left fun h => hc h.1).symm

/-- The quads that a target stands for are deleted, unless a single graph is missing. -/
theorem planDrop_cases (h : src.Lawful s) (silent : Bool) (target : GraphTarget) :
    (∃ ops, planDrop src silent target = .ok ops ∧
      ∀ q, q ∈ applyAll s ops ↔ q ∈ s ∧ target.covers q = false) ∨
    ∃ t, target = .graph t ∧ src.quadsIn t = [] ∧ silent = false ∧
      planDrop src silent target = .error (.missing t) := by
  have hdeletes : ∀ {qs : List Quad}, (∀ q, q ∈ qs ↔ q ∈ s ∧ target.covers q = true) →
      ∀ q, q ∈ applyAll s (Operation.deletes qs) ↔ q ∈ s ∧ target.covers q = false := by
    intro qs hqs q
    rw [Operation.mem_applyAll_deletes, hqs, ← Bool.not_eq_true]
    exact and_congr_right fun hq => not_congr (and_iff_right hq)
  cases target with
  | default =>
    refine .inl ⟨_, rfl, hdeletes fun q => ?_⟩
    rw [mem_quadsIn h, GraphTarget.covers, beq_iff_eq]
  | all =>
    refine .inl ⟨_, rfl, hdeletes fun q => ?_⟩
    rw [mem_matching_all h, GraphTarget.covers, and_iff_left rfl]
  | named =>
    refine .inl ⟨_, rfl, hdeletes fun q => ?_⟩
    rw [List.mem_filter, mem_matching_all h, GraphTarget.covers]
  | graph t =>
    by_cases hmissing : src.quadsIn t = [] ∧ silent = false
    · refine .inr ⟨t, rfl, hmissing.1, hmissing.2, ?_⟩
      simp [planDrop, hmissing]
    · refine .inl ⟨Operation.deletes (src.quadsIn t), ?_, hdeletes fun q => ?_⟩
      · simpa [planDrop] using hmissing
      · rw [mem_quadsIn h, GraphTarget.covers, beq_iff_eq]

/-- Triples are put from one graph into the other, unless the source is missing. -/
theorem planTransfer_cases (h : src.Lawful s) (hne : source ≠ destination) :
    (∃ ops, planTransfer src mode silent source destination = .ok ops ∧
      ∀ q, q ∈ applyAll s ops ↔
        ((q.graph = destination.getD .defaultGraph ∧
            q.withGraph (source.getD .defaultGraph) ∈ s) ∨
          q ∈ s ∧ ¬(mode.replaces = true ∧ q.graph = destination.getD .defaultGraph)) ∧
        ¬(mode.empties = true ∧ q ∈ s ∧ q.graph = source.getD .defaultGraph)) ∨
    ∃ t, source = some t ∧ src.quadsIn t = [] ∧ silent = false ∧
      planTransfer src mode silent source destination = .error (.missing t) := by
  by_cases hmissing : src.quadsIn (source.getD .defaultGraph) = [] ∧ source.isSome = true ∧
      silent = false
  · obtain ⟨hempty, hsome, hloud⟩ := hmissing
    obtain ⟨t, rfl⟩ := Option.isSome_iff_exists.mp hsome
    rw [Option.getD_some] at hempty
    refine .inr ⟨t, rfl, hempty, hloud, ?_⟩
    simp [planTransfer, hne, hempty, hloud]
  have hok : ¬((src.quadsIn (source.getD .defaultGraph)).isEmpty && source.isSome && !silent) =
      true := by
    simpa [and_assoc] using hmissing
  refine .inl ⟨_, by rw [planTransfer, if_neg hne, if_neg hok], fun q => ?_⟩
  have hmoved : q ∈ (src.quadsIn (source.getD .defaultGraph)).map
      (·.withGraph (destination.getD .defaultGraph)) ↔
        q.graph = destination.getD .defaultGraph ∧ q.withGraph (source.getD .defaultGraph) ∈ s := by
    rw [List.mem_map]
    constructor
    · rintro ⟨p, hp, rfl⟩
      obtain ⟨hps, hgraph⟩ := (mem_quadsIn h _ p).mp hp
      exact ⟨rfl, by rwa [← hgraph]⟩
    · rintro ⟨hgraph, hq⟩
      exact ⟨_, (mem_quadsIn h _ _).mpr ⟨hq, rfl⟩, by rw [← hgraph]; rfl⟩
  have hkept : q ∈ s ∧ ¬(mode.replaces = true ∧ q ∈ s ∧ q.graph = destination.getD .defaultGraph) ↔
      q ∈ s ∧ ¬(mode.replaces = true ∧ q.graph = destination.getD .defaultGraph) :=
    and_congr_right fun hq => not_congr (and_congr_right fun _ => and_iff_right hq)
  rw [applyAll_append, applyAll_append, mem_applyAll_deletes_if, Operation.mem_applyAll_inserts,
    mem_applyAll_deletes_if, hmoved, mem_quadsIn h, mem_quadsIn h, hkept]

/-! ## Missing graphs -/

/-- No quad of a graph that is missing is there. -/
private theorem graph_ne_of_missing {t : Term} (h : src.Lawful s) (ht : src.quadsIn t = [])
    (hq : q ∈ s) : q.graph ≠ t := fun hgraph =>
  List.not_mem_nil (ht ▸ (mem_quadsIn h t q).mpr ⟨hq, hgraph⟩)

private theorem planDrop_silent (h : src.Lawful s)
    (hfail : planDrop src false target = .error fault) :
    ∃ ops, planDrop src true target = .ok ops ∧ ∀ q, q ∈ applyAll s ops ↔ q ∈ s := by
  obtain ⟨t, rfl, hmissing⟩ : ∃ t, target = .graph t ∧ src.quadsIn t = [] := by
    rcases planDrop_cases h false target with ⟨ops, hops, -⟩ | ⟨t, htarget, ht, -⟩
    · rw [hops] at hfail
      cases hfail
    · exact ⟨t, htarget, ht⟩
  rcases planDrop_cases h true (.graph t) with ⟨ops, hops, hmem⟩ | ⟨_, -, -, hloud, -⟩
  · refine ⟨ops, hops, fun q => (hmem q).trans (and_iff_left_of_imp fun hq => ?_)⟩
    exact beq_eq_false_iff_ne.mpr (graph_ne_of_missing h hmissing hq)
  · cases hloud

private theorem planTransfer_silent (h : src.Lawful s)
    (hfail : planTransfer src mode false source destination = .error fault) :
    ∃ ops, planTransfer src mode true source destination = .ok ops ∧ ∀ q, q ∈ applyAll s ops ↔
      q ∈ s ∧ ¬(mode.replaces = true ∧ q.graph = destination.getD .defaultGraph) := by
  have hne : source ≠ destination := by
    rintro rfl
    rw [planTransfer, if_pos rfl] at hfail
    cases hfail
  obtain ⟨t, rfl, hmissing⟩ : ∃ t, source = some t ∧ src.quadsIn t = [] := by
    rcases planTransfer_cases h hne with ⟨ops, hops, -⟩ | ⟨t, hsource, ht, -⟩
    · rw [hops] at hfail
      cases hfail
    · exact ⟨t, hsource, ht⟩
  rcases planTransfer_cases h hne with ⟨ops, hops, hmem⟩ | ⟨_, -, -, hloud, -⟩
  · refine ⟨ops, hops, fun q => (hmem q).trans ?_⟩
    have hnone : q.withGraph t ∉ s := fun hq => graph_ne_of_missing h hmissing hq rfl
    have hother : ¬(mode.empties = true ∧ q ∈ s ∧ q.graph = t) := fun hq =>
      graph_ne_of_missing h hmissing hq.2.1 hq.2.2
    rw [Option.getD_some, and_iff_left hother, or_iff_right fun hq => hnone hq.2]
  · cases hloud

private theorem plan_silent (h : src.Lawful s)
    (hfail : (u.withSilent false).plan src next = .error fault) :
    ∃ ops, (u.withSilent true).plan src next = .ok (ops, next) ∧
      ∀ q, q ∈ applyAll s ops ↔ q ∈ s ∧ u.replacedGraph? ≠ some q.graph := by
  have hnone : ∀ {q : Quad}, none ≠ some q.graph := by
    intro q h
    cases h
  cases u with
  | insertData | deleteData | deleteWhere | modify => cases hfail
  | create _ graph => exact ⟨[], rfl, fun q => (and_iff_left hnone).symm⟩
  | drop _ target | clear _ target =>
    obtain ⟨ops, hops, hmem⟩ := planDrop_silent h (map_eq_error.mp hfail)
    refine ⟨ops, ?_, fun q => (hmem q).trans (and_iff_left hnone).symm⟩
    rw [withSilent, plan, hops]
    rfl
  | transfer mode _ source destination =>
    obtain ⟨ops, hops, hmem⟩ := planTransfer_silent h (map_eq_error.mp hfail)
    refine ⟨ops, ?_, fun q => (hmem q).trans (and_congr_right fun _ => not_congr ?_)⟩
    · rw [withSilent, plan, hops]
      rfl
    · rw [replacedGraph?, Option.ite_none_right_eq_some, Option.some_inj]
      exact and_congr_right fun _ => eq_comm

/-- An operation that fails is done with `SILENT`. It changes nothing, unless it empties a graph to
replace it: then the quads of that graph are gone, and nothing is put in their place. -/
theorem planAll_silent (h : src.Lawful s)
    (hfail : planAll src next [u.withSilent false] = .error fault) :
    ∃ ops, planAll src next [u.withSilent true] = .ok (ops, next) ∧
      (∀ q, q ∈ applyAll s (lastOnly ops) ↔ q ∈ s ∧ u.replacedGraph? ≠ some q.graph) ∧
      (applyAll s (lastOnly ops) = s ↔ ∀ q ∈ s, u.replacedGraph? ≠ some q.graph) := by
  rw [planAll_singleton] at hfail
  obtain ⟨ops, hops, hmem⟩ := plan_silent (h.after []) hfail
  simp only [applyAll_lastOnly]
  refine ⟨ops, (planAll_singleton ..).trans hops, hmem, ?_⟩
  constructor
  · intro hsame q hq
    rw [← hsame] at hq
    exact ((hmem q).mp hq).2
  · intro hkept
    exact SortedSet.ext fun q => (hmem q).trans (and_iff_left_of_imp (hkept q))

/-- The default graph is emptied for a copy of a graph that is missing. -/
theorem planAll_silent_copy :
    let q : Quad := ⟨.iri "x:a", .iri "x:p", .plain "v", .defaultGraph⟩
    let u : Update := .transfer .copy false (some (.iri "x:none")) none
    planAll (.ofSet (.ofList [q])) 0 [u.withSilent false] =
        .error (.missing (.iri "x:none")) ∧
      ∃ ops, planAll (.ofSet (.ofList [q])) 0 [u.withSilent true] = .ok (ops, 0) ∧
        applyAll (.ofList [q]) (lastOnly ops) ≠ .ofList [q] := by
  intro q u
  have hfail : planAll (.ofSet (.ofList [q])) 0 [u.withSilent false] =
      .error (.missing (.iri "x:none")) := by decide +kernel
  obtain ⟨ops, hops, -, hsame⟩ := planAll_silent (Source.lawful_ofSet _) hfail
  refine ⟨hfail, ops, hops, mt hsame.mp fun hkept => ?_⟩
  exact hkept q (SortedSet.mem_ofList.mpr List.mem_cons_self) rfl

/-! ## What becomes of the graphs -/

private theorem transfers_of_ne (hne : source ≠ destination) (hsource : source ≠ some .defaultGraph)
    (hdestination : destination ≠ some .defaultGraph) :
    source.getD .defaultGraph ≠ destination.getD .defaultGraph := by
  cases source <;> cases destination <;> simp_all [eq_comm]

private theorem planTransfer_transfers (h : src.Lawful s)
    (hne : source.getD .defaultGraph ≠ destination.getD .defaultGraph)
    (hplan : planTransfer src mode silent source destination = .ok ops) :
    mode.Transfers (source.getD .defaultGraph) (destination.getD .defaultGraph) s
      (applyAll s ops) := by
  obtain hmem : ∀ q, q ∈ applyAll s ops ↔ _ := by
    rcases planTransfer_cases h (mt (congrArg (·.getD Term.defaultGraph)) hne) with
      ⟨ops', hops, hmem⟩ | ⟨_, -, -, -, herror⟩
    · rw [hplan] at hops
      cases hops
      exact hmem
    · rw [hplan] at herror
      cases herror
  constructor
  case filled =>
    intro t
    rw [hmem]
    cases mode <;> simp [TransferMode.replaces, TransferMode.empties, Triple.inGraph,
      Quad.withGraph, hne.symm]
  case left =>
    intro t
    rw [hmem]
    cases mode <;> simp [TransferMode.replaces, TransferMode.empties, Triple.inGraph, hne]
  case others =>
    intro q hs hd
    simp [hmem, hs, hd]

private theorem plan_manages (h : src.Lawful s) (hu : u.WellFormed)
    (hplan : u.plan src next = .ok (ops, last)) : u.Manages s (applyAll s ops) := by
  cases hu with
  | insertData | deleteData | deleteWhere | modify => trivial
  | create silent graph =>
    rw [plan] at hplan
    split at hplan
    · cases hplan
    · cases hplan
      rfl
  | drop silent target | clear silent target =>
    obtain ⟨ops', hops, heq⟩ := map_eq_ok.mp hplan
    cases heq
    rcases planDrop_cases h silent target with ⟨_, hdrop, hmem⟩ | ⟨_, -, -, -, herror⟩
    · rw [hops] at hdrop
      cases hdrop
      exact hmem
    · rw [hops] at herror
      cases herror
  | transfer mode silent hsource hdestination =>
    obtain ⟨ops', hops, heq⟩ := map_eq_ok.mp hplan
    cases heq
    rw [Manages]
    split
    next hsame =>
      rw [planTransfer, if_pos hsame] at hops
      cases hops
      rfl
    next hne => exact planTransfer_transfers h (transfers_of_ne hne hsource hdestination) hops

/-- Every operation of a request that is planned does to the graphs what its name says, whatever is
staged already: it sees the quads as they are after that, and only what is done to a quad last
counts. -/
theorem planFrom_manages {text : String} {us : List Update} (h : src.Lawful s)
    (hus : ofText text = .ok us) (hu : u ∈ us)
    (hplan : planFrom src staged next [u] = .ok (ops, last)) :
    u.Manages (applyAll s (lastOnly staged)) (applyAll s (lastOnly ops)) := by
  obtain ⟨⟨new, n⟩, hnew, hplan⟩ := bind_eq_ok.mp hplan
  cases hplan
  rw [applyAll_lastOnly, applyAll_lastOnly, applyAll_append]
  exact plan_manages (h.after staged) (wellFormed_of_ofText hus u hu) hnew

/-- One triple of the source is in the destination already, and another one is staged. -/
theorem planFrom_manages_move :
    let quad : String → Term → Quad := fun a graph => ⟨.iri a, .iri "x:p", .plain "v", graph⟩
    let g : Term := .iri "x:g"
    let h : Term := .iri "x:h"
    let s : SortedSet Quad := .ofList [quad "x:a" g, quad "x:a" h, quad "x:b" h]
    let staged : List Operation := [⟨.insert, quad "x:c" g⟩]
    ofText "MOVE <x:g> TO GRAPH <x:h>" = .ok [.transfer .move false (some g) (some h)] ∧
      ∃ ops, planFrom (.ofSet s) staged 0 [.transfer .move false (some g) (some h)] =
          .ok (ops, 0) ∧
        TransferMode.move.Transfers g h (applyAll s (lastOnly staged)) (applyAll s (lastOnly ops)) ∧
        applyAll s (lastOnly ops) = .ofList [quad "x:a" h, quad "x:c" h] := by
  intro quad g h s staged
  have htokens : Token.ofText "MOVE <x:g> TO GRAPH <x:h>" = .ok [.word "MOVE", .iri "x:g",
      .word "TO", .word "GRAPH", .iri "x:h"] := by decide +kernel
  have hread : ofText "MOVE <x:g> TO GRAPH <x:h>" =
      .ok [.transfer .move false (some g) (some h)] := by
    rw [ofText, htokens]
    change ofTokens _ = _
    with_unfolding_all rfl
  have hplan : planFrom (.ofSet s) staged 0 [.transfer .move false (some g) (some h)] =
      .ok (staged ++ Operation.deletes [quad "x:a" h, quad "x:b" h] ++
        Operation.inserts [quad "x:a" h, quad "x:c" h] ++
        Operation.deletes [quad "x:a" g, quad "x:c" g], 0) := by decide +kernel
  refine ⟨hread, _, hplan, ?_, by decide +kernel⟩
  exact planFrom_manages (Source.lawful_ofSet s) hread List.mem_cons_self hplan

end Update
end DualStore
