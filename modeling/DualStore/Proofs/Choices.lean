import DualStore.Proofs.Solutions

/-! The solutions of a group without an order of evaluation. A choice takes a quad for each triple
pattern that it reaches and an alternative for each `UNION`, and says by that what the nodes of the
patterns stand for. A group has one solution for each choice whose equations can be solved, so the
order of its elements does not matter (`Group.solutions_choices`). -/

namespace DualStore

open List (Perm)

variable {src : Source} {s : SortedSet Quad}

/-! ## Equations -/

/-- Terms that nodes are to stand for. -/
abbrev Equations := List (Node × Term)

namespace Solution

variable {sol sol' low : Solution} {n : Node} {t : Term} {eqs eqs' : Equations}

/-- `sol` solves the equations and has a term for each of their variables and for no other one. -/
def Solves (sol : Solution) (eqs : Equations) : Prop :=
  (∀ e ∈ eqs, e.1.value? sol = some e.2) ∧
    ∀ v, (sol.get? v).isSome = true ↔ ∃ t, (Node.var v, t) ∈ eqs

/-- Unifies both sides of each equation. -/
def unifyAll (sol : Solution) (eqs : Equations) : Option Solution :=
  eqs.foldlM (fun sol e => sol.unify e.1 e.2) sol

theorem Extends.refl (sol : Solution) : sol.Extends sol := fun _ _ h => h

theorem Extends.trans (h : sol.Extends low) (h' : sol'.Extends sol) : sol'.Extends low :=
  fun v t ht => h' v t (h v t ht)

theorem Extends.value? (h : sol.Extends low) (hn : n.value? low = some t) :
    n.value? sol = some t := by
  cases n with
  | var v => exact h v t hn
  | term u => exact hn

theorem unify_of_value? (h : n.value? sol = some t) : sol.unify n t = some sol := by
  cases n with
  | var v =>
    rw [Node.value?] at h
    simp only [unify, h, if_true]
  | term u =>
    cases h
    exact if_pos rfl

/-- Only the node's own variable may get a term. -/
theorem unify_spec (h : low.unify n t = some sol) : sol.Extends low ∧ n.value? sol = some t ∧
    ∀ v, (sol.get? v).isSome = true → (low.get? v).isSome = true ∨ n = .var v := by
  cases n with
  | term u =>
    rw [unify, Option.ite_none_right_eq_some] at h
    obtain ⟨rfl, h⟩ := h
    cases h
    exact ⟨.refl _, rfl, fun _ => .inl⟩
  | var v =>
    simp only [unify] at h
    split at h
    next u hu =>
      rw [Option.ite_none_right_eq_some] at h
      obtain ⟨rfl, h⟩ := h
      cases h
      exact ⟨.refl _, hu, fun _ => .inl⟩
    next hnone =>
      cases h
      refine ⟨fun w u hu => ?_, ?_, fun w hw => ?_⟩
      · rw [SortedMap.get?_insert, if_neg, hu]
        rintro rfl
        rw [hnone] at hu
        cases hu
      · rw [Node.value?, SortedMap.get?_insert, if_pos rfl]
      · rw [SortedMap.get?_insert] at hw
        split at hw
        next hwv => exact .inr (hwv ▸ rfl)
        next => exact .inl hw

@[simp] theorem unifyAll_nil : sol.unifyAll [] = some sol := rfl

@[simp] theorem unifyAll_cons {e : Node × Term} :
    sol.unifyAll (e :: eqs) = (sol.unify e.1 e.2).bind (·.unifyAll eqs) := rfl

theorem unifyAll_append :
    sol.unifyAll (eqs ++ eqs') = (sol.unifyAll eqs).bind (·.unifyAll eqs') := by
  rw [unifyAll, List.foldlM_append]
  rfl

/-- Unification finds the least solution of the equations on top of what has a term already. -/
theorem unifyAll_eq_some_iff : low.unifyAll eqs = some sol ↔ sol.Extends low ∧
    (∀ e ∈ eqs, e.1.value? sol = some e.2) ∧
      ∀ v, (sol.get? v).isSome = true → (low.get? v).isSome = true ∨ ∃ t, (.var v, t) ∈ eqs := by
  induction eqs generalizing low with
  | nil =>
    rw [unifyAll_nil, Option.some_inj]
    refine ⟨?_, fun ⟨hext, _, hvars⟩ => SortedMap.ext fun v => ?_⟩
    · rintro rfl
      exact ⟨.refl _, nofun, fun _ => .inl⟩
    · cases hlow : low.get? v with
      | some t => exact (hext v t hlow).symm
      | none =>
        refine (Option.eq_none_iff_forall_ne_some.mpr fun t ht => ?_).symm
        rcases hvars v (by rw [ht]; rfl) with h | ⟨t, h⟩
        · rw [hlow] at h
          cases h
        · cases h
  | cons e eqs ih =>
    rw [unifyAll_cons, Option.bind_eq_some_iff]
    constructor
    · rintro ⟨mid, hmid, hsol⟩
      obtain ⟨hlow, hvalue, hown⟩ := unify_spec hmid
      obtain ⟨hext, hvalues, hvars⟩ := ih.mp hsol
      refine ⟨hlow.trans hext, List.forall_mem_cons.mpr ⟨hext.value? hvalue, hvalues⟩,
        fun v hv => ?_⟩
      rcases hvars v hv with h | ⟨t, h⟩
      · exact (hown v h).imp_right fun h => ⟨e.2, by rw [← h]; exact List.mem_cons_self⟩
      · exact .inr ⟨t, List.mem_cons_of_mem _ h⟩
    · rintro ⟨hext, hvalues, hvars⟩
      obtain ⟨hvalue, hvalues⟩ := List.forall_mem_cons.mp hvalues
      obtain ⟨mid, hmid, hmext⟩ := unify_of_extends hext (unify_of_value? hvalue)
      obtain ⟨hlow, hmvalue, -⟩ := unify_spec hmid
      refine ⟨mid, hmid, ih.mpr ⟨hmext, hvalues, fun v hv => ?_⟩⟩
      rcases hvars v hv with h | ⟨t, h⟩
      · obtain ⟨t, ht⟩ := Option.isSome_iff_exists.mp h
        exact .inl (by rw [hlow v t ht]; rfl)
      · rcases List.mem_cons.mp h with rfl | h
        · exact .inl (Option.isSome_of_eq_some hmvalue)
        · exact .inr ⟨t, h⟩

theorem unifyAll_empty : unifyAll ∅ eqs = some sol ↔ sol.Solves eqs := by
  rw [unifyAll_eq_some_iff]
  refine ⟨fun ⟨_, hvalues, hvars⟩ => ⟨hvalues, fun v => ⟨fun hv => ?_, fun ⟨t, ht⟩ => ?_⟩⟩,
    fun ⟨hvalues, hvars⟩ => ⟨nofun, hvalues, fun v hv => .inr ((hvars v).mp hv)⟩⟩
  · exact (hvars v hv).resolve_left nofun
  · exact Option.isSome_of_eq_some (hvalues _ ht)

/-- Which equations there are is all that counts. -/
theorem unifyAll_perm (h : eqs.Perm eqs') : sol.unifyAll eqs = sol.unifyAll eqs' := by
  refine Option.ext fun sol' => ?_
  rw [unifyAll_eq_some_iff, unifyAll_eq_some_iff]
  simp only [h.mem_iff]

end Solution

/-! ## Choices -/

/-- How an element is solved. -/
inductive Choice where
  /-- The quad that a triple pattern stands for. -/
  | quad (q : Quad)
  /-- The choices for the elements of a group or of a `GRAPH`. -/
  | inner (choices : List Choice)
  /-- The alternative taken, by number, and the choices for its elements. -/
  | alternative (i : Nat) (choices : List Choice)

/-- What the nodes of a triple pattern and the name of the `GRAPH` around it stand for when the
pattern stands for a quad. -/
def TriplePattern.equations (active : Option Node) (t : TriplePattern) (q : Quad) : Equations :=
  active.toList.map (·, q.graph) ++
    [(t.subject, q.subject), (t.predicate, q.predicate), (t.object, q.object)]

mutual

/-- `c` is a choice of quads of `s` for an element inside the given `GRAPH`, and it comes with
these equations. -/
inductive Element.Chosen (s : SortedSet Quad) :
    Option Node → Element → Choice → Equations → Prop
  /-- Outside of any `GRAPH` the quad is in the default graph, and inside in a named one. -/
  | triple {active t q} : q ∈ s → q.inDefaultGraph = active.isNone →
      Element.Chosen s active (.triple t) (.quad q) (t.equations active q)
  | graph {active name inner cs eqs} : GroupChosen s (some name) inner cs eqs →
      Element.Chosen s active (.graph name inner) (.inner cs) eqs
  | union {active alternatives i g cs eqs} : alternatives[i]? = some g →
      GroupChosen s active g cs eqs →
        Element.Chosen s active (.union alternatives) (.alternative i cs) eqs
  | group {active inner cs eqs} : GroupChosen s active inner cs eqs →
      Element.Chosen s active (.group inner) (.inner cs) eqs

/-- A choice for every element of a group. -/
inductive GroupChosen (s : SortedSet Quad) :
    Option Node → List Element → List Choice → Equations → Prop
  | nil {active} : GroupChosen s active [] [] []
  | cons {active e es c cs eqs eqs'} : Element.Chosen s active e c eqs →
      GroupChosen s active es cs eqs' → GroupChosen s active (e :: es) (c :: cs) (eqs ++ eqs')

end

mutual

/-- All choices for an element. -/
def Element.choices (s : SortedSet Quad) (active : Option Node) :
    Element → List (Choice × Equations)
  | .triple t => (s.toList.filter (·.inDefaultGraph = active.isNone)).map fun q =>
      (.quad q, t.equations active q)
  | .graph name inner => (groupChoices s (some name) inner).map fun c => (.inner c.1, c.2)
  | .union alternatives => unionChoices s active 0 alternatives
  | .group inner => (groupChoices s active inner).map fun c => (.inner c.1, c.2)

@[inherit_doc Element.choices]
def groupChoices (s : SortedSet Quad) (active : Option Node) :
    List Element → List (List Choice × Equations)
  | [] => [([], [])]
  | e :: es => (e.choices s active).flatMap fun c =>
      (groupChoices s active es).map fun cs => (c.1 :: cs.1, c.2 ++ cs.2)

/-- Alternatives are numbered from `i`. -/
def unionChoices (s : SortedSet Quad) (active : Option Node) (i : Nat) :
    List (List Element) → List (Choice × Equations)
  | [] => []
  | g :: gs => (groupChoices s active g).map (fun c => (.alternative i c.1, c.2)) ++
      unionChoices s active (i + 1) gs

end

mutual

theorem Element.mem_choices : (active : Option Node) → (e : Element) → {c : Choice} →
    {eqs : Equations} → ((c, eqs) ∈ e.choices s active ↔ e.Chosen s active c eqs)
  | active, .triple t, c, eqs => by
    simp only [Element.choices, List.mem_map, List.mem_filter, decide_eq_true_eq, Prod.mk.injEq,
      ← SortedSet.mem_def]
    constructor
    · rintro ⟨q, ⟨hq, hgraph⟩, rfl, rfl⟩
      exact .triple hq hgraph
    · rintro (⟨hq, hgraph⟩ | _)
      exact ⟨_, ⟨hq, hgraph⟩, rfl, rfl⟩
  | active, .graph name inner, c, eqs => by
    simp only [Element.choices, List.mem_map, Prod.mk.injEq]
    constructor
    · rintro ⟨c, hc, rfl, rfl⟩
      exact .graph ((mem_groupChoices _ inner).mp hc)
    · rintro (_ | hc)
      exact ⟨(_, _), (mem_groupChoices _ inner).mpr hc, rfl, rfl⟩
  | active, .union alternatives, c, eqs => by
    rw [Element.choices, mem_unionChoices]
    constructor
    · rintro ⟨i, g, cs, hg, hc, rfl⟩
      rw [Nat.zero_add]
      exact .union hg hc
    · rintro (_ | _ | ⟨hg, hc⟩)
      exact ⟨_, _, _, hg, hc, by rw [Nat.zero_add]⟩
  | active, .group inner, c, eqs => by
    simp only [Element.choices, List.mem_map, Prod.mk.injEq]
    constructor
    · rintro ⟨c, hc, rfl, rfl⟩
      exact .group ((mem_groupChoices _ inner).mp hc)
    · rintro (_ | _ | _ | hc)
      exact ⟨(_, _), (mem_groupChoices _ inner).mpr hc, rfl, rfl⟩

theorem mem_groupChoices : (active : Option Node) → (g : List Element) → {cs : List Choice} →
    {eqs : Equations} → ((cs, eqs) ∈ groupChoices s active g ↔ GroupChosen s active g cs eqs)
  | active, [], cs, eqs => by
    rw [groupChoices, List.mem_singleton, Prod.mk.injEq]
    constructor
    · rintro ⟨rfl, rfl⟩
      exact .nil
    · rintro ⟨⟩
      exact ⟨rfl, rfl⟩
  | active, e :: es, cs, eqs => by
    simp only [groupChoices, List.mem_flatMap, List.mem_map, Prod.mk.injEq]
    constructor
    · rintro ⟨c, hc, cs, hcs, rfl, rfl⟩
      exact .cons ((e.mem_choices active).mp hc) ((mem_groupChoices active es).mp hcs)
    · rintro (_ | ⟨hc, hcs⟩)
      exact ⟨(_, _), (e.mem_choices active).mpr hc, (_, _), (mem_groupChoices active es).mpr hcs,
        rfl, rfl⟩

theorem mem_unionChoices : (active : Option Node) → (gs : List (List Element)) → {i : Nat} →
    {c : Choice} → {eqs : Equations} → ((c, eqs) ∈ unionChoices s active i gs ↔
      ∃ j g cs, gs[j]? = some g ∧ GroupChosen s active g cs eqs ∧ c = .alternative (i + j) cs)
  | active, [], i, c, eqs => by simp [unionChoices]
  | active, g :: gs, i, c, eqs => by
    simp only [unionChoices, List.mem_append, List.mem_map, Prod.mk.injEq, mem_unionChoices active gs]
    constructor
    · rintro (⟨c, hc, rfl, rfl⟩ | ⟨j, g', cs, hg, hcs, rfl⟩)
      · exact ⟨0, g, c.1, rfl, (mem_groupChoices active g).mp hc, rfl⟩
      · exact ⟨j + 1, g', cs, hg, hcs, by rw [Nat.add_right_comm, Nat.add_assoc]⟩
    · rintro ⟨j, g', cs, hg, hcs, rfl⟩
      cases j with
      | zero =>
        cases hg
        exact .inl ⟨(_, _), (mem_groupChoices active g).mpr hcs, rfl, rfl⟩
      | succ j => exact .inr ⟨j, g', cs, hg, hcs, by rw [Nat.add_right_comm, Nat.add_assoc]⟩

end

/-! ## Solutions from choices -/

namespace TriplePattern

variable {t : TriplePattern} {active : Option Node} {sol : Solution} {q : Quad}

theorem unify_eq_unifyAll (hq : q.inDefaultGraph = active.isNone) :
    t.unify active sol q = sol.unifyAll (t.equations active q) := by
  cases active with
  | none => simp [unify, equations]
  | some name => simp [unify, equations, hq]

/-- A quad that solves the pattern is what the source was asked for. -/
theorem accepts_request (hq : q.inDefaultGraph = active.isNone)
    (h : (t.unify active sol q).isSome = true) : (t.request active sol).accepts q = true := by
  obtain ⟨sol', h⟩ := Option.isSome_iff_exists.mp h
  rw [unify_eq_unifyAll hq, Solution.unifyAll_eq_some_iff] at h
  obtain ⟨hext, hvalues, -⟩ := h
  have hasked : ∀ e ∈ t.equations active q, (e.1.value? sol).all (· == e.2) = true := by
    intro e he
    rw [Option.all_eq_true]
    intro u hu
    rw [beq_iff_eq, ← Option.some_inj, ← hext.value? hu, hvalues e he]
  cases active with
  | none =>
    have hgraph : q.graph = .defaultGraph := Term.isDefaultGraph_iff.mp hq
    simpa [equations, QuadPattern.accepts, request, hgraph, and_assoc] using hasked
  | some name => simpa [equations, QuadPattern.accepts, request, and_assoc, and_comm] using hasked

/-- What the source answers beyond the choices does not unify. -/
theorem inDefaultGraph_of_accepts (ha : (t.request active sol).accepts q = true)
    (h : (t.unify active sol q).isSome = true) : q.inDefaultGraph = active.isNone := by
  cases active with
  | none =>
    simp only [QuadPattern.accepts, request, Option.all_some, Bool.and_eq_true, beq_iff_eq] at ha
    exact Term.isDefaultGraph_iff.mpr ha.2.symm
  | some name =>
    rw [unify_some] at h
    cases hq : q.inDefaultGraph with
    | false => rfl
    | true =>
      rw [hq] at h
      cases h

theorem extend_perm_choices (h : src.Lawful s) (sol : Solution) :
    (t.extend src active sol).Perm
      (((Element.triple t).choices s active).filterMap (sol.unifyAll ·.2)) := by
  have hchosen : ((Element.triple t).choices s active).filterMap (sol.unifyAll ·.2) =
      (s.toList.filter (·.inDefaultGraph = active.isNone)).filterMap (t.unify active sol) := by
    rw [Element.choices, List.filterMap_map]
    refine List.filterMap_congr fun q hq => ?_
    exact (unify_eq_unifyAll (by simpa using (List.mem_filter.mp hq).2)).symm
  rw [hchosen, extend]
  refine filterMap_perm_of_nodup (h _).1 (s.nodup.filter _) fun q hq => ?_
  rw [(h _).2, List.mem_filter, decide_eq_true_eq]
  exact and_congr_right fun _ =>
    ⟨fun ha => inDefaultGraph_of_accepts ha hq, fun hgraph => accepts_request hgraph hq⟩

end TriplePattern

mutual

/-- Every solution is extended by each choice that agrees with it. -/
theorem Element.extend_perm_choices (h : src.Lawful s) (active : Option Node)
    (sols : List Solution) : (e : Element) → (e.extend src active sols).Perm
      (sols.flatMap fun sol => (e.choices s active).filterMap (sol.unifyAll ·.2))
  | .triple _ => .flatMap_left _ fun _ _ => TriplePattern.extend_perm_choices h _
  | .graph name inner => by
    simpa only [Element.choices, List.filterMap_map, Function.comp_def, Element.extend] using
      extendGroup_perm_choices h (some name) sols inner
  | .union alternatives => by
    simpa only [Element.choices, Element.extend] using
      extendUnion_perm_choices h active 0 sols alternatives
  | .group inner => by
    simpa only [Element.choices, List.filterMap_map, Function.comp_def, Element.extend] using
      extendGroup_perm_choices h active sols inner

theorem extendGroup_perm_choices (h : src.Lawful s) (active : Option Node)
    (sols : List Solution) : (g : List Element) → (extendGroup src active sols g).Perm
      (sols.flatMap fun sol => (groupChoices s active g).filterMap (sol.unifyAll ·.2))
  | [] => by
    simp [extendGroup, groupChoices]
  | e :: es => by
    -- the equations of the first element are solved first
    have hsplit : ∀ sol : Solution, (groupChoices s active (e :: es)).filterMap (sol.unifyAll ·.2) =
        ((e.choices s active).filterMap (sol.unifyAll ·.2)).flatMap fun mid =>
          (groupChoices s active es).filterMap (mid.unifyAll ·.2) := by
      intro sol
      simp only [groupChoices, List.filterMap_flatMap, List.filterMap_map, Function.comp_def,
        Solution.unifyAll_append]
      rw [List.filterMap_eq_flatMap_toList, List.flatMap_assoc]
      refine congrArg (List.flatMap · _) (funext fun c => ?_)
      cases sol.unifyAll c.2 with
      | none => simp
      | some mid => simp
    refine (extendGroup_perm_choices h active _ es).trans ?_
    refine ((e.extend_perm_choices h active sols).flatMap_right _).trans (.of_eq ?_)
    simp only [hsplit, List.flatMap_assoc]

theorem extendUnion_perm_choices (h : src.Lawful s) (active : Option Node) (i : Nat)
    (sols : List Solution) : (gs : List (List Element)) → (extendUnion src active sols gs).Perm
      (sols.flatMap fun sol => (unionChoices s active i gs).filterMap (sol.unifyAll ·.2))
  | [] => by simp [extendUnion, unionChoices]
  | g :: gs => by
    simp only [extendUnion, unionChoices, List.filterMap_append, List.filterMap_map,
      Function.comp_def]
    exact ((extendGroup_perm_choices h active sols g).append
      (extendUnion_perm_choices h active (i + 1) sols gs)).trans (List.flatMap_append_perm ..)

end

/-! ## No choice twice -/

mutual

theorem Element.nodup_choices (active : Option Node) :
    (e : Element) → ((e.choices s active).map (·.1)).Nodup
  | .triple t => by
    have hquads := (s.nodup.filter (·.inDefaultGraph = active.isNone)).map fun _ _ => Choice.quad.inj
    simpa only [Element.choices, List.map_map, Function.comp_def] using hquads
  | .graph name inner => by
    have hinner := (nodup_groupChoices (some name) inner).map fun _ _ => Choice.inner.inj
    simpa only [Element.choices, List.map_map, Function.comp_def] using hinner
  | .union alternatives => nodup_unionChoices active 0 alternatives
  | .group inner => by
    have hinner := (nodup_groupChoices active inner).map fun _ _ => Choice.inner.inj
    simpa only [Element.choices, List.map_map, Function.comp_def] using hinner

theorem nodup_groupChoices (active : Option Node) :
    (g : List Element) → ((groupChoices s active g).map (·.1)).Nodup
  | [] => List.nodup_singleton _
  | e :: es => by
    have hpairs : (groupChoices s active (e :: es)).map (·.1) =
        (((e.choices s active).map (·.1)) ×ˢ ((groupChoices s active es).map (·.1))).map
          fun c => c.1 :: c.2 := by
      simp [groupChoices, SProd.sprod, List.product, List.map_flatMap, List.flatMap_map,
        Function.comp_def]
    rw [hpairs]
    refine ((e.nodup_choices active).product (nodup_groupChoices active es)).map fun c c' hc => ?_
    exact Prod.ext (List.cons.inj hc).1 (List.cons.inj hc).2

theorem nodup_unionChoices (active : Option Node) (i : Nat) :
    (gs : List (List Element)) → ((unionChoices s active i gs).map (·.1)).Nodup
  | [] => .nil
  | g :: gs => by
    have hfirst : ((groupChoices s active g).map fun c => Choice.alternative i c.1).Nodup := by
      simpa only [List.map_map, Function.comp_def] using
        (nodup_groupChoices active g).map fun _ _ h => (Choice.alternative.inj h).2
    rw [unionChoices, List.map_append, List.map_map]
    refine hfirst.append (nodup_unionChoices active (i + 1) gs) ?_
    -- the numbers of later alternatives are greater
    intro c hc hlater
    obtain ⟨⟨c, eqs⟩, hmem, rfl⟩ := List.mem_map.mp hlater
    obtain ⟨j, g', cs, -, -, rfl⟩ := (mem_unionChoices active gs).mp hmem
    obtain ⟨c', -, hc'⟩ := List.mem_map.mp hc
    have hi := (Choice.alternative.inj hc').1
    omega

end

/-! ## The order of elements -/

mutual

/-- Groups inside of an element are reordered. -/
inductive Element.Reordered : Element → Element → Prop
  | triple (t : TriplePattern) : Element.Reordered (.triple t) (.triple t)
  | graph {name inner inner'} : GroupReordered inner inner' →
      Element.Reordered (.graph name inner) (.graph name inner')
  | union {alternatives alternatives'} : UnionReordered alternatives alternatives' →
      Element.Reordered (.union alternatives) (.union alternatives')
  | group {inner inner'} : GroupReordered inner inner' →
      Element.Reordered (.group inner) (.group inner')

/-- A group with its elements in another order, and likewise the groups inside of them. -/
inductive GroupReordered : List Element → List Element → Prop
  | nil : GroupReordered [] []
  | cons {e e' es es'} : Element.Reordered e e' → GroupReordered es es' →
      GroupReordered (e :: es) (e' :: es')
  | swap (e e' : Element) (es : List Element) : GroupReordered (e :: e' :: es) (e' :: e :: es)
  | trans {g g' g''} : GroupReordered g g' → GroupReordered g' g'' → GroupReordered g g''

/-- Alternatives stay where they are. -/
inductive UnionReordered : List (List Element) → List (List Element) → Prop
  | nil : UnionReordered [] []
  | cons {g g' gs gs'} : GroupReordered g g' → UnionReordered gs gs' →
      UnionReordered (g :: gs) (g' :: gs')

end

theorem groupChoices_singleton (active : Option Node) (e : Element) :
    groupChoices s active [e] = (e.choices s active).map fun c => ([c.1], c.2) := by
  simp only [groupChoices, List.map_cons, List.map_nil, List.append_nil]
  exact List.map_eq_flatMap.symm

/-- Equations of one element and of another one are solved in either order. -/
theorem Element.extend_comm (h : src.Lawful s) (active : Option Node) (sols : List Solution)
    (e e' : Element) : (e'.extend src active (e.extend src active sols)).Perm
      (e.extend src active (e'.extend src active sols)) := by
  have hboth : ∀ e e' : Element, (e'.extend src active (e.extend src active sols)).Perm
      (sols.flatMap fun sol => (e.choices s active).flatMap fun c =>
        (e'.choices s active).filterMap fun c' => sol.unifyAll (c.2 ++ c'.2)) := by
    intro e e'
    refine (extendGroup_perm_choices h active sols [e, e']).trans (.of_eq ?_)
    rw [groupChoices, groupChoices_singleton]
    simp only [List.filterMap_flatMap, List.map_map, List.filterMap_map, Function.comp_def]
  refine (hboth e e').trans (.trans ?_ (hboth e' e).symm)
  refine .flatMap_left _ fun sol _ => (flatMap_filterMap_comm ..).trans (.of_eq ?_)
  simp only [Solution.unifyAll_perm List.perm_append_comm]

mutual

theorem Element.Reordered.extend_perm (h : src.Lawful s) (active : Option Node)
    {sols sols' : List Solution} (hs : sols.Perm sols') : {e e' : Element} → e.Reordered e' →
      (e.extend src active sols).Perm (e'.extend src active sols')
  | _, _, .triple t => (Element.triple t).extend_perm h h active hs (.refl _ _)
  | _, _, .graph hg => hg.extend_perm h _ hs
  | _, _, .union hgs => hgs.extend_perm h active hs
  | _, _, .group hg => hg.extend_perm h active hs

theorem GroupReordered.extend_perm (h : src.Lawful s) (active : Option Node)
    {sols sols' : List Solution} (hs : sols.Perm sols') : {g g' : List Element} →
      GroupReordered g g' → (extendGroup src active sols g).Perm (extendGroup src active sols' g')
  | _, _, .nil => hs
  | _, _, .cons he hes => hes.extend_perm h active (he.extend_perm h active hs)
  | _, _, .swap e e' es =>
    (extendGroup_perm h h active (e.extend_comm h active sols e') es (.refl _ _)).trans
      (extendGroup_perm h h active hs (e' :: e :: es) (.refl _ _))
  | _, _, .trans hg hg' => (hg.extend_perm h active hs).trans (hg'.extend_perm h active (.refl _))

theorem UnionReordered.extend_perm (h : src.Lawful s) (active : Option Node)
    {sols sols' : List Solution} (hs : sols.Perm sols') : {gs gs' : List (List Element)} →
      UnionReordered gs gs' →
        (extendUnion src active sols gs).Perm (extendUnion src active sols' gs')
  | _, _, .nil => .nil
  | _, _, .cons hg hgs => (hg.extend_perm h active hs).append (hgs.extend_perm h active hs)

end

/-- There is one solution for each choice whose equations can be solved, it has terms for exactly
the variables of these equations, and the elements of groups may be in any order. -/
theorem Group.solutions_choices (h : src.Lawful s) (g : Group) :
    (∃ answers : List (List Choice × Solution), (answers.map (·.1)).Nodup ∧
      (∀ cs sol, (cs, sol) ∈ answers ↔ ∃ eqs, GroupChosen s none g cs eqs ∧ sol.Solves eqs) ∧
      (g.solutions src).Perm (answers.map (·.2))) ∧
    ∀ g' : Group, GroupReordered g g' → (g'.solutions src).Perm (g.solutions src) := by
  refine ⟨⟨(groupChoices s none g).filterMap fun c => (Solution.unifyAll ∅ c.2).map (c.1, ·),
    ?_, fun cs sol => ?_, ?_⟩, fun g' hg => (hg.extend_perm h none (.refl _)).symm⟩
  · have hkept : ∀ l : List (List Choice × Equations),
        (l.filterMap fun c => (Solution.unifyAll ∅ c.2).map (c.1, ·)).map (·.1) =
          (l.filter fun c => (Solution.unifyAll ∅ c.2).isSome).map (·.1) := by
      intro l
      induction l with
      | nil => rfl
      | cons c l ih => cases hc : Solution.unifyAll ∅ c.2 <;> simp [hc, ih]
    rw [hkept]
    exact (nodup_groupChoices none g).sublist (List.filter_sublist.map _)
  · simp only [List.mem_filterMap, Option.map_eq_some_iff, Prod.mk.injEq, Solution.unifyAll_empty]
    constructor
    · rintro ⟨⟨cs, eqs⟩, hc, sol, hsol, rfl, rfl⟩
      exact ⟨eqs, (mem_groupChoices none g).mp hc, hsol⟩
    · rintro ⟨eqs, hc, hsol⟩
      exact ⟨(cs, eqs), (mem_groupChoices none g).mpr hc, sol, hsol, rfl, rfl⟩
  · refine (extendGroup_perm_choices h none [∅] g).trans (.of_eq ?_)
    rw [List.flatMap_singleton, List.map_filterMap]
    simp only [Option.map_map, Function.comp_def, Option.map_id']

/-- Quads of a named graph and the default graph, joined on a variable that stands twice: of the
choices for this group three can be solved, in either order of its elements. -/
theorem Group.solutions_choices_union :
    let quad (object : String) (graph : Term) : Quad :=
      ⟨.iri "x:a", .iri "x:p", .iri object, graph⟩
    let s : SortedSet Quad := .ofList
      [quad "x:a" .defaultGraph, quad "x:b" (.iri "x:g"), quad "x:c" (.iri "x:g")]
    let triple (object : String) : Element := .triple ⟨.var "s", .term (.iri "x:p"), .var object⟩
    let g : Group := [triple "s", .union [[.graph (.var "g") [triple "o"]], [triple "s"]]]
    (Source.ofSet s).Lawful s ∧
      (∃ answers : List (List Choice × Solution), answers.length = 3 ∧
        (answers.map (·.1)).Nodup ∧
          ∀ cs sol, (cs, sol) ∈ answers ↔ ∃ eqs, GroupChosen s none g cs eqs ∧ sol.Solves eqs) ∧
      GroupReordered g g.reverse ∧
        (Group.solutions (.ofSet s) g.reverse).Perm (g.solutions (.ofSet s)) := by
  intro quad s triple g
  have hlawful : (Source.ofSet s).Lawful s := Source.lawful_ofSet s
  have hreordered : GroupReordered g g.reverse := .swap ..
  obtain ⟨⟨answers, hnodup, hmem, hperm⟩, horder⟩ := Group.solutions_choices hlawful g
  refine ⟨hlawful, ⟨answers, ?_, hnodup, hmem⟩, hreordered, horder _ hreordered⟩
  rw [← List.length_map (·.2), ← hperm.length_eq]
  decide +kernel

end DualStore
