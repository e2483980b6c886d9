import DualStore.Proofs.Operations
import DualStore.Solution.Group
import DualStore.Solution.Template
import Mathlib.Data.List.Perm.Basic

/-! Solutions depend on the quads that their patterns read, and not on the order in which a source
answers: over lawful sources of sets that hold the same of these quads, a pattern has the same
solutions up to order. Templates without blank nodes need no names, so their quads depend on the
solutions alone. -/

namespace DualStore

open List (Perm)

variable {src src' : Source} {s s' : SortedSet Quad} {active : Option Node} {q : Quad}

/-! ## What patterns read -/

namespace Solution

variable {sol sol' low low' : Solution} {n : Node} {t : Term}

/-- `sol` has all terms that `low` has. -/
def Extends (sol low : Solution) : Prop := ∀ v t, low.get? v = some t → sol.get? v = some t

theorem unify_of_extends (h : sol.Extends low) (hsol : sol.unify n t = some sol') :
    ∃ low', low.unify n t = some low' ∧ sol'.Extends low' := by
  cases n with
  | term u =>
    rw [unify, Option.ite_none_right_eq_some] at hsol
    obtain ⟨hut, hsol⟩ := hsol
    exact ⟨low, if_pos hut, Option.some.inj hsol ▸ h⟩
  | var v =>
    -- either way the variable has the term afterwards, and no other variable has changed
    have hafter : sol'.get? v = some t ∧ sol'.Extends low := by
      simp only [unify] at hsol
      split at hsol
      next u hu =>
        rw [Option.ite_none_right_eq_some] at hsol
        obtain ⟨rfl, hsol⟩ := hsol
        exact Option.some.inj hsol ▸ ⟨hu, h⟩
      next hnone =>
        cases hsol
        refine ⟨by rw [SortedMap.get?_insert, if_pos rfl], fun u t' hu => ?_⟩
        have huv : u ≠ v := by
          rintro rfl
          rw [h u t' hu] at hnone
          cases hnone
        rw [SortedMap.get?_insert, if_neg huv, h u t' hu]
    obtain ⟨hself, hkept⟩ := hafter
    cases hlow : low.get? v with
    | some u =>
      have hut : u = t := Option.some.inj ((hkept v u hlow).symm.trans hself)
      exact ⟨low, by simp only [unify, hlow, hut, if_true], hkept⟩
    | none =>
      refine ⟨low.insert v t, by simp only [unify, hlow], fun u t' hu => ?_⟩
      rw [SortedMap.get?_insert] at hu
      split at hu
      next huv => rw [huv, hself, hu]
      next => exact hkept u t' hu

end Solution

namespace TriplePattern

variable {t : TriplePattern} {sol sol' low : Solution}

/-- A quad that fits the pattern as long as no variable has a term. -/
def reads (t : TriplePattern) (active : Option Node) (q : Quad) : Bool :=
  (t.unify active ∅ q).isSome

/-- The graph is seen to first. -/
theorem unify_some (graph : Node) : t.unify (some graph) sol q =
    if q.inDefaultGraph then none else (sol.unify graph q.graph).bind (t.unify none · q) := by
  rw [unify]
  split <;> rfl

/-- What the unification of any node with any part of the quad keeps, the pattern keeps. -/
theorem keeps_of_unify {P : Solution → Prop}
    (hkeeps : ∀ n ∈ active.toList ++ [t.subject, t.predicate, t.object],
      ∀ u ∈ [q.subject, q.predicate, q.object, q.graph],
        ∀ {sol sol' : Solution}, P sol → sol.unify n u = some sol' → P sol')
    (h : P sol) (hsol : t.unify active sol q = some sol') : P sol' := by
  have htriple : ∀ {sol : Solution}, P sol → t.unify none sol q = some sol' → P sol' := by
    intro sol h hsol
    simp only [unify, bind, Option.bind_some, Option.bind_eq_some_iff] at hsol
    obtain ⟨sol₁, h₁, sol₂, h₂, h₃⟩ := hsol
    have h₁ := hkeeps t.subject (by simp) q.subject (by simp) h h₁
    have h₂ := hkeeps t.predicate (by simp) q.predicate (by simp) h₁ h₂
    exact hkeeps t.object (by simp) q.object (by simp) h₂ h₃
  cases active with
  | none => exact htriple h hsol
  | some graph =>
    rw [unify_some, Option.ite_none_left_eq_some, Option.bind_eq_some_iff] at hsol
    obtain ⟨-, sol₀, h₀, hsol⟩ := hsol
    exact htriple (hkeeps graph (by simp) q.graph (by simp) h h₀) hsol

theorem unify_of_extends (h : sol.Extends low) (hsol : t.unify active sol q = some sol') :
    ∃ low', t.unify active low q = some low' := by
  have htriple : ∀ {sol low sol' : Solution}, sol.Extends low → t.unify none sol q = some sol' →
      ∃ low', t.unify none low q = some low' := by
    intro sol low sol' h hsol
    simp only [unify, bind, Option.bind_some, Option.bind_eq_some_iff] at hsol ⊢
    obtain ⟨sol₁, hs, sol₂, hp, ho⟩ := hsol
    obtain ⟨low₁, hs, h₁⟩ := Solution.unify_of_extends h hs
    obtain ⟨low₂, hp, h₂⟩ := Solution.unify_of_extends h₁ hp
    obtain ⟨low₃, ho, -⟩ := Solution.unify_of_extends h₂ ho
    exact ⟨low₃, low₁, hs, low₂, hp, ho⟩
  cases active with
  | none => exact htriple h hsol
  | some graph =>
    rw [unify_some, Option.ite_none_left_eq_some, Option.bind_eq_some_iff] at hsol
    obtain ⟨hnamed, sol₀, hgraph, hsol⟩ := hsol
    obtain ⟨low₀, hlow, h₀⟩ := Solution.unify_of_extends h hgraph
    obtain ⟨low', hlow'⟩ := htriple h₀ hsol
    exact ⟨low', by rw [unify_some, if_neg hnamed, hlow, Option.bind_some, hlow']⟩

theorem reads_of_unify (h : t.unify active sol q = some sol') : t.reads active q = true := by
  have hempty : sol.Extends ∅ := nofun
  obtain ⟨low, hlow⟩ := unify_of_extends hempty h
  rw [reads, hlow]
  rfl

/-- A source is asked for more quads than the pattern reads. The others are not used. -/
theorem extend_perm (h : src.Lawful s) (h' : src'.Lawful s') (hs : s.AgreeOn (t.reads active) s')
    (sol : Solution) : (t.extend src active sol).Perm (t.extend src' active sol) := by
  refine filterMap_perm_of_nodup (h _).1 (h' _).1 fun q hq => ?_
  obtain ⟨sol', hq⟩ := Option.isSome_iff_exists.mp hq
  rw [(h _).2, (h' _).2]
  exact and_congr_left fun _ => hs q (reads_of_unify hq)

end TriplePattern

mutual

/-- A quad that some triple pattern of an element reads. -/
def Element.reads (active : Option Node) (q : Quad) : Element → Bool
  | .triple t => t.reads active q
  | .graph name inner => groupReads (some name) q inner
  | .union alternatives => unionReads active q alternatives
  | .group inner => groupReads active q inner

@[inherit_doc Element.reads]
def groupReads (active : Option Node) (q : Quad) : List Element → Bool
  | [] => false
  | e :: es => e.reads active q || groupReads active q es

@[inherit_doc Element.reads]
def unionReads (active : Option Node) (q : Quad) : List (List Element) → Bool
  | [] => false
  | g :: gs => groupReads active q g || unionReads active q gs

end

mutual

theorem Element.extend_perm (h : src.Lawful s) (h' : src'.Lawful s') (active : Option Node)
    {sols sols' : List Solution} (hs : sols.Perm sols') : (e : Element) →
      s.AgreeOn (e.reads active) s' → (e.extend src active sols).Perm (e.extend src' active sols')
  | .triple _, ha => hs.flatMap fun _ _ => TriplePattern.extend_perm h h' ha _
  | .graph _ inner, ha => extendGroup_perm h h' _ hs inner ha
  | .union alternatives, ha => extendUnion_perm h h' active hs alternatives ha
  | .group inner, ha => extendGroup_perm h h' active hs inner ha

theorem extendGroup_perm (h : src.Lawful s) (h' : src'.Lawful s') (active : Option Node)
    {sols sols' : List Solution} (hs : sols.Perm sols') : (g : List Element) →
      s.AgreeOn (groupReads active · g) s' →
        (extendGroup src active sols g).Perm (extendGroup src' active sols' g)
  | [], _ => hs
  | e :: es, ha => extendGroup_perm h h' active
      (e.extend_perm h h' active hs (ha.mono fun _ hq => Bool.or_eq_true_iff.mpr (.inl hq))) es
      (ha.mono fun _ hq => Bool.or_eq_true_iff.mpr (.inr hq))

theorem extendUnion_perm (h : src.Lawful s) (h' : src'.Lawful s') (active : Option Node)
    {sols sols' : List Solution} (hs : sols.Perm sols') : (gs : List (List Element)) →
      s.AgreeOn (unionReads active · gs) s' →
        (extendUnion src active sols gs).Perm (extendUnion src' active sols' gs)
  | [], _ => .nil
  | g :: gs, ha =>
    (extendGroup_perm h h' active hs g
      (ha.mono fun _ hq => Bool.or_eq_true_iff.mpr (.inl hq))).append
        (extendUnion_perm h h' active hs gs
          (ha.mono fun _ hq => Bool.or_eq_true_iff.mpr (.inr hq)))

end

/-- A quad that some triple pattern of a group reads by itself. -/
def Group.reads (g : Group) (q : Quad) : Bool := groupReads none q g

theorem Group.solutions_perm {g : Group} (h : src.Lawful s) (h' : src'.Lawful s')
    (hs : s.AgreeOn g.reads s') : (g.solutions src).Perm (g.solutions src') :=
  extendGroup_perm h h' none (.refl _) g hs

/-! ## Templates -/

theorem Node.instantiate_of_label? {n : Node} (h : n.label? = none)
    (sol : Solution) (name name' : String → Term) :
    n.instantiate sol name = n.instantiate sol name' := by
  rcases n with v | t
  · rfl
  · cases t with
    | blank label => cases h
    | _ => rfl

/-- No node of a template is a blank node. -/
def QuadTemplate.BlankFree (t : QuadTemplate) : Prop := ∀ n ∈ t.nodes, n.label? = none

namespace QuadTemplate

variable {t : QuadTemplate} {ts : List QuadTemplate}

instance : Decidable t.BlankFree := inferInstanceAs (Decidable (∀ n ∈ t.nodes, n.label? = none))

theorem BlankFree.instantiate_eq (h : t.BlankFree) (sol : Solution) (name name' : String → Term) :
    t.instantiate sol name = t.instantiate sol name' := by
  have hn := fun n hn => Node.instantiate_of_label? (h n hn) sol name name'
  have hg : ∀ g, t.graph = some g → g.instantiate sol name = g.instantiate sol name' :=
    fun g hg => hn g (by simp [nodes, hg])
  simp only [QuadTemplate.instantiate, hn t.triple.subject (by simp [nodes]),
    hn t.triple.predicate (by simp [nodes]), hn t.triple.object (by simp [nodes])]
  cases htg : t.graph with
  | none => rfl
  | some g => simp only [hg g htg]

/-- Every solution is named, and in order. -/
theorem map_fst_nameBlanks (ts : List QuadTemplate) (next : Nat) (sols : List Solution) :
    (nameBlanks ts next sols).1.map (·.1) = sols := by
  induction sols generalizing next with
  | nil => rfl
  | cons sol sols ih => simp [nameBlanks, ih]

theorem mem_quads_nameBlanks (h : ∀ t ∈ ts, t.BlankFree) (all : List QuadTemplate) (next : Nat)
    (sols : List Solution) (q : Quad) : q ∈ quads ts (nameBlanks all next sols).1 ↔
      ∃ sol ∈ sols, ∃ t ∈ ts, t.instantiate sol Term.blank = some q := by
  have hmem : q ∈ quads ts (nameBlanks all next sols).1 ↔
      ∃ sol ∈ (nameBlanks all next sols).1.map (·.1), ∃ t ∈ ts,
        t.instantiate sol Term.blank = some q := by
    simp only [quads, List.mem_flatMap, List.mem_filterMap, List.mem_map]
    constructor
    · rintro ⟨⟨sol, name⟩, hsol, t, ht, hq⟩
      exact ⟨sol, ⟨_, hsol, rfl⟩, t, ht, (h t ht).instantiate_eq sol .. ▸ hq⟩
    · rintro ⟨_, ⟨⟨sol, name⟩, hsol, rfl⟩, t, ht, hq⟩
      exact ⟨_, hsol, t, ht, (h t ht).instantiate_eq sol .. ▸ hq⟩
  rwa [map_fst_nameBlanks] at hmem

end QuadTemplate
end DualStore
