import DualStore.Proofs.Mirroring
import DualStore.Proofs.ReadQueries
import DualStore.Proofs.Solutions

/-! Solutions over the index. The index holds the quads of a store with IRIs in place of blank
nodes, and putting these IRIs into a solution is the same as looking for it in the index
(`Group.mirrors_solutions`). Patterns must not name such IRIs: the store has no quads for them. -/

namespace DualStore

open List (Perm)

variable {src src' : Source} {s : SortedSet Quad} {active : Option Node} {q : Quad} {t : Term}

theorem Term.skolemize_eq_iff {t u : Term} (ht : t.isSkolem = false) (hu : u.isSkolem = false) :
    t.skolemize = u.skolemize ↔ t = u := ⟨skolemize_inj ht hu, congrArg skolemize⟩

theorem Term.skolemize_of_not_isBlank (h : t.isBlank = false) : t.skolemize = t := by
  cases t with
  | blank label => cases h
  | _ => rfl

/-! ## Nodes -/

/-- The node is a variable, or a term that is the same in the index and not there for another
one. -/
def Node.Plain (n : Node) : Prop := ∀ t, n = .term t → t.isSkolem = false ∧ t.isBlank = false

theorem Node.plain_of_label? {n : Node} (h : n.label? = none)
    (hskolem : ∀ t, n = .term t → t.isSkolem = false) : n.Plain := by
  rintro t rfl
  refine ⟨hskolem t rfl, ?_⟩
  cases t with
  | blank label => cases h
  | _ => rfl

/-! ## Solutions -/

namespace Solution

variable {sol sol' : Solution} {n : Node}

/-- The solution as it is over the index. -/
def skolemize (sol : Solution) : Solution := sol.map Term.skolemize

/-- No term of the solution is an IRI that stands for a blank node. -/
def Plain (sol : Solution) : Prop := ∀ v t, sol.get? v = some t → t.isSkolem = false

theorem plain_empty : (∅ : Solution).Plain := nofun

theorem get?_skolemize (v : String) : sol.skolemize.get? v = (sol.get? v).map Term.skolemize :=
  SortedMap.get?_map ..

theorem skolemize_insert (v : String) :
    skolemize (sol.insert v t) = sol.skolemize.insert v t.skolemize := by
  refine SortedMap.ext fun u => ?_
  rw [get?_skolemize, SortedMap.get?_insert, SortedMap.get?_insert, get?_skolemize]
  split <;> rfl

theorem Plain.insert (h : sol.Plain) (ht : t.isSkolem = false) (v : String) :
    Plain (SortedMap.insert sol v t) := by
  intro u t' hu
  rw [SortedMap.get?_insert] at hu
  split at hu
  · exact Option.some.inj hu ▸ ht
  · exact h u t' hu

/-- Blank nodes come back from the index. -/
theorem Plain.deskolemize_skolemize (h : sol.Plain) :
    sol.skolemize.map Term.deskolemize = sol := by
  refine SortedMap.ext fun v => ?_
  rw [SortedMap.get?_map, get?_skolemize, Option.map_map]
  cases hv : sol.get? v with
  | none => rfl
  | some t => exact congrArg some (Term.deskolemize_skolemize (h v t hv))

theorem Plain.skolemize_inj (h : sol.Plain) (h' : sol'.Plain)
    (heq : sol.skolemize = sol'.skolemize) : sol = sol' := by
  rw [← h.deskolemize_skolemize, ← h'.deskolemize_skolemize, heq]

theorem Plain.unify (h : sol.Plain) (ht : t.isSkolem = false)
    (hsol : sol.unify n t = some sol') : sol'.Plain := by
  cases n with
  | term u =>
    rw [Solution.unify, Option.ite_none_right_eq_some] at hsol
    exact Option.some.inj hsol.2 ▸ h
  | var v =>
    simp only [Solution.unify] at hsol
    split at hsol
    · rw [Option.ite_none_right_eq_some] at hsol
      exact Option.some.inj hsol.2 ▸ h
    · exact Option.some.inj hsol ▸ h.insert ht v

theorem unify_skolemize (hn : n.Plain) (h : sol.Plain) (ht : t.isSkolem = false) :
    sol.skolemize.unify n t.skolemize = (sol.unify n t).map skolemize := by
  cases n with
  | term u =>
    obtain ⟨hskolem, hblank⟩ := hn u rfl
    have heq : u = t.skolemize ↔ u = t := by
      rw [← Term.skolemize_eq_iff hskolem ht, Term.skolemize_of_not_isBlank hblank]
    simp only [unify, heq]
    split <;> rfl
  | var v =>
    simp only [unify, get?_skolemize]
    cases hv : sol.get? v with
    | none => exact congrArg some (skolemize_insert v).symm
    | some u =>
      simp only [Option.map_some, Term.skolemize_eq_iff (h v u hv) ht]
      split <;> rfl

end Solution

namespace Node

variable {n : Node} {sol : Solution}

theorem value?_skolemize (hn : n.Plain) :
    n.value? sol.skolemize = (n.value? sol).map Term.skolemize := by
  cases n with
  | term u => exact congrArg some (Term.skolemize_of_not_isBlank (hn u rfl).2).symm
  | var v => exact Solution.get?_skolemize v

theorem not_isSkolem_of_value? (hn : n.Plain) (h : sol.Plain) (ht : n.value? sol = some t) :
    t.isSkolem = false := by
  cases n with
  | term u => exact (hn t (congrArg Node.term (Option.some.inj ht))).1
  | var v => exact h v t ht

end Node

/-! ## Quads -/

namespace QuadPattern

variable {p : QuadPattern}

/-- The pattern as it is over the index. -/
def skolemize (p : QuadPattern) : QuadPattern :=
  ⟨p.subject.map Term.skolemize, p.predicate.map Term.skolemize, p.object.map Term.skolemize,
    p.graph.map Term.skolemize⟩

/-- No term of the pattern is an IRI that stands for a blank node. -/
structure Plain (p : QuadPattern) : Prop where
  subject : ∀ t ∈ p.subject, t.isSkolem = false
  predicate : ∀ t ∈ p.predicate, t.isSkolem = false
  object : ∀ t ∈ p.object, t.isSkolem = false
  graph : ∀ t ∈ p.graph, t.isSkolem = false

theorem Plain.accepts_skolemize (hp : p.Plain) (hq : q.Storable) :
    p.skolemize.accepts q.skolemize = p.accepts q := by
  have hall : ∀ {o : Option Term} {t : Term}, (∀ u ∈ o, u.isSkolem = false) →
      t.isSkolem = false →
      (o.map Term.skolemize).all (· == t.skolemize) = o.all (· == t) := by
    intro o t ho ht
    cases o with
    | none => rfl
    | some u =>
      rw [Option.map_some, Option.all_some, Option.all_some, Bool.eq_iff_iff, beq_iff_eq,
        beq_iff_eq, Term.skolemize_eq_iff (ho u rfl) ht]
  have hterms := hq.notSkolem
  simp only [List.forall_mem_cons] at hterms
  obtain ⟨hs, hpr, ho, hg, -⟩ := hterms
  simp only [accepts, skolemize, Quad.skolemize, hall hp.subject hs, hall hp.predicate hpr,
    hall hp.object ho, hall hp.graph hg]

end QuadPattern

theorem Quad.Storable.inDefaultGraph_skolemize (h : q.Storable) :
    q.skolemize.inDefaultGraph = q.inDefaultGraph :=
  congrArg Term.isDefaultGraph (Term.skolemize_of_isIri h.graph)

namespace Source

/-- `src` answers with quads that may be stored, and `src'` with the same as they are over the
index, in its own order. -/
structure MirroredBy (src src' : Source) : Prop where
  storable : ∀ p, ∀ q ∈ src.matching p, q.Storable
  perm : ∀ p : QuadPattern, p.Plain →
    (src'.matching p.skolemize).Perm ((src.matching p).map Quad.skolemize)

theorem Lawful.mirroredBy (h : src.Lawful s) (h' : src'.Lawful (Quad.skolemizeAll s))
    (hs : ∀ q ∈ s, q.Storable) : src.MirroredBy src' := by
  have hstorable : ∀ p, ∀ q ∈ src.matching p, q.Storable := fun p q hq =>
    hs q ((h p).2 q |>.mp hq).1
  refine ⟨hstorable, fun p hp => ?_⟩
  have hnodup : ((src.matching p).map Quad.skolemize).Nodup := (h p).1.map_on fun q hq u hu =>
    (hstorable p q hq).skolemize_inj (hstorable p u hu)
  refine (List.perm_ext_iff_of_nodup (h' _).1 hnodup).mpr fun u => ?_
  rw [(h' _).2, Quad.mem_skolemizeAll, List.mem_map]
  constructor
  · rintro ⟨⟨q, hq, rfl⟩, haccepts⟩
    rw [hp.accepts_skolemize (hs q hq)] at haccepts
    exact ⟨q, (h p).2 q |>.mpr ⟨hq, haccepts⟩, rfl⟩
  · rintro ⟨q, hq, rfl⟩
    obtain ⟨hq, haccepts⟩ := (h p).2 q |>.mp hq
    exact ⟨⟨q, hq, rfl⟩, hp.accepts_skolemize (hs q hq) ▸ haccepts⟩

end Source

/-! ## Patterns -/

namespace TriplePattern

variable {tp : TriplePattern} {sol sol' : Solution}

theorem plain_request (ht : ∀ n ∈ tp.nodes, n.Plain) (ha : ∀ n ∈ active, n.Plain)
    (h : sol.Plain) : (tp.request active sol).Plain := by
  have hvalue : ∀ {n : Node}, n.Plain → ∀ t ∈ n.value? sol, t.isSkolem = false :=
    fun hn t ht => Node.not_isSkolem_of_value? hn h ht
  simp only [nodes, List.forall_mem_cons] at ht
  obtain ⟨hs, hp, ho, -⟩ := ht
  refine ⟨hvalue hs, hvalue hp, hvalue ho, ?_⟩
  cases active with
  | none => exact fun t ht => Option.some.inj ht ▸ by decide
  | some graph => exact hvalue (ha graph rfl)

theorem request_skolemize (ht : ∀ n ∈ tp.nodes, n.Plain) (ha : ∀ n ∈ active, n.Plain) :
    tp.request active sol.skolemize = (tp.request active sol).skolemize := by
  simp only [nodes, List.forall_mem_cons] at ht
  obtain ⟨hs, hp, ho, -⟩ := ht
  cases active with
  | none =>
    simp only [request, QuadPattern.skolemize, Node.value?_skolemize hs, Node.value?_skolemize hp,
      Node.value?_skolemize ho]
    rfl
  | some graph =>
    simp only [request, QuadPattern.skolemize, Node.value?_skolemize hs, Node.value?_skolemize hp,
      Node.value?_skolemize ho, Node.value?_skolemize (ha graph rfl)]

private theorem bind_skolemize {f g : Solution → Option Solution} {o : Option Solution}
    (ho : ∀ sol ∈ o, sol.Plain)
    (hf : ∀ sol : Solution, sol.Plain → g sol.skolemize = (f sol).map Solution.skolemize) :
    (o.map Solution.skolemize).bind g = (o.bind f).map Solution.skolemize := by
  cases o with
  | none => rfl
  | some sol => exact hf sol (ho sol rfl)

private theorem unify_none : tp.unify none sol q = (sol.unify tp.subject q.subject).bind fun sol =>
    (sol.unify tp.predicate q.predicate).bind fun sol => sol.unify tp.object q.object := rfl

theorem plain_of_unify (h : sol.Plain) (hq : q.Storable)
    (hsol : tp.unify active sol q = some sol') : sol'.Plain :=
  keeps_of_unify (fun _ _ u hu _ _ h hsol => h.unify (hq.notSkolem u hu) hsol) h hsol

/-- A quad extends a solution in the index as it does over the store. -/
theorem unify_skolemize (ht : ∀ n ∈ tp.nodes, n.Plain) (ha : ∀ n ∈ active, n.Plain)
    (h : sol.Plain) (hq : q.Storable) :
    tp.unify active sol.skolemize q.skolemize =
      (tp.unify active sol q).map Solution.skolemize := by
  have hterm : ∀ t ∈ [q.subject, q.predicate, q.object, q.graph], t.isSkolem = false := hq.notSkolem
  simp only [nodes, List.forall_mem_cons] at ht hterm
  obtain ⟨hs, hp, ho, -⟩ := ht
  obtain ⟨hqs, hqp, hqo, hqg, -⟩ := hterm
  have htriple : ∀ sol : Solution, sol.Plain → tp.unify none sol.skolemize q.skolemize =
      (tp.unify none sol q).map Solution.skolemize := by
    intro sol h
    rw [unify_none, unify_none, Quad.skolemize, Solution.unify_skolemize hs h hqs]
    refine bind_skolemize (fun sol₁ h₁ => h.unify hqs h₁) fun sol₁ h₁ => ?_
    rw [Solution.unify_skolemize hp h₁ hqp]
    refine bind_skolemize (fun sol₂ h₂ => h₁.unify hqp h₂) fun sol₂ h₂ => ?_
    exact Solution.unify_skolemize ho h₂ hqo
  cases active with
  | none => exact htriple sol h
  | some graph =>
    rw [unify_some, unify_some, hq.inDefaultGraph_skolemize]
    split
    · rfl
    · rw [Quad.skolemize, Solution.unify_skolemize (ha graph rfl) h hqg]
      exact bind_skolemize (fun sol₀ h₀ => h.unify hqg h₀) htriple

end TriplePattern

/-- The second are the first as they are over the index, in some order. -/
structure Mirrors (sols sols' : List Solution) : Prop where
  plain : ∀ sol ∈ sols, sol.Plain
  perm : sols'.Perm (sols.map Solution.skolemize)

namespace Mirrors

theorem empty : Mirrors [∅] [∅] :=
  ⟨fun _ h => List.mem_singleton.mp h ▸ Solution.plain_empty, .refl _⟩

theorem append {sols₁ sols₂ sols₁' sols₂' : List Solution} (h₁ : Mirrors sols₁ sols₁')
    (h₂ : Mirrors sols₂ sols₂') : Mirrors (sols₁ ++ sols₂) (sols₁' ++ sols₂') where
  plain := List.forall_mem_append.mpr ⟨h₁.plain, h₂.plain⟩
  perm := by
    rw [List.map_append]
    exact h₁.perm.append h₂.perm

/-- Extending each solution on both sides. -/
theorem flatMap {sols sols' : List Solution} {f g : Solution → List Solution}
    (h : Mirrors sols sols')
    (hf : ∀ sol : Solution, sol.Plain → Mirrors (f sol) (g sol.skolemize)) :
    Mirrors (sols.flatMap f) (sols'.flatMap g) where
  plain sol hsol := by
    obtain ⟨sol₀, h₀, hsol⟩ := List.mem_flatMap.mp hsol
    exact (hf sol₀ (h.plain sol₀ h₀)).plain sol hsol
  perm := by
    refine (h.perm.flatMap_right g).trans ?_
    rw [List.flatMap_map, List.map_flatMap]
    exact .flatMap_left _ fun sol hsol => (hf sol (h.plain sol hsol)).perm

end Mirrors

theorem TriplePattern.mirrors_extend (h : src.MirroredBy src') {tp : TriplePattern}
    (ht : ∀ n ∈ tp.nodes, n.Plain) (ha : ∀ n ∈ active, n.Plain) {sol : Solution}
    (hsol : sol.Plain) :
    Mirrors (tp.extend src active sol) (tp.extend src' active sol.skolemize) := by
  constructor
  · intro sol' hsol'
    obtain ⟨q, hq, hsol'⟩ := List.mem_filterMap.mp hsol'
    exact plain_of_unify hsol (h.storable _ q hq) hsol'
  · rw [extend, request_skolemize ht ha]
    refine ((h.perm _ (plain_request ht ha hsol)).filterMap _).trans ?_
    rw [List.filterMap_map, extend, List.map_filterMap]
    refine .of_eq (List.filterMap_congr fun q hq => ?_)
    exact unify_skolemize ht ha hsol (h.storable _ q hq)

/-- A pattern has the same solutions over the store and over the index. -/
theorem Group.mirrors_solutions (h : src.MirroredBy src') {g : Group}
    (hg : ∀ n ∈ groupNodes g, n.Plain) : Mirrors (g.solutions src) (g.solutions src') :=
  have hties : src.Ties src' Node.Plain Mirrors :=
    { nil := ⟨List.forall_mem_nil _, .nil⟩
      append := .append
      triple := fun ha ht hsols => hsols.flatMap fun _ => TriplePattern.mirrors_extend h ht ha }
  hties.solutions .empty hg

end DualStore
