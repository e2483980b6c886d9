import DualStore.Proofs.BuiltTerms
import DualStore.Proofs.MirroredAnswers

/-! Which IRIs that stand for blank nodes are seen in answers. The service puts blank nodes back in
rows, subjects and objects. It leaves predicates as they are, and a template with a variable as its
predicate has such an IRI there wherever the variable is a blank node over the store
(`Service.sparqlQuery_skolem_iff`). -/

namespace DualStore

variable {src : Source} {sol : Solution} {u : Term}

namespace Answer

/-- The terms of rows, and the subjects and objects of triples. -/
def ends : Answer → List Term
  | rows sols => sols.flatMap SortedMap.values
  | triples ts => ts.flatMap fun t => [t.subject, t.object]
  | boolean _ => []

def predicates : Answer → List Term
  | triples ts => ts.map Triple.predicate
  | rows _ | boolean _ => []

theorem predicates_deskolemize (a : Answer) : a.deskolemize.predicates = a.predicates := by
  cases a with
  | triples ts => exact List.map_map
  | _ => rfl

end Answer

/-- All nodes of the triples that a query builds. -/
def Query.templateNodes : Query → List Node
  | construct template _ _ => template.flatMap TriplePattern.nodes
  | select .. | ask _ | describe .. => []

/-! ## Terms -/

namespace Term

theorem isSkolem_deskolemize (t : Term) : t.deskolemize.isSkolem = false := by
  cases t with
  | iri value =>
    rw [deskolemize]
    split
    next => rfl
    next h => exact Bool.not_eq_true _ ▸ h
  | _ => rfl

/-- An IRI stands for a blank node only if it was put there for one. -/
theorem isSkolem_skolemize_iff {t : Term} (ht : t.isSkolem = false) :
    t.skolemize.isSkolem = true ↔ ∃ label, t = blank label := by
  cases t with
  | blank label =>
    refine iff_of_true ?_ ⟨label, rfl⟩
    rw [skolemize, isSkolem, String.toList_append, List.isPrefixOf_iff_prefix]
    exact List.prefix_append ..
  | iri value =>
    rw [skolemize_of_isIri rfl, ht]
    refine iff_of_false Bool.false_ne_true ?_
    rintro ⟨label, hlabel⟩
    cases hlabel
  | literal l =>
    refine iff_of_false Bool.false_ne_true ?_
    rintro ⟨label, hlabel⟩
    cases hlabel

theorem isAlphanum_of_mem_toDigits {n : Nat} {c : Char} (hc : c ∈ Nat.toDigits 16 n) :
    c.isAlphanum = true := by
  have hdigit : ∀ d < 16, d.digitChar.isAlphanum = true := by decide
  induction n using Nat.strongRecOn with
  | ind n ih =>
    by_cases hn : n < 16
    · rw [Nat.toDigits_of_lt_base hn, List.mem_singleton] at hc
      exact hc ▸ hdigit n hn
    · rw [Nat.toDigits_of_base_le (by omega) (by omega), List.mem_append] at hc
      rcases hc with hc | hc
      · exact ih (n / 16) (by omega) hc
      · exact List.mem_singleton.mp hc ▸ hdigit (n % 16) (by omega)

/-- Labels that are made up are well formed. -/
theorem check_fresh (n : Nat) : (fresh n).check = .ok () := by
  have hlabel : (freshLabel n).toList = 'b' :: '0' :: '1' ::
      (List.replicate (30 - (Nat.toDigits 16 n).length) '0' ++ Nat.toDigits 16 n) := by
    simp only [freshLabel, String.toList_append, String.toList_ofList]
    rfl
  have hchars : ∀ c ∈ List.replicate (30 - (Nat.toDigits 16 n).length) '0' ++ Nat.toDigits 16 n,
      isLabelChar c = true := by
    intro c hc
    rcases List.mem_append.mp hc with hc | hc
    · exact List.eq_of_mem_replicate hc ▸ rfl
    · rw [isLabelChar, isAlphanum_of_mem_toDigits hc]
      rfl
  refine if_pos ?_
  rw [hlabel, isLabel, List.all_cons, List.all_cons, List.all_cons, List.all_eq_true.mpr hchars]
  rfl

end Term

/-! ## Templates -/

namespace QuadTemplate

variable {t : TriplePattern} {name name' : String → Term} {q : Quad}

/-- All names are made up. -/
def IsFresh (name : String → Term) : Prop := ∀ label, ∃ n, name label = .fresh n

theorem isFresh_of_mem_nameBlanks {ts : List QuadTemplate} {sols : List Solution} {next : Nat}
    (h : (sol, name) ∈ (nameBlanks ts next sols).1) : IsFresh name := by
  induction sols generalizing next with
  | nil => cases h
  | cons sol' sols ih =>
    rcases List.mem_cons.mp h with h | h
    · cases h
      exact fun label => ⟨_, rfl⟩
    · exact ih h

theorem mem_nameBlanks {ts : List QuadTemplate} {sols : List Solution} {next : Nat} :
    (∃ name, (sol, name) ∈ (nameBlanks ts next sols).1) ↔ sol ∈ sols := by
  conv_rhs => rw [← map_fst_nameBlanks ts next sols]
  simp

theorem instantiate_eq_some : (⟨t, none⟩ : QuadTemplate).instantiate sol name = some q ↔
    q.check = .ok () ∧ q.graph = .defaultGraph ∧
      t.subject.instantiate sol name = some q.subject ∧
      t.predicate.instantiate sol name = some q.predicate ∧
      t.object.instantiate sol name = some q.object := by
  simp only [instantiate, bind, Option.bind_some, Option.bind_eq_some_iff,
    Option.ite_none_right_eq_some, Option.some_inj, isOk_iff]
  constructor
  · rintro ⟨s, hs, p, hp, o, ho, hcheck, rfl⟩
    exact ⟨hcheck, rfl, hs, hp, ho⟩
  · rintro ⟨hcheck, hgraph, hs, hp, ho⟩
    have hq : Quad.of q.subject q.predicate q.object none = q :=
      congrArg (Quad.mk q.subject q.predicate q.object) hgraph.symm
    exact ⟨_, hs, _, hp, _, ho, by rwa [hq], hq⟩

/-- A node stands for the same term under other names, or for a made up one under both. -/
theorem instantiate_of_isFresh {n : Node} {x : Term} (hn : IsFresh name) (hn' : IsFresh name')
    (h : n.instantiate sol name = some x) : ∃ y, n.instantiate sol name' = some y ∧
      (y = x ∨ ∃ i j, x = .fresh i ∧ y = .fresh j) := by
  cases hl : n.label? with
  | none => exact ⟨x, Node.instantiate_of_label? hl sol name name' ▸ h, .inl rfl⟩
  | some label =>
    obtain ⟨rfl⟩ : n = .term (.blank label) := by
      rcases n with v | _ | _ | _ <;> cases hl
      rfl
    obtain ⟨i, hi⟩ := hn label
    obtain ⟨j, hj⟩ := hn' label
    exact ⟨.fresh j, congrArg some hj, .inr ⟨i, j, (Option.some.inj h).symm.trans hi, rfl⟩⟩

/-- Such an IRI that a node does not name comes from a variable. -/
theorem exists_var_of_isSkolem {n : Node} (hn : IsFresh name)
    (hplain : ∀ x, n = .term x → x.isSkolem = false) (h : n.instantiate sol name = some u)
    (hu : u.isSkolem = true) : ∃ v, n = .var v ∧ sol.get? v = some u := by
  rcases n with v | x
  · exact ⟨v, rfl, h⟩
  · have hx := hplain x rfl
    cases x with
    | blank label =>
      obtain ⟨i, hi⟩ := hn label
      rw [← Option.some.inj h, hi] at hu
      cases hu
    | iri value =>
      rw [← Option.some.inj h, hx] at hu
      cases hu
    | literal l =>
      rw [← Option.some.inj h] at hu
      cases hu

/-- Whether a template has a triple in a solution does not depend on the names of blank nodes. -/
theorem isSome_instantiate_of_isFresh (hn : IsFresh name) (hn' : IsFresh name')
    (h : ((⟨t, none⟩ : QuadTemplate).instantiate sol name).isSome = true) :
    ((⟨t, none⟩ : QuadTemplate).instantiate sol name').isSome = true := by
  have hsame : ∀ {x y : Term}, (y = x ∨ ∃ i j, x = .fresh i ∧ y = .fresh j) →
      (x.check = .ok () → y.check = .ok ()) ∧ y.isIri = x.isIri ∧ y.isBlank = x.isBlank ∧
        y.isDefaultGraph = x.isDefaultGraph := by
    rintro x y (rfl | ⟨i, j, rfl, rfl⟩)
    · exact ⟨id, rfl, rfl, rfl⟩
    · exact ⟨fun _ => Term.check_fresh j, rfl, rfl, rfl⟩
  obtain ⟨q, hq⟩ := Option.isSome_iff_exists.mp h
  obtain ⟨hcheck, hgraph, hs, hp, ho⟩ := instantiate_eq_some.mp hq
  obtain ⟨s, hs', hss⟩ := instantiate_of_isFresh hn hn' hs
  obtain ⟨p, hp', hpp⟩ := instantiate_of_isFresh hn hn' hp
  obtain ⟨o, ho', hoo⟩ := instantiate_of_isFresh hn hn' ho
  obtain ⟨hsc, hsi, hsb, hsd⟩ := hsame hss
  obtain ⟨hpc, hpi, -, hpd⟩ := hsame hpp
  obtain ⟨hoc, -, -, hod⟩ := hsame hoo
  have hrenamed : (⟨s, p, o, q.graph⟩ : Quad).check = .ok () := by
    simp only [Quad.check_eq_ok, List.forall_mem_cons, hsi, hsb, hsd, hpi, hpd, hod] at hcheck ⊢
    obtain ⟨⟨hsubject, hpredicate, hobject, hrest⟩, hplaces⟩ := hcheck
    exact ⟨⟨hsc hsubject, hpc hpredicate, hoc hobject, hrest⟩, hplaces⟩
  exact Option.isSome_of_eq_some (instantiate_eq_some.mpr ⟨hrenamed, hgraph, hs', hp', ho'⟩)

end QuadTemplate

/-- A template has a triple in a solution: its variables have terms there, and these may stand
where they do. What its blank nodes are named does not matter. -/
def TriplePattern.HasTriple (t : TriplePattern) (sol : Solution) : Prop :=
  ((⟨t, none⟩ : QuadTemplate).instantiate sol fun _ => .fresh 0).isSome = true

instance (t : TriplePattern) (sol : Solution) : Decidable (t.HasTriple sol) :=
  inferInstanceAs (Decidable (_ = true))

/-! ## Answers -/

theorem Answer.isSkolem_of_mem_ends {a : Answer} (h : u ∈ a.deskolemize.ends) :
    u.isSkolem = false := by
  cases a with
  | rows sols =>
    obtain ⟨row, hrow, hu⟩ := List.mem_flatMap.mp h
    obtain ⟨sol, -, rfl⟩ := List.mem_map.mp hrow
    obtain ⟨v, hv⟩ := SortedMap.mem_values.mp hu
    rw [SortedMap.get?_map, Option.map_eq_some_iff] at hv
    obtain ⟨t, -, rfl⟩ := hv
    exact t.isSkolem_deskolemize
  | triples ts =>
    obtain ⟨triple, htriple, hu⟩ := List.mem_flatMap.mp h
    obtain ⟨t, -, rfl⟩ := List.mem_map.mp htriple
    simp only [List.mem_cons, List.not_mem_nil, or_false] at hu
    rcases hu with rfl | rfl
    · exact t.subject.isSkolem_deskolemize
    · exact t.object.isSkolem_deskolemize
  | boolean b => cases h

theorem Query.mem_of_mem_window {α : Type} {items : List α} {offset : Nat} {limit : Option Nat}
    {a : α} (h : a ∈ window items offset limit) : a ∈ items := by
  cases limit with
  | none => exact List.mem_of_mem_drop h
  | some n => exact List.mem_of_mem_drop (List.mem_of_mem_take h)

/-- A template shows such an IRI as a predicate where its variable stands for one. -/
theorem Query.mem_predicates_construct (src : Source) (next : Nat)
    {template : List TriplePattern} {pattern : Group} {limit : Option Nat} (hu : u.isSkolem = true)
    (ht : ∀ t, .term t ∈ (construct template pattern limit).templateNodes → t.isSkolem = false) :
    u ∈ ((construct template pattern limit).answer src next).1.predicates ↔
      ∃ t ∈ template, ∃ v, t.predicate = .var v ∧
        ∃ sol ∈ window (pattern.solutions src) 0 limit, sol.get? v = some u ∧
          t.HasTriple sol := by
  have hfresh : QuadTemplate.IsFresh fun _ => Term.fresh 0 := fun _ => ⟨0, rfl⟩
  simp only [answer, Answer.predicates, List.mem_map, List.mem_eraseDups, QuadTemplate.quads,
    List.mem_flatMap, List.mem_filterMap]
  constructor
  · rintro ⟨_, ⟨q, ⟨⟨sol, name⟩, hnamed, _, ⟨t, htemplate, rfl⟩, hq⟩, rfl⟩, rfl⟩
    have hname := QuadTemplate.isFresh_of_mem_nameBlanks hnamed
    have hp := (QuadTemplate.instantiate_eq_some.mp hq).2.2.2.1
    have hplain : ∀ x, t.predicate = .term x → x.isSkolem = false := fun x hx =>
      ht x (List.mem_flatMap.mpr ⟨t, htemplate, by simp [TriplePattern.nodes, hx]⟩)
    obtain ⟨v, hv, hget⟩ := QuadTemplate.exists_var_of_isSkolem hname hplain hp hu
    exact ⟨t, htemplate, v, hv, sol, QuadTemplate.mem_nameBlanks.mp ⟨name, hnamed⟩, hget,
      QuadTemplate.isSome_instantiate_of_isFresh hname hfresh (Option.isSome_of_eq_some hq)⟩
  · rintro ⟨t, htemplate, v, hv, sol, hsol, hget, hsome⟩
    obtain ⟨name, hnamed⟩ := QuadTemplate.mem_nameBlanks.mpr hsol
    have hname := QuadTemplate.isFresh_of_mem_nameBlanks hnamed
    obtain ⟨q, hq⟩ := Option.isSome_iff_exists.mp
      (QuadTemplate.isSome_instantiate_of_isFresh hfresh hname hsome)
    have hp := (QuadTemplate.instantiate_eq_some.mp hq).2.2.2.1
    rw [hv] at hp
    exact ⟨q.triple, ⟨q, ⟨_, hnamed, _, ⟨t, htemplate, rfl⟩, hq⟩, rfl⟩,
      Option.some.inj (hp.symm.trans hget)⟩

/-- The predicates of the quads of a store stay as they are in the index. -/
theorem Query.isSkolem_of_mem_predicates_describe {m : SortedSet Quad} {resources : List Node}
    {pattern : Option Group} {next : Nat} (hm : ∀ q ∈ m, q.Storable)
    (h : u ∈ ((describe resources pattern).answer (.ofSet (Quad.skolemizeAll m)) next).1.predicates) :
    u.isSkolem = false := by
  simp only [answer, Answer.predicates, List.mem_map, List.mem_flatMap] at h
  obtain ⟨_, ⟨t, -, q', hq', rfl⟩, rfl⟩ := h
  obtain ⟨q, hq, rfl⟩ := Quad.mem_skolemizeAll.mp ((Source.lawful_ofSet _ _).2 _ |>.mp hq').1
  have hstorable := hm q hq
  change q.predicate.skolemize.isSkolem = false
  rw [Term.skolemize_of_isIri hstorable.predicate]
  exact hstorable.notSkolem q.predicate (by simp)

namespace Service

variable {s : Service MemoryIndex} {space text : String} {q : Query}

/-- An answer shows no IRI that stands for a blank node in a row, as a subject or as an object. As
a predicate it shows those that a template of a `CONSTRUCT` has there for a variable that is a
blank node over the store. -/
theorem sparqlQuery_skolem_iff {store : Store} (hget : s.registry.get space = .ok store)
    (hstore : store.Reachable) (hf : store.Fits)
    (hm : s.side.index.datasets.get? space = some (Quad.skolemizeAll store.quads))
    (hq : Query.ofText text = .ok q)
    (hnames : ∀ t, .term t ∈ q.nodes ++ q.templateNodes → t.isSkolem = false) :
    if s.side.index.available then
      ∃ answer, (sparqlQuery space text s).1 = .ok answer ∧
        (∀ u ∈ answer.ends, u.isSkolem = false) ∧
        ∀ u, u ∈ answer.predicates ∧ u.isSkolem = true ↔
          ∃ template pattern limit, q = .construct template pattern limit ∧
            ∃ t ∈ template, ∃ v, t.predicate = .var v ∧
              ∃ sol ∈ pattern.solutions store.source,
                sol.skolemize ∈ Query.window
                  (pattern.solutions (.ofSet (Quad.skolemizeAll store.quads))) 0 limit ∧
                (∃ label, sol.get? v = some (.blank label) ∧ u = (Term.blank label).skolemize) ∧
                t.HasTriple sol.skolemize
    else (sparqlQuery space text s).1 = .error (.indexQuery .unavailable) := by
  rw [sparqlQuery_run (Registry.contains_of_get hget) hq hm]
  split
  · obtain ⟨hvalid, hstorable⟩ := hstore.valid hf
    have hmirrored := (hvalid.source_lawful hf).mirroredBy (Source.lawful_ofSet _) hstorable
    have hplain : ∀ n ∈ q.nodes, n.Plain := fun n hn =>
      Node.plain_of_label? (Query.ofText_nodes hq n hn) fun t ht =>
        hnames t (List.mem_append_left _ (ht ▸ hn))
    refine ⟨_, rfl, fun u => Answer.isSkolem_of_mem_ends, fun u => ?_⟩
    rw [Answer.predicates_deskolemize]
    cases q with
    | construct template pattern limit =>
      have hsols := Group.mirrors_solutions hmirrored hplain
      have hshown := fun hu : u.isSkolem = true =>
        Query.mem_predicates_construct (.ofSet (Quad.skolemizeAll store.quads)) s.side.next hu
          fun t ht => hnames t (List.mem_append_right _ ht)
      constructor
      · rintro ⟨hmem, hu⟩
        obtain ⟨t, ht, v, hv, sol', hsol', hget', htriple⟩ := (hshown hu).mp hmem
        have hindex : sol' ∈ pattern.solutions (.ofSet (Quad.skolemizeAll store.quads)) :=
          Query.mem_of_mem_window hsol'
        obtain ⟨sol, hsol, rfl⟩ := List.mem_map.mp (hsols.perm.mem_iff.mp hindex)
        rw [Solution.get?_skolemize, Option.map_eq_some_iff] at hget'
        obtain ⟨x, hx, rfl⟩ := hget'
        obtain ⟨label, rfl⟩ := (Term.isSkolem_skolemize_iff (hsols.plain sol hsol v x hx)).mp hu
        exact ⟨template, pattern, limit, rfl, t, ht, v, hv, sol, hsol, hsol', ⟨label, hx, rfl⟩,
          htriple⟩
      · rintro ⟨_, _, _, heq, t, ht, v, hv, sol, hsol, hsol', ⟨label, hx, rfl⟩, htriple⟩
        cases heq
        have hu : (Term.blank label).skolemize.isSkolem = true :=
          (Term.isSkolem_skolemize_iff rfl).mpr ⟨label, rfl⟩
        refine ⟨(hshown hu).mpr ⟨t, ht, v, hv, _, hsol', ?_, htriple⟩, hu⟩
        rw [Solution.get?_skolemize, hx, Option.map_some]
    | select | ask =>
      refine iff_of_false (fun h => nomatch h.1) ?_
      rintro ⟨_, _, _, h, -⟩
      cases h
    | describe resources pattern =>
      refine iff_of_false (fun h => ?_) ?_
      · rw [Query.isSkolem_of_mem_predicates_describe hstorable h.1] at h
        cases h.2
      · rintro ⟨_, _, _, h, -⟩
        cases h
  · rfl

/-- The IRI of a blank node is the predicate of a triple that was built from it. -/
theorem sparqlQuery_skolem_iff_construct :
    let u : Quad := ⟨.blank "b", .iri "x:p", .plain "1", .defaultGraph⟩
    let store := (Store.perform ({}, {}) ⟨.insert, u⟩).1
    let s : Service MemoryIndex :=
      { registry := ⟨(∅ : SortedMap _ _).insert "s" ⟨⟨"s", ""⟩, store⟩⟩
        side := { index :=
          { datasets := (∅ : SortedMap _ _).insert "s" (Quad.skolemizeAll store.quads) } } }
    let text := "CONSTRUCT \x7b <x:a> ?s <x:b> \x7d WHERE \x7b ?s <x:p> ?o \x7d"
    let t : TriplePattern := ⟨.term (.iri "x:a"), .var "s", .term (.iri "x:b")⟩
    let q : Query := .construct [t] [.triple ⟨.var "s", .term (.iri "x:p"), .var "o"⟩] none
    s.registry.get "s" = .ok store ∧ store.Reachable ∧ store.Fits ∧
      s.side.index.datasets.get? "s" = some (Quad.skolemizeAll store.quads) ∧
      Query.ofText text = .ok q ∧
      (∀ t, .term t ∈ q.nodes ++ q.templateNodes → t.isSkolem = false) ∧
      ∃ answer, (sparqlQuery "s" text s).1 = .ok answer ∧
        (∀ u ∈ answer.ends, u.isSkolem = false) ∧
        .iri "urn:quadsync:bnode:b" ∈ answer.predicates := by
  intro u store s text t q
  have hget : s.registry.get "s" = .ok store := by decide +kernel
  have hwrite : ({} : Store).write [⟨.insert, u⟩] = .ok (store, ⟨1, 0⟩) := by decide +kernel
  have hstore : store.Reachable := .write .empty hwrite
  have hf : store.Fits := by decide +kernel
  have hm : s.side.index.datasets.get? "s" = some (Quad.skolemizeAll store.quads) :=
    SortedMap.get?_insert ..
  have htokens : Token.ofText text = .ok [.word "CONSTRUCT", .punct '\x7b', .iri "x:a", .var "s",
      .iri "x:b", .punct '\x7d', .word "WHERE", .punct '\x7b', .var "s", .iri "x:p", .var "o",
      .punct '\x7d'] := by decide +kernel
  have hq : Query.ofText text = .ok q := by
    rw [Query.ofText, htokens]
    change Query.ofTokens _ = .ok q
    with_unfolding_all rfl
  have hnames : ∀ t, .term t ∈ q.nodes ++ q.templateNodes → t.isSkolem = false := by
    intro x hx
    simp [q, t, Query.nodes, Query.templateNodes, groupNodes, Element.nodes,
      TriplePattern.nodes] at hx
    rcases hx with rfl | rfl | rfl <;> decide
  obtain ⟨answer, hanswer, hends, hpredicates⟩ :=
    sparqlQuery_skolem_iff hget hstore hf hm hq hnames
  have hsol : ((∅ : Solution).insert "s" (.blank "b")).insert "o" (.plain "1") ∈
      Group.solutions store.source [.triple ⟨.var "s", .term (.iri "x:p"), .var "o"⟩] := by
    decide +kernel
  have hshown := (hpredicates (.iri "urn:quadsync:bnode:b")).mpr ⟨[t], _, none, rfl, t,
    List.mem_singleton_self t, "s", rfl, _, hsol, by decide +kernel, ⟨"b", by decide +kernel, rfl⟩,
    by decide +kernel⟩
  exact ⟨hget, hstore, hf, hm, hq, hnames, answer, hanswer, hends, hshown.1⟩

end Service
end DualStore
