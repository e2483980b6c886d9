import DualStore.Grammar.Update
import DualStore.Proofs.Outcomes
import DualStore.Proofs.Planning

/-! The nodes of what is read. A property that every node read in some place has, the nodes of
whole templates have as well (`readTemplate_nodes`). In particular what an update deletes has no
blank nodes (`Update.ofText_deleteTemplates`); what else is known of an operation that was read is
listed once (`Update.WellFormed`). -/

namespace DualStore

/-- The three nodes of a triple. -/
def TriplePattern.nodes (t : TriplePattern) : List Node := [t.subject, t.predicate, t.object]

namespace Grammar

variable {P : Node → Prop} {s : Scope} {place : Place} {ts : List Token}

section

variable (hP : ∀ {position ts} {r : Read Node ts}, readNode s place position ts = .ok r → P r.value)
include hP

theorem readObjects_nodes {r : Read (List Node) ts} (h : readObjects s place ts = .ok r) :
    ∀ n ∈ r.value, P n := by
  induction ts using readObjects.induct with
  | case1 ts ih =>
    rw [readObjects] at h
    obtain ⟨o, ho, h⟩ := bind_eq_ok.mp h
    split at h
    · cases h
      exact fun n hn => List.mem_singleton.mp hn ▸ hP ho
    · obtain ⟨more, hmore, h⟩ := bind_eq_ok.mp h
      cases h
      intro n hn
      rcases List.mem_cons.mp hn with rfl | hn
      · exact hP ho
      · exact ih _ _ hmore n hn

theorem readProperties_nodes {r : Read (List (Node × List Node)) ts}
    (h : readProperties s place ts = .ok r) : ∀ p ∈ r.value, P p.1 ∧ ∀ n ∈ p.2, P n := by
  induction ts using readProperties.induct with
  | case1 ts ih =>
    rw [readProperties] at h
    obtain ⟨p, hp, h⟩ := bind_eq_ok.mp h
    split at h
    · cases h
    obtain ⟨os, hos, h⟩ := bind_eq_ok.mp h
    have hone : P p.value ∧ ∀ n ∈ os.value, P n := ⟨hP hp, readObjects_nodes hP hos⟩
    split at h
    · cases h
      exact fun q hq => List.mem_singleton.mp hq ▸ hone
    split at h
    · cases h
      exact fun q hq => List.mem_singleton.mp hq ▸ hone
    · obtain ⟨more, hmore, h⟩ := bind_eq_ok.mp h
      cases h
      intro q hq
      rcases List.mem_cons.mp hq with rfl | hq
      · exact hone
      · exact ih _ _ _ hmore q hq

theorem readSubject_nodes {r : Read (List TriplePattern) ts}
    (h : readSubject s place ts = .ok r) : ∀ t ∈ r.value, ∀ n ∈ t.nodes, P n := by
  rw [readSubject] at h
  obtain ⟨subject, hsubject, h⟩ := bind_eq_ok.mp h
  obtain ⟨ps, hps, h⟩ := bind_eq_ok.mp h
  cases h
  intro t ht n hn
  obtain ⟨⟨p, os⟩, hp, ht⟩ := List.mem_flatMap.mp ht
  obtain ⟨o, ho, rfl⟩ := List.mem_map.mp ht
  have := readProperties_nodes hP hps _ hp
  simp only [TriplePattern.nodes, List.mem_cons, List.not_mem_nil, or_false] at hn
  rcases hn with rfl | rfl | rfl
  · exact hP hsubject
  · exact this.1
  · exact this.2 _ ho

theorem readTriples_nodes {r : Read (List TriplePattern) ts}
    (h : readTriples s place ts = .ok r) : ∀ t ∈ r.value, ∀ n ∈ t.nodes, P n := by
  induction ts using readTriples.induct with
  | case1 ts close hclose =>
    rw [readTriples, hclose] at h
    cases h
    simp [Read.map]
  | case2 ts hclose point hpoint hlt ih =>
    rw [readTriples, hclose, hpoint] at h
    obtain ⟨more, hmore, rfl⟩ := map_eq_ok.mp h
    exact ih hmore
  | case3 ts hclose hpoint hgraph =>
    rw [readTriples, hclose, hpoint] at h
    simp [hgraph, expected] at h
  | case4 ts hclose hpoint hgraph ih =>
    rw [readTriples, hclose, hpoint] at h
    simp only [hgraph] at h
    obtain ⟨triples, htriples, h⟩ := bind_eq_ok.mp h
    obtain ⟨rest, hrest, h⟩ := bind_eq_ok.mp h
    obtain ⟨more, hmore, h⟩ := bind_eq_ok.mp h
    cases h
    intro t ht
    rcases List.mem_append.mp ht with ht | ht
    · exact readSubject_nodes hP htriples t ht
    · exact ih _ _ hmore t ht

theorem readTemplateBody_nodes (hgraph : ∀ n, P n → ∀ m, graphName n = some m → P m)
    {r : Read (List QuadTemplate) ts} (h : readTemplateBody s place ts = .ok r) :
    ∀ t ∈ r.value, ∀ n ∈ t.nodes, P n := by
  induction ts using readTemplateBody.induct with
  | case1 ts close hclose =>
    rw [readTemplateBody, hclose] at h
    cases h
    simp [Read.map]
  | case2 ts hclose point hpoint hlt ih =>
    rw [readTemplateBody, hclose, hpoint] at h
    obtain ⟨more, hmore, rfl⟩ := map_eq_ok.mp h
    exact ih hmore
  | case3 ts hclose hpoint k hk ih =>
    rw [readTemplateBody, hclose, hpoint, hk] at h
    obtain ⟨graph, hg, h⟩ := bind_eq_ok.mp h
    obtain ⟨opening, hopening, h⟩ := bind_eq_ok.mp h
    obtain ⟨triples, htriples, h⟩ := bind_eq_ok.mp h
    obtain ⟨more, hmore, h⟩ := bind_eq_ok.mp h
    cases h
    intro t ht n hn
    rcases List.mem_append.mp ht with ht | ht
    · obtain ⟨triple, htriple, rfl⟩ := List.mem_map.mp ht
      rcases List.mem_append.mp hn with hn | hn
      · exact hgraph _ (hP hg) n (Option.mem_toList.mp hn)
      · exact readTriples_nodes hP htriples triple htriple n hn
    · exact ih _ _ _ hmore t ht n hn
  | case4 ts hclose hpoint hk ih =>
    rw [readTemplateBody, hclose, hpoint, hk] at h
    obtain ⟨triples, htriples, h⟩ := bind_eq_ok.mp h
    obtain ⟨rest, hrest, h⟩ := bind_eq_ok.mp h
    obtain ⟨more, hmore, h⟩ := bind_eq_ok.mp h
    cases h
    intro t ht n hn
    rcases List.mem_append.mp ht with ht | ht
    · obtain ⟨triple, htriple, rfl⟩ := List.mem_map.mp ht
      exact readSubject_nodes hP htriples triple htriple n (by
        simpa [QuadTemplate.nodes, TriplePattern.nodes] using hn)
    · exact ih _ _ hmore t ht n hn

theorem readTemplate_nodes (hgraph : ∀ n, P n → ∀ m, graphName n = some m → P m)
    {r : Read (List QuadTemplate) ts} (h : readTemplate s place ts = .ok r) :
    ∀ t ∈ r.value, ∀ n ∈ t.nodes, P n := by
  obtain ⟨opening, -, h⟩ := bind_eq_ok.mp h
  obtain ⟨body, hbody, h⟩ := bind_eq_ok.mp h
  cases h
  have := readTemplateBody_nodes hP hgraph hbody
  exact this

end

/-! ## Places without blank nodes -/

private theorem liftTerm_label? {t : Except TermFault Term} {n : Node} (h : liftTerm t = .ok n)
    (ht : ∀ label, t ≠ .ok (.blank label)) : n.label? = none := by
  obtain ⟨m, hm, rfl⟩ := map_eq_ok.mp (mapError_eq_ok.mp h)
  cases m with
  | blank label => exact absurd hm (ht label)
  | _ => rfl

private theorem typed_ne_blank (lexical datatype label : String) :
    Term.typed lexical datatype ≠ .ok (.blank label) := by
  intro h
  rw [Term.typed] at h
  split at h
  · cases h
  simp only at h
  split at h
  · cases h
  obtain ⟨_, -, h⟩ := bind_eq_ok.mp h
  cases h

private theorem tagged_ne_blank (lexical language label : String) :
    Term.tagged lexical language ≠ .ok (.blank label) := by
  intro h
  obtain ⟨_, -, h⟩ := bind_eq_ok.mp h
  cases h

private theorem ofIri_eq_ok {value : String} {t : Term} (h : Scope.ofIri value = .ok t) :
    t = .iri value := by
  obtain ⟨_, -, h⟩ := bind_eq_ok.mp (mapError_eq_ok.mp h)
  cases h
  rfl

private theorem expand_label? {ns localName : String} {t : Term}
    (h : s.expand ns localName = .ok t) : (Node.term t).label? = none := by
  rw [Scope.expand] at h
  split at h
  · rw [ofIri_eq_ok h]
    rfl
  · cases h

private theorem iri_label? {value : String} {n : Node}
    (h : (Scope.ofIri value).map Node.term = .ok n) : n.label? = none := by
  obtain ⟨t, ht, rfl⟩ := map_eq_ok.mp h
  rw [ofIri_eq_ok ht]
  rfl

private theorem nodeOfToken_label? (hplace : place = .pattern ∨ place = .deleteTemplate)
    {position : Position} {t : Token} {n : Node} (h : nodeOfToken s place position t = .ok n) :
    n.label? = none := by
  unfold nodeOfToken at h
  split at h
  · split at h
    · cases h
    · cases h
      rfl
  · exact iri_label? h
  · obtain ⟨t, ht, rfl⟩ := map_eq_ok.mp h
    exact expand_label? ht
  · rcases hplace with rfl | rfl
    · cases h
      rfl
    · cases h
  · cases h
    rfl
  iterate 5 exact liftTerm_label? h (typed_ne_blank _ _)
  iterate 4 cases h
  · split at h
    · cases h
      rfl
    · cases h

/-- Neither patterns nor the templates of deletions have blank nodes. -/
theorem readNode_label? (hplace : place = .pattern ∨ place = .deleteTemplate)
    {position : Position} {r : Read Node ts} (h : readNode s place position ts = .ok r) :
    r.value.label? = none := by
  unfold readNode at h
  split at h
  · cases h
  · obtain ⟨⟨n, rest⟩, hn, rfl⟩ := map_eq_ok.mp h
    unfold readLiteral at hn
    split at hn
    · obtain ⟨n', hn', hn⟩ := map_eq_ok.mp hn
      cases hn
      exact liftTerm_label? hn' (tagged_ne_blank _ _)
    · obtain ⟨datatype, -, hn⟩ := bind_eq_ok.mp hn
      obtain ⟨n', hn', hn⟩ := bind_eq_ok.mp hn
      cases hn
      exact liftTerm_label? hn' (typed_ne_blank _ _)
    · cases hn
      rfl
  · obtain ⟨n, hn, rfl⟩ := map_eq_ok.mp h
    exact nodeOfToken_label? hplace hn

theorem readTemplate_blankFree {r : Read (List QuadTemplate) ts}
    (h : readTemplate s .deleteTemplate ts = .ok r) : ∀ t ∈ r.value, t.BlankFree :=
  readTemplate_nodes (readNode_label? (.inr rfl)) (fun n hn m hm => by
    rcases n with v | t
    · cases hm
      rfl
    · rw [graphName] at hm
      split at hm
      · cases hm
      · cases hm
        exact hn) h

/-! ## Updates -/

end Grammar

/-- What operations are read as. What they delete has no blank nodes, and where a graph may be left
out, the default graph is not given by its name. -/
inductive Update.WellFormed : Update → Prop
  | insertData (quads : List Quad) : WellFormed (.insertData quads)
  | deleteData (quads : List Quad) : WellFormed (.deleteData quads)
  | deleteWhere {templates : List QuadTemplate} (h : ∀ t ∈ templates, t.BlankFree) :
    WellFormed (.deleteWhere templates)
  | modify {delete : List QuadTemplate} (h : ∀ t ∈ delete, t.BlankFree)
    (insert : List QuadTemplate) (pattern : Group) : WellFormed (.modify delete insert pattern)
  | create (silent : Bool) (graph : Term) : WellFormed (.create silent graph)
  | drop (silent : Bool) (target : GraphTarget) : WellFormed (.drop silent target)
  | clear (silent : Bool) (target : GraphTarget) : WellFormed (.clear silent target)
  | transfer (mode : TransferMode) (silent : Bool) {source destination : Option Term}
    (hsource : source ≠ some .defaultGraph) (hdestination : destination ≠ some .defaultGraph) :
    WellFormed (.transfer mode silent source destination)

theorem Update.WellFormed.deleteTemplates {u : Update} (h : u.WellFormed) :
    ∀ t ∈ u.deleteTemplates, t.BlankFree := by
  cases h with
  | deleteWhere h => exact h
  | modify h => exact h
  | _ => simp [Update.deleteTemplates]

namespace Grammar

private theorem wellFormed_readModify {delete insert : List QuadTemplate} {r : Read Update ts}
    (h : readModify s delete insert ts = .ok r) (hdelete : ∀ t ∈ delete, t.BlankFree) :
    r.value.WellFormed := by
  rw [readModify] at h
  split at h
  · cases h
  obtain ⟨k, -, h⟩ := bind_eq_ok.mp h
  obtain ⟨pattern, -, h⟩ := bind_eq_ok.mp h
  cases h
  exact .modify hdelete insert _

private theorem wellFormed_readInsert {r : Read Update ts} (h : readInsert s ts = .ok r) :
    r.value.WellFormed := by
  rw [readInsert] at h
  split at h
  · obtain ⟨data, -, rfl⟩ := map_eq_ok.mp h
    exact .insertData _
  · obtain ⟨insert, -, h⟩ := bind_eq_ok.mp h
    obtain ⟨rest, hrest, h⟩ := bind_eq_ok.mp h
    cases h
    exact (wellFormed_readModify hrest (List.forall_mem_nil _) :)

private theorem wellFormed_readDelete {r : Read Update ts} (h : readDelete s ts = .ok r) :
    r.value.WellFormed := by
  rw [readDelete] at h
  split at h
  · obtain ⟨data, -, rfl⟩ := map_eq_ok.mp h
    exact .deleteData _
  split at h
  · obtain ⟨templates, ht, rfl⟩ := map_eq_ok.mp h
    exact .deleteWhere (readTemplate_blankFree ht :)
  obtain ⟨delete, hdelete, h⟩ := bind_eq_ok.mp h
  split at h
  · obtain ⟨insert, -, h⟩ := bind_eq_ok.mp h
    obtain ⟨rest, hrest, h⟩ := bind_eq_ok.mp h
    cases h
    exact (wellFormed_readModify hrest (readTemplate_blankFree hdelete) :)
  · obtain ⟨rest, hrest, h⟩ := bind_eq_ok.mp h
    cases h
    exact (wellFormed_readModify hrest (readTemplate_blankFree hdelete) :)

private theorem wellFormed_readCreate {r : Read Update ts} (h : readCreate s ts = .ok r) :
    r.value.WellFormed := by
  obtain ⟨k, -, h⟩ := bind_eq_ok.mp h
  obtain ⟨graph, -, h⟩ := bind_eq_ok.mp h
  split at h
  · cases h
  · cases h
    exact .create _ _

private theorem readGraphOrDefault_ne {r : Read (Option Term) ts}
    (h : readGraphOrDefault s ts = .ok r) : r.value ≠ some .defaultGraph := by
  rw [readGraphOrDefault] at h
  split at h
  · cases h
    intro heq
    cases heq
  · obtain ⟨graph, -, h⟩ := bind_eq_ok.mp h
    cases h
    change (if graph.value.isDefaultGraph then none else some graph.value) ≠ _
    split
    next =>
      intro heq
      cases heq
    next hd =>
      intro heq
      exact hd (Term.isDefaultGraph_iff.mpr (Option.some.inj heq))

private theorem wellFormed_readTransfer {mode : TransferMode} {r : Read Update ts}
    (h : readTransfer s mode ts = .ok r) : r.value.WellFormed := by
  obtain ⟨source, hsource, h⟩ := bind_eq_ok.mp h
  obtain ⟨k, -, h⟩ := bind_eq_ok.mp h
  obtain ⟨destination, hdestination, h⟩ := bind_eq_ok.mp h
  cases h
  exact .transfer mode _ (readGraphOrDefault_ne hsource) (readGraphOrDefault_ne hdestination :)

private theorem wellFormed_readOperation {r : Read Update ts} (h : readOperation s ts = .ok r) :
    r.value.WellFormed := by
  unfold readOperation at h
  split at h
  next word ts =>
    obtain ⟨u, hu, rfl⟩ := map_eq_ok.mp h
    change u.value.WellFormed
    unfold readOperationAfter at hu
    split at hu
    · exact wellFormed_readInsert hu
    · exact wellFormed_readDelete hu
    · exact wellFormed_readCreate hu
    · obtain ⟨target, -, hu⟩ := bind_eq_ok.mp hu
      cases hu
      exact .drop _ _
    · obtain ⟨target, -, hu⟩ := bind_eq_ok.mp hu
      cases hu
      exact .clear _ _
    iterate 3 exact wellFormed_readTransfer hu
    all_goals cases hu
  · cases h

private theorem wellFormed_readOperations {us : List Update}
    (h : readOperations s ts = .ok us) : ∀ u ∈ us, u.WellFormed := by
  induction s, ts using readOperations.induct generalizing us with
  | case1 s ts hts =>
    rw [readOperations, if_pos hts] at h
    cases h
    simp
  | case2 s ts hts ih =>
    rw [readOperations, if_neg hts] at h
    obtain ⟨operation, hop, h⟩ := bind_eq_ok.mp h
    have hfirst := wellFormed_readOperation hop
    split at h
    · obtain ⟨_, -, h⟩ := bind_eq_ok.mp h
      cases h
      exact fun u hu => List.mem_singleton.mp hu ▸ hfirst
    · obtain ⟨⟨s', rest⟩, -, h⟩ := bind_eq_ok.mp h
      obtain ⟨more, hmore, h⟩ := bind_eq_ok.mp h
      cases h
      intro u hu
      rcases List.mem_cons.mp hu with rfl | hu
      · exact hfirst
      · exact ih _ _ _ _ hmore u hu

end Grammar

theorem Update.wellFormed_of_ofText {text : String} {us : List Update}
    (h : Update.ofText text = .ok us) : ∀ u ∈ us, u.WellFormed := by
  obtain ⟨ts, -, h⟩ := bind_eq_ok.mp h
  obtain ⟨⟨s, rest⟩, -, h⟩ := bind_eq_ok.mp h
  exact Grammar.wellFormed_readOperations h

/-- What an update that was read deletes has no blank nodes. -/
theorem Update.ofText_deleteTemplates {text : String} {us : List Update}
    (h : Update.ofText text = .ok us) : ∀ u ∈ us, ∀ t ∈ u.deleteTemplates, t.BlankFree :=
  fun u hu => (wellFormed_of_ofText h u hu).deleteTemplates

end DualStore
