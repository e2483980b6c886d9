import DualStore.Proofs.IndexCalls
import DualStore.Proofs.ParsedRequests

/-! Insertions that the index refuses. A quad may be stored that no request can carry: its object is
a string that has the datatype of language strings and no language. An insertion that is read holds
no such quad (`Update.normal_of_ofText_insertData`). -/

namespace DualStore

variable {q : Quad} {qs : List Quad}

namespace Grammar

variable {α β : Type} {place : Place} {rest input : List Token}

/-- The reading succeeds. -/
def Succeeds (x : Except SyntaxFault α) : Prop := ∃ a, x = .ok a

theorem Succeeds.of_bind {x : Except SyntaxFault α} {f : α → Except SyntaxFault β}
    (h : Succeeds (x >>= f)) : ∃ a, x = .ok a ∧ Succeeds (f a) := by
  obtain ⟨b, h⟩ := h
  obtain ⟨a, ha, hb⟩ := bind_eq_ok.mp h
  exact ⟨a, ha, b, hb⟩

theorem Succeeds.of_bind_left {x : Except SyntaxFault α} {f : α → Except SyntaxFault β}
    (h : Succeeds (x >>= f)) : Succeeds x := by
  obtain ⟨a, ha, -⟩ := h.of_bind
  exact ⟨a, ha⟩

/-- What follows a reading goes on where this ends. -/
theorem Reads.succeeds_of_bind {a : α} {x : Except SyntaxFault (Read α input)}
    {f : Read α input → Except SyntaxFault β} (hx : Reads x a rest) (h : Succeeds (x >>= f)) :
    ∃ hlt, Succeeds (f ⟨a, rest, hlt⟩) := by
  obtain ⟨hlt, rfl⟩ := hx
  exact ⟨hlt, h⟩

/-! ## Triples -/

private theorem readNode_untagged (lexical : String) (place : Place) (position : Position)
    (rest : List Token) :
    readNode {} place position ((Term.untagged lexical).tokens ++ rest) =
      .error (.term (.langStringWithoutTag lexical)) := by
  obtain ⟨hlt, hiri⟩ := reads_readIri Term.checkIri_rdfLangString rest
  have hread : readLiteral {} lexical (.datatypeMark :: .iri Vocabulary.rdfLangString :: rest) =
      .error (.term (.langStringWithoutTag lexical)) := by
    rw [readLiteral, hiri]
    rfl
  have htokens : (Term.untagged lexical).tokens ++ rest =
      .string lexical :: .datatypeMark :: .iri Vocabulary.rdfLangString :: rest := rfl
  rw [htokens, readNode, hread]
  rfl

theorem normal_of_readSubject (h : q.Storable)
    (hr : Succeeds (readSubject {} place (q.skolemize.tokens ++ rest))) : q.Normal := by
  refine h.normal_or.resolve_right ?_
  rintro ⟨lexical, ho⟩
  have hobject : q.skolemize.object = .untagged lexical := by
    rw [Quad.skolemize, ho]
    rfl
  have hs : q.skolemize.subject.isIri = true := Term.isIri_skolemize h.subject
  have hp : q.skolemize.predicate.isIri = true := Term.isIri_skolemize (by rw [h.predicate]; rfl)
  have hsubject := Term.normal_of_isIri (Term.check_skolemize (h.terms q.subject (by simp))) hs
  have hpredicate :=
    Term.normal_of_isIri (Term.check_skolemize (h.terms q.predicate (by simp))) hp
  rw [tokens_append, hobject] at hr
  obtain ⟨hlt, hr⟩ := (reads_iri hsubject hs place .subject _).succeeds_of_bind hr
  have hproperties := hr.of_bind_left
  rw [readProperties] at hproperties
  obtain ⟨hlt', hr⟩ := (reads_iri hpredicate hp place .predicate _).succeeds_of_bind hproperties
  simp only [startsWithPunct_tokens (t := Term.untagged lexical) rfl] at hr
  obtain ⟨objects, hobjects⟩ := hr.of_bind_left
  rw [readObjects, readNode_untagged] at hobjects
  cases hobjects

/-- The triple of a quad that may be stored, the point after it, and then more. -/
private theorem normal_of_step (h : q.Storable)
    {f : (r : Read (List TriplePattern) (q.skolemize.tokens ++ rest)) → Rest r.rest →
      Except SyntaxFault β}
    (hr : Succeeds (readSubject {} place (q.skolemize.tokens ++ rest) >>= fun r =>
      endOfTriples r.rest >>= f r)) :
    q.Normal ∧ ∃ r rest', rest'.1 = rest ∧ Succeeds (f r rest') := by
  have hq : q.Normal := normal_of_readSubject h hr.of_bind_left
  obtain ⟨hlt, hr⟩ := (reads_readSubject (ground_skolemize hq h) place rest).succeeds_of_bind hr
  obtain ⟨rest', hrest', hr⟩ := hr.of_bind
  obtain ⟨hle, hend⟩ := endOfTriples_point rest
  rw [hend] at hrest'
  cases hrest'
  exact ⟨hq, _, _, rfl, hr⟩

private theorem exists_iri_flatMap (h : q.Storable) (qs : List Quad) (rest : List Token) :
    ∃ value ts, q.skolemize.tokens ++ (qs.flatMap (·.skolemize.tokens) ++ rest) =
      .iri value :: ts :=
  exists_iri_tokens (Term.isIri_skolemize h.subject) _

/-- Triples of quads that may be stored, and then more. -/
private theorem normal_of_readTriples (h : ∀ q ∈ qs, q.Storable)
    (hr : Succeeds (readTriples {} place (qs.flatMap (·.skolemize.tokens) ++ rest))) :
    ∀ q ∈ qs, q.Normal := by
  induction qs with
  | nil => exact List.forall_mem_nil _
  | cons q qs ih =>
    rw [List.forall_mem_cons] at h ⊢
    obtain ⟨value, ts, htokens⟩ := exists_iri_flatMap h.1 qs rest
    have hgraph : (startsWithKeyword "GRAPH" (.iri value :: ts) ||
      startsWithPunct ['\x7b'] (.iri value :: ts)) = false := rfl
    rw [List.flatMap_cons, List.append_assoc, htokens, readTriples, punct?_iri] at hr
    simp only [punct?_iri, hgraph] at hr
    rw [if_neg Bool.false_ne_true, ← htokens] at hr
    obtain ⟨hq, r, rest', hrest', hr⟩ := normal_of_step h.1 hr
    have hmore := hr.of_bind_left
    rw [hrest'] at hmore
    exact ⟨hq, ih h.2 hmore⟩

/-! ## Templates -/

private theorem normal_of_readTemplateBody_default (h : ∀ q ∈ qs, q.Storable)
    (hr : Succeeds (readTemplateBody {} place (qs.flatMap (·.skolemize.tokens) ++ rest))) :
    (∀ q ∈ qs, q.Normal) ∧ Succeeds (readTemplateBody {} place rest) := by
  induction qs with
  | nil => exact ⟨List.forall_mem_nil _, hr⟩
  | cons q qs ih =>
    rw [List.forall_mem_cons] at h ⊢
    obtain ⟨value, ts, htokens⟩ := exists_iri_flatMap h.1 qs rest
    rw [List.flatMap_cons, List.append_assoc, htokens, readTemplateBody, punct?_iri] at hr
    simp only [punct?_iri, keyword?_iri] at hr
    rw [← htokens] at hr
    obtain ⟨hq, r, rest', hrest', hr⟩ := normal_of_step h.1 hr
    have hmore := hr.of_bind_left
    rw [hrest'] at hmore
    obtain ⟨hqs, hrest⟩ := ih h.2 hmore
    exact ⟨⟨hq, hqs⟩, hrest⟩

private theorem normal_of_readTemplateBody_graph {g : Term} (h : ∀ q ∈ qs, q.Storable)
    (hg : g.check = .ok ()) (hi : g.isIri = true)
    (hr : Succeeds (readTemplateBody {} place (Request.graphTokens qs g ++ rest))) :
    (∀ q ∈ qs.filter (·.graph == g), q.Normal) ∧ Succeeds (readTemplateBody {} place rest) := by
  have hstorable : ∀ q ∈ qs.filter (·.graph == g), q.Storable :=
    fun q hq => h q (List.mem_of_mem_filter hq)
  have htokens : Request.graphTokens qs g ++ rest = .word "GRAPH" :: (g.tokens ++
      .punct '\x7b' :: ((qs.filter (·.graph == g)).flatMap (·.skolemize.tokens) ++
        .punct '\x7d' :: rest)) := by
    simp [Request.graphTokens]
  have hword : (Token.word "GRAPH").isKeyword "GRAPH" = true := by decide
  rw [htokens, readTemplateBody, punct?_word] at hr
  simp only [punct?_word, keyword?_self hword] at hr
  obtain ⟨hlt, hr⟩ :=
    (reads_iri (Term.normal_of_isIri hg hi) hi place .graph _).succeeds_of_bind hr
  rw [punct_self] at hr
  have hr : Succeeds (readTriples {} place ((qs.filter (·.graph == g)).flatMap
    (·.skolemize.tokens) ++ .punct '\x7d' :: rest) >>= _) := hr
  have hnormal := normal_of_readTriples hstorable hr.of_bind_left
  have hground : ∀ u ∈ (qs.filter (·.graph == g)).map Quad.skolemize, Ground u := by
    rw [List.forall_mem_map]
    exact fun q hq => ground_skolemize (hnormal q hq) (hstorable q hq)
  have hreads := reads_readTriples hground place rest
  rw [List.flatMap_map] at hreads
  obtain ⟨hlt', hr⟩ := hreads.succeeds_of_bind hr
  exact ⟨hnormal, hr.of_bind_left⟩

private theorem normal_of_readTemplateBody_graphs {graphs : List Term}
    (h : ∀ q ∈ qs, q.Storable) (hg : ∀ g ∈ graphs, ∃ q ∈ qs, q.graph = g)
    (hr : Succeeds (readTemplateBody {} place
      (graphs.flatMap (Request.graphTokens qs) ++ rest))) :
    ∀ q ∈ qs, q.graph ∈ graphs → q.Normal := by
  induction graphs with
  | nil => exact fun q _ hq => absurd hq List.not_mem_nil
  | cons g graphs ih =>
    rw [List.forall_mem_cons] at hg
    obtain ⟨⟨q, hq, rfl⟩, hg⟩ := hg
    rw [List.flatMap_cons, List.append_assoc] at hr
    obtain ⟨hnormal, hr⟩ := normal_of_readTemplateBody_graph h ((h q hq).terms q.graph (by simp))
      (h q hq).graph hr
    intro u hu hmem
    rcases List.mem_cons.mp hmem with he | hmem
    · exact hnormal u (List.mem_filter.mpr ⟨hu, beq_iff_eq.mpr he⟩)
    · exact ih hg hr u hu hmem

/-- Quads in braces that are read are rebuilt by their own parts. -/
theorem normal_of_readTemplate (h : ∀ q ∈ qs, q.Storable)
    (hr : Succeeds (readTemplate {} place (Request.blockTokens qs ++ rest))) :
    ∀ q ∈ qs, q.Normal := by
  have htokens : Request.blockTokens qs ++ rest = .punct '\x7b' ::
      ((qs.filter (·.inDefaultGraph)).flatMap (·.skolemize.tokens) ++
        ((Request.namedGraphs qs).toList.flatMap (Request.graphTokens qs) ++
          .punct '\x7d' :: rest)) := by
    simp [Request.blockTokens]
  rw [htokens, readTemplate, punct_self] at hr
  have hr : Succeeds (readTemplateBody {} place _ >>= _) := hr
  obtain ⟨hdefault, hr⟩ := normal_of_readTemplateBody_default
    (fun q hq => h q (List.mem_of_mem_filter hq)) hr.of_bind_left
  have hnamed := normal_of_readTemplateBody_graphs h (fun g hg => by
    obtain ⟨q, hq, -, hgraph⟩ := Request.mem_namedGraphs.mp hg
    exact ⟨q, hq, hgraph⟩) hr
  intro q hq
  cases hd : q.inDefaultGraph with
  | true => exact hdefault q (List.mem_filter.mpr ⟨hq, hd⟩)
  | false => exact hnamed q hq (Request.mem_namedGraphs.mpr ⟨q, hq, hd, rfl⟩)

end Grammar

/-! ## Insertions -/

namespace Update

open Grammar

/-- An insertion that is read holds only quads that their own parts rebuild. -/
theorem normal_of_ofText_insertData {us : List Update} (h : ∀ q ∈ qs, q.Storable)
    (hr : ofText (Request.insertData qs) = .ok us) : ∀ q ∈ qs, q.Normal := by
  have htokens := (Request.cutsTo_insertData h).ofText
  have hpro : readPrologue {} (Request.insertTokens qs) = .ok ({}, .all _) :=
    readPrologue_word (by decide) (by decide)
  rw [ofText, htokens] at hr
  change ofTokens (Request.insertTokens qs) = _ at hr
  rw [ofTokens, hpro] at hr
  have hr : readOperations {} (Request.insertTokens qs) = .ok us := hr
  have hne : (Request.insertTokens qs).isEmpty = false := rfl
  have hword : (Token.word "DATA").isKeyword "DATA" = true := by decide
  have hinsert : Token.upperCase "INSERT" = "INSERT" := by decide
  rw [readOperations, hne] at hr
  obtain ⟨operation, hoperation, -⟩ := bind_eq_ok.mp hr
  have hoperation : (readOperationAfter {} "INSERT" (.word "DATA" :: Request.blockTokens qs)).map
    (·.behind (.word "INSERT")) = .ok operation := hoperation
  obtain ⟨r, hafter, -⟩ := map_eq_ok.mp hoperation
  rw [readOperationAfter, hinsert] at hafter
  dsimp only at hafter
  rw [readInsert, keyword?_self hword] at hafter
  obtain ⟨data, hdata, -⟩ := map_eq_ok.mp hafter
  have hdata : Succeeds (readTemplate {} .insertData (Request.blockTokens qs) >>= _) :=
    ⟨data, hdata⟩
  have hrest := hdata.of_bind_left
  rw [← List.append_nil (Request.blockTokens qs)] at hrest
  exact normal_of_readTemplate h hrest

end Update

namespace MemoryIndex

theorem normal_of_update_insertData {i j : MemoryIndex} {space : String} {next next' : Nat}
    (h : ∀ q ∈ qs, q.Storable)
    (hu : update space (Request.insertData qs) next i = .ok (j, next')) : ∀ q ∈ qs, q.Normal := by
  obtain ⟨-, quads, b, -, hb, -⟩ := update_eq_ok.mp hu
  obtain ⟨us, hus, -⟩ := bind_eq_ok.mp hb
  exact Update.normal_of_ofText_insertData h (mapError_eq_ok.mp hus)

end MemoryIndex
end DualStore
