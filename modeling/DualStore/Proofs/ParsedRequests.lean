import DualStore.Grammar.Update
import DualStore.Proofs.PrintedRequests

/-! The requests that the index is sent are read as what they were printed from: data of quads with
IRIs in place of blank nodes. -/

namespace DualStore
namespace Grammar

variable {α : Type} {t : Term} {l : Literal} {q : Quad} {qs : List Quad} {place : Place}
  {rest rest' : List Token}

/-- The reading succeeds with this value and leaves this rest. -/
def Reads {input : List Token} (x : Except SyntaxFault (Read α input)) (a : α)
    (rest : List Token) : Prop :=
  ∃ h, x = .ok ⟨a, rest, h⟩

/-! ## Marks and keywords -/

theorem punct?_self (c : Char) (ts : List Token) :
    punct? c (.punct c :: ts) = some ⟨(), ts, Nat.lt_succ_self _⟩ := by
  rw [punct?, if_pos rfl]
  rfl

theorem punct_self (c : Char) (ts : List Token) :
    punct c (.punct c :: ts) = .ok ⟨(), ts, Nat.lt_succ_self _⟩ := by
  rw [punct, punct?_self]

theorem punct?_iri (c : Char) (value : String) (ts : List Token) :
    punct? c (.iri value :: ts) = none := rfl

theorem punct?_word (c : Char) (word : String) (ts : List Token) :
    punct? c (.word word :: ts) = none := rfl

theorem keyword?_iri (keyword value : String) (ts : List Token) :
    keyword? keyword (.iri value :: ts) = none := rfl

theorem keyword?_self {keyword : String} {t : Token} (h : t.isKeyword keyword = true)
    (ts : List Token) : keyword? keyword (t :: ts) = some ⟨(), ts, Nat.lt_succ_self _⟩ := by
  rw [keyword?, h]
  rfl

private theorem keyword?_word_of_ne {keyword word : String}
    (h : (Token.word word).isKeyword keyword = false) (ts : List Token) :
    keyword? keyword (.word word :: ts) = none := by
  rw [keyword?, h]
  rfl

/-! ## Terms -/

theorem resolve_empty (reference : String) :
    ({} : Scope).resolve reference = reference := rfl

private theorem ofIri_of_check {value : String} (h : Term.checkIri value = .ok ()) :
    Scope.ofIri value = .ok (.iri value) := by
  rw [Scope.ofIri, Term.ofIri, h]
  rfl

theorem reads_readIri {value : String} (h : Term.checkIri value = .ok ()) (rest : List Token) :
    Reads (readIri {} (.iri value :: rest)) (.iri value) rest := by
  rw [readIri, resolve_empty, ofIri_of_check h]
  exact ⟨_, rfl⟩

theorem reads_iri (h : t.Normal) (hi : t.isIri = true) (place : Place) (position : Position)
    (rest : List Token) :
    Reads (readNode {} place position (t.tokens ++ rest)) (.term t) rest := by
  cases t with
  | iri value =>
    change Reads ((nodeOfToken {} place position (.iri value)).map _) _ _
    rw [nodeOfToken, resolve_empty, ofIri_of_check h.checkIri]
    exact ⟨_, rfl⟩
  | blank label => cases hi
  | literal l => cases hi

/-- No part of a literal stands at the front: a string before it ends there. -/
def EndsString : List Token → Prop
  | .language _ :: _ | .datatypeMark :: _ => False
  | _ => True

theorem readLiteral_plain {s : Scope} (lexical : String) (h : EndsString rest) :
    readLiteral s lexical rest = .ok (.term (.plain lexical), .all rest) := by
  unfold readLiteral
  split
  · cases h
  · cases h
  · rfl

private theorem reads_literal (h : (Term.literal l).Normal) (place : Place) (position : Position)
    (hrest : EndsString rest) :
    Reads (readNode {} place position ((Term.literal l).tokens ++ rest)) (.term (.literal l))
      rest := by
  obtain ⟨lexical, datatype, language⟩ := l
  rcases h.literal_cases with ⟨hd, hl⟩ | ⟨d, hd, hl, hcheck, htyped⟩ | ⟨tag, hd, hl, -, htagged⟩ <;>
    obtain rfl := hd <;> obtain rfl := hl
  · change Reads ((readLiteral {} lexical rest).map _) _ _
    rw [readLiteral_plain lexical hrest]
    exact ⟨_, rfl⟩
  · obtain ⟨hlt, hiri⟩ := reads_readIri hcheck rest
    change Reads ((readLiteral {} lexical (.datatypeMark :: .iri d :: rest)).map _) _ _
    rw [readLiteral, hiri]
    change Reads (((liftTerm (Term.typed lexical d)).bind _).map _) _ _
    rw [htyped]
    exact ⟨_, rfl⟩
  · change Reads ((readLiteral {} lexical (.language tag :: rest)).map _) _ _
    rw [readLiteral, htagged]
    exact ⟨_, rfl⟩

/-- An object, up to what follows it. -/
theorem reads_object (h : t.Normal) (hb : t.isBlank = false) (place : Place) (position : Position)
    (hrest : EndsString rest) :
    Reads (readNode {} place position (t.tokens ++ rest)) (.term t) rest := by
  cases t with
  | iri value => exact reads_iri h rfl place position _
  | blank label => cases hb
  | literal l => exact reads_literal h place position hrest

/-! ## Triples -/

/-- A quad as the index sees it: no term is a blank node, and all of them are rebuilt by their own
parts. -/
structure Ground (q : Quad) : Prop where
  normal : q.Normal
  subject : q.subject.isIri = true
  predicate : q.predicate.isIri = true
  object : q.object.isBlank = false
  graph : q.graph.isIri = true
  check : q.check = .ok ()

/-- The triple of a quad, as it stands in a template. -/
def tripleOf (q : Quad) : TriplePattern := ⟨.term q.subject, .term q.predicate, .term q.object⟩

private theorem exists_tokens (h : t.isBlank = false) :
    (∃ value ts, t.tokens = .iri value :: ts) ∨ ∃ content ts, t.tokens = .string content :: ts := by
  cases t with
  | iri value => exact .inl ⟨value, [], rfl⟩
  | blank label => cases h
  | literal l => exact .inr ⟨l.lexical, _, rfl⟩

/-- Nothing but a predicate path may be written where an object starts. -/
theorem startsWithPunct_tokens (h : t.isBlank = false) (marks : List Char) :
    startsWithPunct marks (t.tokens ++ rest) = false := by
  rcases exists_tokens h with ⟨_, ts, he⟩ | ⟨_, ts, he⟩ <;> rw [he] <;> rfl

private theorem reads_readObjects (h : t.Normal) (hb : t.isBlank = false) (place : Place)
    (rest : List Token) :
    Reads (readObjects {} place (t.tokens ++ .punct '.' :: rest)) [.term t]
      (.punct '.' :: rest) := by
  have hpoint : EndsString (.punct '.' :: rest) := trivial
  obtain ⟨hlt, ho⟩ := reads_object h hb place .object hpoint
  rw [readObjects, ho]
  exact ⟨_, rfl⟩

private theorem reads_readProperties (h : Ground q) (place : Place) (rest : List Token) :
    Reads (readProperties {} place (q.predicate.tokens ++ (q.object.tokens ++ .punct '.' :: rest)))
      [(.term q.predicate, [.term q.object])] (.punct '.' :: rest) := by
  obtain ⟨hlt, hp⟩ := reads_iri h.normal.predicate h.predicate place .predicate
    (q.object.tokens ++ .punct '.' :: rest)
  obtain ⟨hlt', ho⟩ := reads_readObjects h.normal.object h.object place rest
  rw [readProperties, hp]
  simp only [bind, Except.bind, startsWithPunct_tokens h.object, ho]
  exact ⟨_, rfl⟩

theorem tokens_append (q : Quad) (rest : List Token) : q.tokens ++ rest =
    q.subject.tokens ++ (q.predicate.tokens ++ (q.object.tokens ++ .punct '.' :: rest)) := by
  simp [Quad.tokens]

theorem reads_readSubject (h : Ground q) (place : Place) (rest : List Token) :
    Reads (readSubject {} place (q.tokens ++ rest)) [tripleOf q] (.punct '.' :: rest) := by
  obtain ⟨hlt, hs⟩ := reads_iri h.normal.subject h.subject place .subject
    (q.predicate.tokens ++ (q.object.tokens ++ .punct '.' :: rest))
  obtain ⟨hlt', hp⟩ := reads_readProperties h place rest
  rw [tokens_append, readSubject, hs]
  simp only [bind, Except.bind, hp]
  exact ⟨_, rfl⟩

theorem exists_iri_tokens (hs : q.subject.isIri = true) (rest : List Token) :
    ∃ value ts, q.tokens ++ rest = .iri value :: ts := by
  obtain ⟨value, hq⟩ := Term.exists_of_isIri hs
  rw [tokens_append, hq]
  exact ⟨value, _, rfl⟩

theorem endOfTriples_point (rest : List Token) :
    ∃ h, endOfTriples (.punct '.' :: rest) = .ok ⟨rest, h⟩ := ⟨_, rfl⟩

/-- A quad's triple, and then more triples. -/
private theorem reads_readTriples_cons {more : List TriplePattern} (h : Ground q)
    (hmore : Reads (readTriples {} place rest) more rest') :
    Reads (readTriples {} place (q.tokens ++ rest)) (tripleOf q :: more) rest' := by
  have hq := reads_readSubject h place rest
  obtain ⟨value, ts, htokens⟩ := exists_iri_tokens h.subject rest
  rw [htokens] at hq ⊢
  obtain ⟨hlt, hq⟩ := hq
  obtain ⟨hlt', hmore⟩ := hmore
  obtain ⟨hle, hend⟩ := endOfTriples_point rest
  have hgraph : (startsWithKeyword "GRAPH" (.iri value :: ts) ||
    startsWithPunct ['\x7b'] (.iri value :: ts)) = false := rfl
  rw [readTriples, punct?_iri]
  simp only [punct?_iri, hgraph, bind, Except.bind, hq, hend, hmore]
  exact ⟨_, rfl⟩

theorem reads_readTriples (h : ∀ q ∈ qs, Ground q) (place : Place) (rest : List Token) :
    Reads (readTriples {} place (qs.flatMap Quad.tokens ++ .punct '\x7d' :: rest))
      (qs.map tripleOf) rest := by
  induction qs with
  | nil =>
    rw [List.flatMap_nil, List.nil_append, readTriples, punct?_self]
    exact ⟨_, rfl⟩
  | cons q qs ih =>
    rw [List.flatMap_cons, List.append_assoc]
    exact reads_readTriples_cons (h q List.mem_cons_self) (ih fun q hq =>
      h q (List.mem_cons_of_mem _ hq))

/-! ## Templates -/

/-- A quad as a template. -/
def templateOf (q : Quad) : QuadTemplate :=
  ⟨tripleOf q, if q.inDefaultGraph then none else some (.term q.graph)⟩

private theorem reads_readTemplateBody_cons {more : List QuadTemplate} (h : Ground q)
    (hd : q.inDefaultGraph = true) (hmore : Reads (readTemplateBody {} place rest) more rest') :
    Reads (readTemplateBody {} place (q.tokens ++ rest)) (templateOf q :: more) rest' := by
  have hq := reads_readSubject h place rest
  obtain ⟨value, ts, htokens⟩ := exists_iri_tokens h.subject rest
  rw [htokens] at hq ⊢
  obtain ⟨hlt, hq⟩ := hq
  obtain ⟨hlt', hmore⟩ := hmore
  obtain ⟨hle, hend⟩ := endOfTriples_point rest
  rw [readTemplateBody, punct?_iri]
  simp only [punct?_iri, keyword?_iri, bind, Except.bind, hq, hend, hmore, templateOf, hd]
  exact ⟨_, rfl⟩

/-- Quads of the default graph, and then more. -/
private theorem reads_readTemplateBody_default {more : List QuadTemplate} (h : ∀ q ∈ qs, Ground q)
    (hd : ∀ q ∈ qs, q.inDefaultGraph = true)
    (hmore : Reads (readTemplateBody {} place rest) more rest') :
    Reads (readTemplateBody {} place (qs.flatMap Quad.tokens ++ rest))
      (qs.map templateOf ++ more) rest' := by
  induction qs with
  | nil => exact hmore
  | cons q qs ih =>
    rw [List.flatMap_cons, List.append_assoc]
    exact reads_readTemplateBody_cons (h q List.mem_cons_self) (hd q List.mem_cons_self)
      (ih (fun q hq => h q (List.mem_cons_of_mem _ hq))
        fun q hq => hd q (List.mem_cons_of_mem _ hq))

/-- Quads of a named graph, and then more. -/
private theorem reads_readTemplateBody_graph {g : Term} {more : List QuadTemplate}
    (h : ∀ q ∈ qs, Ground q) (hg : ∀ q ∈ qs, q.graph = g) (hn : g.Normal) (hi : g.isIri = true)
    (hd : g.isDefaultGraph = false) (hmore : Reads (readTemplateBody {} place rest) more rest') :
    Reads (readTemplateBody {} place (.word "GRAPH" :: (g.tokens ++ .punct '\x7b' ::
      (qs.flatMap Quad.tokens ++ .punct '\x7d' :: rest)))) (qs.map templateOf ++ more) rest' := by
  obtain ⟨hlt, hgraph⟩ := reads_iri hn hi place .graph
    (.punct '\x7b' :: (qs.flatMap Quad.tokens ++ .punct '\x7d' :: rest))
  obtain ⟨hlt', htriples⟩ := reads_readTriples h place rest
  obtain ⟨hlt'', hmore⟩ := hmore
  have htemplates : (qs.map tripleOf).map (⟨·, graphName (.term g)⟩) = qs.map templateOf := by
    rw [List.map_map]
    refine List.map_congr_left fun q hq => ?_
    rw [Function.comp_apply, templateOf, Quad.inDefaultGraph, hg q hq, hd, graphName, hd]
  have hword : (Token.word "GRAPH").isKeyword "GRAPH" = true := by decide
  rw [readTemplateBody, punct?_word]
  simp only [punct?_word, keyword?_self hword, bind, Except.bind, hgraph, punct_self, htriples,
    hmore]
  rw [← htemplates]
  exact ⟨_, rfl⟩

/-! ## Blocks -/

/-- A quad that may be stored, as the index sees it. -/
theorem ground_skolemize (hn : q.Normal) (hs : q.Storable) : Ground q.skolemize where
  normal := ⟨hn.subject.skolemize.1, hn.predicate.skolemize.1, hn.object.skolemize.1,
    hn.graph.skolemize.1⟩
  subject := Term.isIri_skolemize hs.subject
  predicate := Term.isIri_skolemize (by rw [hs.predicate]; rfl)
  object := hn.object.skolemize.2
  graph := Term.isIri_skolemize (by rw [hs.graph]; rfl)
  check := hs.check_skolemize

theorem reads_readTemplateBody_close (s : Scope) (place : Place) (rest : List Token) :
    Reads (readTemplateBody s place (.punct '\x7d' :: rest)) [] rest := by
  rw [readTemplateBody, punct?_self]
  exact ⟨_, rfl⟩

private theorem reads_readTemplateBody_graphs {graphs : List Term} {more : List QuadTemplate}
    (h : ∀ q ∈ qs, q.Normal ∧ q.Storable)
    (hg : ∀ g ∈ graphs, g.isDefaultGraph = false ∧ ∃ q ∈ qs, q.graph = g)
    (hmore : Reads (readTemplateBody {} place rest) more rest') :
    Reads (readTemplateBody {} place (graphs.flatMap (Request.graphTokens qs) ++ rest))
      ((graphs.flatMap fun g => qs.filter (·.graph == g)).map (fun q => templateOf q.skolemize) ++
        more) rest' := by
  induction graphs with
  | nil => exact hmore
  | cons g graphs ih =>
    obtain ⟨hd, q, hq, rfl⟩ := hg g List.mem_cons_self
    have hrest := ih fun g hg' => hg g (List.mem_cons_of_mem _ hg')
    have hground : ∀ u ∈ (qs.filter (·.graph == q.graph)).map Quad.skolemize, Ground u := by
      intro u hu
      obtain ⟨v, hv, rfl⟩ := List.mem_map.mp hu
      have hv := h v (List.mem_of_mem_filter hv)
      exact ground_skolemize hv.1 hv.2
    have hgraph : ∀ u ∈ (qs.filter (·.graph == q.graph)).map Quad.skolemize,
        u.graph = q.graph := by
      intro u hu
      obtain ⟨v, hv, rfl⟩ := List.mem_map.mp hu
      rw [List.mem_filter, beq_iff_eq] at hv
      rw [← hv.2]
      exact Term.skolemize_of_isIri (h v hv.1).2.graph
    have := reads_readTemplateBody_graph hground hgraph (h q hq).1.graph (h q hq).2.graph hd hrest
    have htokens : (q.graph :: graphs).flatMap (Request.graphTokens qs) ++ rest =
        .word "GRAPH" :: (q.graph.tokens ++ .punct '\x7b' ::
          (((qs.filter (·.graph == q.graph)).map Quad.skolemize).flatMap Quad.tokens ++
            .punct '\x7d' :: (graphs.flatMap (Request.graphTokens qs) ++ rest))) := by
      simp [Request.graphTokens, List.flatMap_map]
    rw [htokens, List.flatMap_cons, List.map_append, List.append_assoc]
    rwa [List.map_map] at this

/-- Quads in braces are read graph by graph. -/
theorem reads_readTemplate (h : ∀ q ∈ qs, q.Normal ∧ q.Storable) (place : Place)
    (rest : List Token) :
    Reads (readTemplate {} place (Request.blockTokens qs ++ rest))
      ((Request.blockOrder qs).map fun q => templateOf q.skolemize) rest := by
  have hground : ∀ u ∈ (qs.filter (·.inDefaultGraph)).map Quad.skolemize, Ground u := by
    intro u hu
    obtain ⟨v, hv, rfl⟩ := List.mem_map.mp hu
    have hv := h v (List.mem_of_mem_filter hv)
    exact ground_skolemize hv.1 hv.2
  have hdefault : ∀ u ∈ (qs.filter (·.inDefaultGraph)).map Quad.skolemize,
      u.inDefaultGraph = true := by
    intro u hu
    obtain ⟨v, hv, rfl⟩ := List.mem_map.mp hu
    obtain ⟨hv, hd⟩ := List.mem_filter.mp hv
    rwa [Quad.inDefaultGraph, Quad.skolemize, Term.skolemize_of_isIri (h v hv).2.graph]
  have hnamed : ∀ g ∈ (Request.namedGraphs qs).toList,
      g.isDefaultGraph = false ∧ ∃ q ∈ qs, q.graph = g := by
    intro g hg
    obtain ⟨q, hq, hd, rfl⟩ := Request.mem_namedGraphs.mp hg
    exact ⟨hd, q, hq, rfl⟩
  have hbody := reads_readTemplateBody_default hground hdefault
    (reads_readTemplateBody_graphs h hnamed
      (reads_readTemplateBody_close {} place rest))
  have htokens : Request.blockTokens qs ++ rest = .punct '\x7b' ::
      (((qs.filter (·.inDefaultGraph)).map Quad.skolemize).flatMap Quad.tokens ++
        ((Request.namedGraphs qs).toList.flatMap (Request.graphTokens qs) ++
          .punct '\x7d' :: rest)) := by
    simp [Request.blockTokens, List.flatMap_map]
  rw [List.append_nil, List.map_map] at hbody
  change Reads _ (((qs.filter _).map fun q => templateOf q.skolemize) ++ _) _ at hbody
  rw [← List.map_append] at hbody
  obtain ⟨hlt, hbody⟩ := hbody
  rw [htokens, readTemplate, punct_self]
  simp only [bind, Except.bind, hbody]
  exact ⟨_, rfl⟩

/-! ## Data -/

private theorem groundQuad_templateOf (h : Ground q) : groundQuad (templateOf q) = .ok q := by
  have hof : Quad.of q.subject q.predicate q.object
      (if q.inDefaultGraph then none else some q.graph) = q := by
    cases hd : q.inDefaultGraph with
    | true => rw [if_pos rfl, Quad.of, Option.getD_none, ← Term.isDefaultGraph_iff.mp hd]
    | false => rfl
  have hcheck : (q.check).mapError SyntaxFault.quad = .ok () := by
    rw [h.check]
    rfl
  cases hd : q.inDefaultGraph with
  | true =>
    rw [hd, if_pos rfl] at hof
    simp only [groundQuad, templateOf, tripleOf, hd, if_true, Option.mapM_none, bind, Except.bind,
      pure, Except.pure, hof, hcheck]
  | false =>
    rw [hd, if_neg Bool.false_ne_true] at hof
    simp only [groundQuad, templateOf, tripleOf, hd, Option.mapM_some, bind, Except.bind,
      pure, Except.pure, Functor.map, Except.map, hof, hcheck, Bool.false_eq_true, if_false]

theorem reads_readData (h : ∀ q ∈ qs, q.Normal ∧ q.Storable) (place : Place)
    (rest : List Token) :
    Reads (readData {} place (Request.blockTokens qs ++ rest))
      ((Request.blockOrder qs).map Quad.skolemize) rest := by
  obtain ⟨hlt, htemplate⟩ := reads_readTemplate h place rest
  have hquads : ((Request.blockOrder qs).map fun q => templateOf q.skolemize).mapM groundQuad =
      .ok ((Request.blockOrder qs).map Quad.skolemize) := by
    rw [List.mapM_map, mapM_ok (g := Quad.skolemize)]
    intro q hq
    obtain ⟨hn, hs⟩ := h q (Request.mem_blockOrder.mp hq)
    exact groundQuad_templateOf (ground_skolemize hn hs)
  rw [readData, htemplate]
  simp only [bind, Except.bind, hquads]
  exact ⟨_, rfl⟩

/-! ## Operations -/

theorem reads_insertData (h : ∀ q ∈ qs, q.Normal ∧ q.Storable) (rest : List Token) :
    Reads (readOperation {} (Request.insertTokens qs ++ rest))
      (.insertData ((Request.blockOrder qs).map Quad.skolemize)) rest := by
  obtain ⟨hlt, hdata⟩ := reads_readData h .insertData rest
  have hword : (Token.word "DATA").isKeyword "DATA" = true := by decide
  have hinsert : Token.upperCase "INSERT" = "INSERT" := by decide
  change Reads ((readOperationAfter {} "INSERT"
    (.word "DATA" :: (Request.blockTokens qs ++ rest))).map _) _ _
  rw [readOperationAfter, hinsert]
  dsimp only
  rw [readInsert, keyword?_self hword]
  dsimp only
  rw [hdata]
  exact ⟨_, rfl⟩

theorem reads_deleteData (h : ∀ q ∈ qs, q.Normal ∧ q.Storable) (rest : List Token) :
    Reads (readOperation {} (Request.deleteTokens qs ++ rest))
      (.deleteData ((Request.blockOrder qs).map Quad.skolemize)) rest := by
  obtain ⟨hlt, hdata⟩ := reads_readData h .deleteData rest
  have hword : (Token.word "DATA").isKeyword "DATA" = true := by decide
  have hdelete : Token.upperCase "DELETE" = "DELETE" := by decide
  change Reads ((readOperationAfter {} "DELETE"
    (.word "DATA" :: (Request.blockTokens qs ++ rest))).map _) _ _
  rw [readOperationAfter, hdelete]
  dsimp only
  rw [readDelete, keyword?_self hword]
  dsimp only
  rw [hdata]
  exact ⟨_, rfl⟩

private theorem reads_readTarget {graph : Option Term} (h : IsGraphScope graph) :
    Reads (readTarget {} (Request.targetTokens graph)) (Request.target graph) [] := by
  cases graph with
  | none => exact ⟨_, rfl⟩
  | some g =>
    obtain ⟨iri, rfl, hiri⟩ := h g rfl
    cases hd : (Term.iri iri).isDefaultGraph with
    | true =>
      rw [Request.targetTokens, Request.target, hd]
      exact ⟨_, rfl⟩
    | false =>
      obtain ⟨hlt, hread⟩ := reads_readIri hiri []
      rw [Request.targetTokens, hd]
      change Reads (readIri {} [.iri iri] >>= _) _ _
      rw [hread]
      exact ⟨_, rfl⟩

theorem reads_drop {graph : Option Term} (h : IsGraphScope graph) :
    Reads (readOperation {} (Request.dropTokens graph)) (.drop true (Request.target graph)) [] := by
  obtain ⟨hlt, htarget⟩ := reads_readTarget h
  have hdrop : Token.upperCase "DROP" = "DROP" := by decide
  have hsilent : ∀ ts, skipSilent (.word "SILENT" :: ts) = (true, ⟨ts, Nat.le_succ _⟩) :=
    fun ts => rfl
  change Reads ((readOperationAfter {} "DROP"
    (.word "SILENT" :: Request.targetTokens graph)).map _) _ _
  rw [readOperationAfter, hdrop]
  dsimp only
  rw [hsilent]
  simp only [htarget, bind, Except.bind]
  exact ⟨_, rfl⟩

/-- The last operation. -/
private theorem readOperations_last {ts : List Token} {u : Update}
    (h : Reads (readOperation {} ts) u []) : readOperations {} ts = .ok [u] := by
  obtain ⟨hlt, h⟩ := h
  have hne : ts.isEmpty = false := by
    cases ts with
    | nil => cases hlt
    | cons t ts => rfl
  rw [readOperations, hne]
  simp only [Bool.false_eq_true, if_false, h, bind, Except.bind]
  rfl

/-- An operation with another one after it, which no declaration precedes. -/
private theorem readOperations_semicolon {ts : List Token} {u : Update} {us : List Update}
    (h : Reads (readOperation {} ts) u (.punct ';' :: rest))
    (hpro : readPrologue {} rest = .ok ({}, .all rest)) (hrest : readOperations {} rest = .ok us) :
    readOperations {} ts = .ok (u :: us) := by
  obtain ⟨hlt, h⟩ := h
  have hne : ts.isEmpty = false := by
    cases ts with
    | nil => cases hlt
    | cons t ts => rfl
  rw [readOperations, hne]
  simp only [Bool.false_eq_true, if_false, h, bind, Except.bind, punct?_self, hpro, Rest.all,
    hrest]
  rfl

theorem readPrologue_word {word : String} {ts : List Token}
    (hpre : (Token.word word).isKeyword "PREFIX" = false)
    (hbase : (Token.word word).isKeyword "BASE" = false) :
    readPrologue {} (.word word :: ts) = .ok ({}, .all _) := by
  rw [readPrologue, keyword?_word_of_ne hpre, keyword?_word_of_ne hbase]

end Grammar

/-! ## Texts -/

namespace Update

open Grammar

variable {qs deleted inserted : List Quad} {text : String} {ts : List Token}

private theorem ofText_eq {us : List Update} {word : String}
    (h : Token.ofText text = .ok (.word word :: ts))
    (hpro : readPrologue {} (.word word :: ts) = .ok ({}, .all _))
    (hus : readOperations {} (.word word :: ts) = .ok us) : ofText text = .ok us := by
  rw [ofText, h]
  change ofTokens _ = _
  rw [ofTokens, hpro]
  exact hus

theorem ofText_insertData (h : ∀ q ∈ qs, q.Normal ∧ q.Storable) : ofText (Request.insertData qs) =
    .ok [.insertData ((Request.blockOrder qs).map Quad.skolemize)] := by
  have hread := reads_insertData h []
  rw [List.append_nil] at hread
  exact ofText_eq (Request.cutsTo_insertData fun q hq => (h q hq).2).ofText
    (readPrologue_word (by decide) (by decide)) (readOperations_last hread)

theorem ofText_deleteData (h : ∀ q ∈ qs, q.Normal ∧ q.Storable) : ofText (Request.deleteData qs) =
    .ok [.deleteData ((Request.blockOrder qs).map Quad.skolemize)] := by
  have hread := reads_deleteData h []
  rw [List.append_nil] at hread
  exact ofText_eq (Request.cutsTo_deleteData fun q hq => (h q hq).2).ofText
    (readPrologue_word (by decide) (by decide)) (readOperations_last hread)

theorem ofText_deleteInsert (hd : ∀ q ∈ deleted, q.Normal ∧ q.Storable)
    (hi : ∀ q ∈ inserted, q.Normal ∧ q.Storable) :
    ofText (Request.deleteData deleted ++ " ;\n" ++ Request.insertData inserted) =
      .ok [.deleteData ((Request.blockOrder deleted).map Quad.skolemize),
        .insertData ((Request.blockOrder inserted).map Quad.skolemize)] := by
  have hread := reads_insertData hi []
  rw [List.append_nil] at hread
  have hcuts := Request.cutsTo_deleteInsert (fun q hq => (hd q hq).2) fun q hq => (hi q hq).2
  refine ofText_eq hcuts.ofText (readPrologue_word (by decide) (by decide)) ?_
  exact readOperations_semicolon (reads_deleteData hd _)
    (readPrologue_word (by decide) (by decide)) (readOperations_last hread)

theorem ofText_drop {graph : Option Term} (h : IsGraphScope graph) :
    ofText (Request.drop graph) = .ok [.drop true (Request.target graph)] :=
  ofText_eq (Request.ofText_drop h) (readPrologue_word (by decide) (by decide))
    (readOperations_last (reads_drop h))

end Update
end DualStore
