import DualStore.Grammar.Tree
import DualStore.Index.Request
import DualStore.Proofs.BuiltTerms
import DualStore.Proofs.Lexing

/-! The tokens of the requests that the index is sent. Terms that pass the check are printed as
text that is cut into the tokens of their parts. -/

namespace DualStore

open Token (CutsTo CutsApart)

namespace Term

variable {value : String} {t : Term} {l : Literal}

/-! ## Terms -/

/-- The tokens of what follows the quotes of a literal. -/
def suffixTokens (l : Literal) : List Token :=
  match l.language, l.datatype with
  | some tag, _ => [.language tag]
  | none, some datatype => [.datatypeMark, .iri datatype]
  | none, none => []

/-- The tokens of a term's text. -/
def tokens : Term → List Token
  | iri value => [.iri value]
  | blank label => Token.labelTokens label.toList
  | literal l => .string l.lexical :: suffixTokens l

theorem cutsTo_iri (h : checkIri value = .ok ()) : CutsTo (iri value).chars (iri value).tokens := by
  have := Token.cutsTo_iri (isIriChar_of_checkIri h)
  rwa [String.ofList_toList] at this

private theorem cutsTo_datatype (h : checkIri value = .ok ()) :
    CutsTo ('^' :: '^' :: (iri value).chars) [.datatypeMark, .iri value] :=
  Token.cutsTo_datatypeMark.append (cutsTo_iri h)

private theorem cutsApart_suffix (h : (literal l).check = .ok ()) :
    CutsApart (literalSuffix l) (suffixTokens l) := by
  rcases check_iff.mp h with hn | ⟨lexical, hl⟩
  · obtain ⟨lexical, datatype, language⟩ := l
    rcases hn.literal_cases with ⟨hd, hl⟩ | ⟨d, hd, hl, hcheck, -⟩ | ⟨tag, hd, hl, htag, -⟩ <;>
      obtain rfl := hd <;> obtain rfl := hl
    · exact CutsTo.nil.apart
    · exact (cutsTo_datatype hcheck).apart
    · obtain ⟨hne, hchars⟩ := isLanguageChar_of_isLanguage htag
      have := Token.cutsApart_language hne hchars
      rwa [String.ofList_toList] at this
  · obtain rfl := literal.inj hl
    exact (cutsTo_datatype checkIri_rdfLangString).apart

private theorem head?_literalSuffix_append {rest : List Char}
    (hrest : ∀ d ∈ rest.head?, d = ' ') : (literalSuffix l ++ rest).head? ≠ some '\x22' := by
  unfold literalSuffix
  split
  · exact fun he => absurd (Option.some.inj he) (by decide)
  · exact fun he => absurd (Option.some.inj he) (by decide)
  · exact fun he => absurd (hrest _ he) (by decide)

/-- A term is cut into the tokens of its parts. Only the points at the end of a label are cut
off. -/
theorem cutsApart_chars (h : t.check = .ok ()) : CutsApart t.chars t.tokens := by
  cases t with
  | iri value => exact (cutsTo_iri h).apart
  | blank label => exact Token.cutsApart_label (isLabel_of_checkLabel h)
  | literal l =>
    intro total rest hrest
    have hchars : (literal l).chars ++ rest = '\x22' ::
        (l.lexical.toList.flatMap escape ++ '\x22' :: (literalSuffix l ++ rest)) := by
      simp [chars]
    rw [hchars, Token.scan_string total _ (head?_literalSuffix_append hrest),
      cutsApart_suffix h total rest hrest, String.ofList_toList]
    cases Token.scan total rest <;> rfl

end Term

/-- The tokens of a quad's triple and the point after it. -/
def Quad.tokens (q : Quad) : List Token :=
  q.subject.tokens ++ q.predicate.tokens ++ q.object.tokens ++ [.punct '.']

namespace Request

variable {q : Quad} {qs deleted inserted : List Quad} {g : Term} {indent : String}

/-! ## Quads -/

private theorem toList_line (indent : String) (q : Quad) : (line indent q).toList =
    indent.toList ++ (q.subject.skolemize.chars ++ [' ']) ++ (q.predicate.chars ++ [' ']) ++
      (q.object.skolemize.chars ++ [' ']) ++ ['.', '\n'] := by
  simp [line, Term.text, toString]

private theorem cutsTo_line (h : q.Storable) (hi : indent.toList.all Text.isBlank = true) :
    CutsTo (line indent q).toList q.skolemize.tokens := by
  have hcheck : ∀ t ∈ [q.subject, q.predicate, q.object], t.check = .ok () :=
    fun t ht => h.terms t (by simp only [List.mem_cons] at ht ⊢; tauto)
  have hindent : CutsTo indent.toList [] := .blanks (List.all_eq_true.mp hi)
  have hsubject := Term.cutsApart_chars (Term.check_skolemize (hcheck q.subject (by simp)))
  have hpredicate := Term.cutsApart_chars (hcheck q.predicate (by simp))
  have hobject := Term.cutsApart_chars (Term.check_skolemize (hcheck q.object (by simp)))
  have hterms := ((hindent.append hsubject.space).append hpredicate.space).append hobject.space
  have := hterms.append Token.cutsTo_point
  rw [← toList_line] at this
  rwa [Quad.tokens, Quad.skolemize, Term.skolemize_of_isIri h.predicate]

private theorem cutsTo_lines (indent : String) (hi : indent.toList.all Text.isBlank = true)
    (qs : List Quad) (h : ∀ q ∈ qs, q.Storable) :
    CutsTo (lines indent qs).toList (qs.flatMap (·.skolemize.tokens)) := by
  rw [lines, String.toList_join, List.flatMap_map]
  exact .flatMap fun q hq => cutsTo_line (h q hq) hi

/-- The tokens of a graph's quads in braces, with its name before them. -/
def graphTokens (qs : List Quad) (g : Term) : List Token :=
  .word "GRAPH" :: g.tokens ++ .punct '\x7b' ::
    (qs.filter (·.graph == g)).flatMap (·.skolemize.tokens) ++ [.punct '\x7d']

theorem cutsTo_blanks (cs : List Char) (h : cs.all Text.isBlank = true) : CutsTo cs [] :=
  .blanks (List.all_eq_true.mp h)

/-- A brace that opens a block, at the end of a line. -/
private theorem cutsTo_openLine : CutsTo (['\x7b'] ++ ['\n']) [.punct '\x7b'] :=
  Token.cutsTo_openBrace.append (cutsTo_blanks ['\n'] (by decide))

theorem cutsTo_graphWord : CutsTo "GRAPH ".toList [.word "GRAPH"] :=
  Token.cutsTo_word 'G' "RAPH".toList (fun _ => rfl) (by decide) (by decide)

private theorem toList_graphBlock (qs : List Quad) (g : Term) : (graphBlock qs g).toList =
    [' ', ' '] ++ "GRAPH ".toList ++ (g.chars ++ [' ']) ++ (['\x7b'] ++ ['\n']) ++
      (lines "    " (qs.filter (·.graph == g))).toList ++
      ([' ', ' '] ++ (['\x7d'] ++ ['\n'])) := by
  simp [graphBlock, Term.text, toString]

private theorem cutsTo_graphBlock (h : ∀ q ∈ qs, q.Storable) (hg : g.check = .ok ()) :
    CutsTo (graphBlock qs g).toList (graphTokens qs g) := by
  have hclose : CutsTo ([' ', ' '] ++ (['\x7d'] ++ ['\n'])) [.punct '\x7d'] :=
    (cutsTo_blanks [' ', ' '] (by decide)).append
      (Token.cutsTo_closeBrace.append (cutsTo_blanks ['\n'] (by decide)))
  have hlines := cutsTo_lines "    " (by decide) (qs.filter (·.graph == g))
    fun q hq => h q (List.mem_of_mem_filter hq)
  have hname := ((cutsTo_blanks [' ', ' '] (by decide)).append cutsTo_graphWord).append
    (Term.cutsApart_chars hg).space
  have := ((hname.append cutsTo_openLine).append hlines).append hclose
  rw [toList_graphBlock]
  simpa [graphTokens] using this

/-- The tokens of quads in braces. -/
def blockTokens (qs : List Quad) : List Token :=
  .punct '\x7b' :: (qs.filter (·.inDefaultGraph)).flatMap (·.skolemize.tokens) ++
    (namedGraphs qs).toList.flatMap (graphTokens qs) ++ [.punct '\x7d']

theorem mem_namedGraphs :
    g ∈ namedGraphs qs ↔ ∃ q ∈ qs, q.inDefaultGraph = false ∧ q.graph = g := by
  simp only [namedGraphs, SortedSet.mem_ofList, List.mem_map, List.mem_filter, Bool.not_eq_true',
    and_assoc]

/-- Quads in the order in which they are printed. -/
def blockOrder (qs : List Quad) : List Quad :=
  qs.filter (·.inDefaultGraph) ++ (namedGraphs qs).toList.flatMap fun g => qs.filter (·.graph == g)

theorem mem_blockOrder : q ∈ blockOrder qs ↔ q ∈ qs := by
  simp only [blockOrder, List.mem_append, List.mem_filter, List.mem_flatMap, beq_iff_eq,
    SortedSet.mem_toList, mem_namedGraphs]
  constructor
  · rintro (⟨hq, -⟩ | ⟨g, -, hq, -⟩) <;> exact hq
  · intro hq
    cases hd : q.inDefaultGraph with
    | true => exact .inl ⟨hq, rfl⟩
    | false => exact .inr ⟨q.graph, ⟨q, hq, hd, rfl⟩, hq, rfl⟩

private theorem cutsTo_block (h : ∀ q ∈ qs, q.Storable) :
    CutsTo (block qs).toList (blockTokens qs) := by
  have hdefault := cutsTo_lines "  " (by decide) (qs.filter (·.inDefaultGraph))
    fun q hq => h q (List.mem_of_mem_filter hq)
  have hgraphs : CutsTo ((namedGraphs qs).toList.flatMap fun g => (graphBlock qs g).toList)
      ((namedGraphs qs).toList.flatMap (graphTokens qs)) := by
    refine .flatMap fun g hg => ?_
    obtain ⟨q, hq, -, rfl⟩ := mem_namedGraphs.mp hg
    exact cutsTo_graphBlock h ((h q hq).terms q.graph (by simp))
  have htext : (block qs).toList = (['\x7b'] ++ ['\n']) ++
      (lines "  " (qs.filter (·.inDefaultGraph))).toList ++
      ((namedGraphs qs).toList.flatMap fun g => (graphBlock qs g).toList) ++ ['\x7d'] := by
    simp [block, List.flatMap_map]
  have := ((cutsTo_openLine.append hdefault).append hgraphs).append Token.cutsTo_closeBrace
  rw [htext]
  simpa [blockTokens] using this

/-! ## Updates -/

/-- The tokens of an insertion of quads. -/
def insertTokens (qs : List Quad) : List Token := .word "INSERT" :: .word "DATA" :: blockTokens qs

/-- The tokens of a deletion of quads. -/
def deleteTokens (qs : List Quad) : List Token := .word "DELETE" :: .word "DATA" :: blockTokens qs

private theorem cutsTo_data : CutsTo "DATA ".toList [.word "DATA"] :=
  Token.cutsTo_word 'D' "ATA".toList (fun _ => rfl) (by decide) (by decide)

theorem cutsTo_insertData (h : ∀ q ∈ qs, q.Storable) :
    CutsTo (insertData qs).toList (insertTokens qs) := by
  have hword : CutsTo "INSERT ".toList [.word "INSERT"] :=
    Token.cutsTo_word 'I' "NSERT".toList (fun _ => rfl) (by decide) (by decide)
  have := (hword.append cutsTo_data).append (cutsTo_block h)
  rwa [← String.toList_append, ← String.toList_append] at this

theorem cutsTo_deleteData (h : ∀ q ∈ qs, q.Storable) :
    CutsTo (deleteData qs).toList (deleteTokens qs) := by
  have hword : CutsTo "DELETE ".toList [.word "DELETE"] :=
    Token.cutsTo_word 'D' "ELETE".toList (fun _ => rfl) (by decide) (by decide)
  have := (hword.append cutsTo_data).append (cutsTo_block h)
  rwa [← String.toList_append, ← String.toList_append] at this

theorem cutsTo_deleteInsert (hd : ∀ q ∈ deleted, q.Storable)
    (hi : ∀ q ∈ inserted, q.Storable) :
    CutsTo (deleteData deleted ++ " ;\n" ++ insertData inserted).toList
      (deleteTokens deleted ++ .punct ';' :: insertTokens inserted) := by
  have hmark : CutsTo " ;\n".toList [.punct ';'] :=
    (cutsTo_blanks [' '] (by decide)).append
      (Token.cutsTo_semicolon.append (cutsTo_blanks ['\n'] (by decide)))
  have := ((cutsTo_deleteData hd).append hmark).append (cutsTo_insertData hi)
  rw [← String.toList_append, ← String.toList_append] at this
  simpa using this

/-! ## Emptying -/

/-- What a request that empties one graph, or all, is about. -/
def target : Option Term → GraphTarget
  | none => .all
  | some g => if g.isDefaultGraph then .default else .graph g

/-- The tokens of one graph, or of all. -/
def targetTokens : Option Term → List Token
  | none => [.word "ALL"]
  | some g => if g.isDefaultGraph then [.word "DEFAULT"] else .word "GRAPH" :: g.tokens

/-- The tokens of a request that empties one graph, or all. -/
def dropTokens (graph : Option Term) : List Token :=
  .word "DROP" :: .word "SILENT" :: targetTokens graph

theorem cutsTo_dropGraph : CutsTo "DROP SILENT GRAPH ".toList
    [.word "DROP", .word "SILENT", .word "GRAPH"] := by
  have hdrop : CutsTo "DROP ".toList [.word "DROP"] :=
    Token.cutsTo_word 'D' "ROP".toList (fun _ => rfl) (by decide) (by decide)
  have hsilent : CutsTo "SILENT ".toList [.word "SILENT"] :=
    Token.cutsTo_word 'S' "ILENT".toList (fun _ => rfl) (by decide) (by decide)
  exact (hdrop.append hsilent).append cutsTo_graphWord

/-- The name of a graph goes into the request as it is. -/
theorem toList_drop {g : Term} (h : g.isDefaultGraph = false) :
    (drop (some g)).toList = "DROP SILENT GRAPH ".toList ++ g.chars := by
  rw [drop, h]
  simp [Term.text, toString]

theorem ofText_drop {graph : Option Term} (h : IsGraphScope graph) :
    Token.ofText (drop graph) = .ok (dropTokens graph) := by
  cases graph with
  | none => decide +kernel
  | some g =>
    obtain ⟨iri, rfl, hiri⟩ := h g rfl
    cases hd : (Term.iri iri).isDefaultGraph with
    | true =>
      simp only [drop, dropTokens, targetTokens, hd, if_true]
      decide +kernel
    | false =>
      refine CutsTo.ofText ?_
      rw [toList_drop hd, dropTokens, targetTokens, hd]
      exact cutsTo_dropGraph.append (Term.cutsTo_iri hiri)

end Request
end DualStore
