import DualStore.Grammar.Query
import DualStore.Proofs.ParsedRequests

/-! The pattern of all that a graph or a whole dataset holds, and the queries for its number of
solutions and for the solutions themselves: how they are printed, and that they are read as what
they are meant to be (`Query.ofText_count_eq_ok`, `Query.ofText_contents`). -/

namespace DualStore

open Token (CutsTo)

variable {graph : Option Term} {rest : List Token}

namespace Request

/-! ## Texts -/

def tripleTokens : List Token := [.var "s", .var "p", .var "o"]

/-- The tokens of the pattern of a scope. -/
def patternTokens : Option Term → List Token
  | none => .punct '\x7b' :: tripleTokens ++ .punct '\x7d' :: .word "UNION" :: .punct '\x7b' ::
      .word "GRAPH" :: .var "g" :: .punct '\x7b' :: tripleTokens ++ [.punct '\x7d', .punct '\x7d']
  | some g =>
    if g.isDefaultGraph then tripleTokens
    else .word "GRAPH" :: g.tokens ++ .punct '\x7b' :: tripleTokens ++ [.punct '\x7d']

theorem patternTokens_append {g : Term} (h : g.isDefaultGraph = false) (rest : List Token) :
    patternTokens (some g) ++ rest = .word "GRAPH" ::
      (g.tokens ++ .punct '\x7b' :: (tripleTokens ++ .punct '\x7d' :: rest)) := by
  simp [patternTokens, h]

/-- The tokens of the question for the number of quads. -/
def countTokens (graph : Option Term) : List Token :=
  .word "SELECT" :: .punct '(' :: .word "COUNT" :: .punct '(' :: .punct '*' :: .punct ')' ::
    .word "AS" :: .var "count" :: .punct ')' :: .word "WHERE" :: .punct '\x7b' ::
    patternTokens graph ++ [.punct '\x7d']

/-- The tokens of the question for the quads. -/
def contentsTokens (graph : Option Term) : List Token :=
  (match graph with
    | none => .word "SELECT" :: tripleTokens ++ [.var "g"]
    | some _ => .word "CONSTRUCT" :: .punct '\x7b' :: tripleTokens ++ [.punct '\x7d']) ++
    .word "WHERE" :: .punct '\x7b' :: patternTokens graph ++ [.punct '\x7d']

private theorem cutsTo_triple : CutsTo "?s ?p ?o ".toList tripleTokens := by
  have hvar : ∀ c, Token.isNameChar c = true →
      CutsTo ['?', c, ' '] [.var (String.ofList [c])] := fun c hc =>
    (Token.cutsBefore_var (List.cons_ne_nil c []) (by simp [hc]) (by decide)).space
  exact ((hvar 's' (by decide)).append (hvar 'p' (by decide))).append (hvar 'o' (by decide))

private theorem cutsTo_open : CutsTo ['\x7b', ' '] [.punct '\x7b'] :=
  Token.cutsTo_openBrace.append (cutsTo_blanks [' '] (by decide))

private theorem cutsTo_close : CutsTo ['\x7d', ' '] [.punct '\x7d'] :=
  Token.cutsTo_closeBrace.append (cutsTo_blanks [' '] (by decide))

private theorem cutsTo_bracedTriple : CutsTo "\x7b ?s ?p ?o \x7d ".toList
    (.punct '\x7b' :: tripleTokens ++ [.punct '\x7d']) :=
  (cutsTo_open.append cutsTo_triple).append cutsTo_close

theorem cutsTo_pattern (h : ∀ g ∈ graph, g.check = .ok ()) :
    CutsTo ((pattern graph).toList ++ [' ']) (patternTokens graph) := by
  cases graph with
  | none =>
    have hunion : CutsTo "UNION ".toList [.word "UNION"] :=
      Token.cutsTo_word 'U' "NION".toList (fun _ => rfl) (by decide) (by decide)
    have hvar : CutsTo "?g ".toList [.var "g"] :=
      (Token.cutsBefore_var (List.cons_ne_nil 'g' []) (by decide) (by decide)).space
    exact ((((cutsTo_bracedTriple.append hunion).append cutsTo_open).append
      cutsTo_graphWord).append hvar).append cutsTo_bracedTriple |>.append cutsTo_close
  | some g =>
    cases hd : g.isDefaultGraph with
    | true =>
      rw [pattern, patternTokens, hd, if_pos rfl, if_pos rfl]
      exact cutsTo_triple
    | false =>
      have htext : (pattern (some g)).toList ++ [' '] = "GRAPH ".toList ++
          (g.chars ++ [' ']) ++ "\x7b ?s ?p ?o \x7d ".toList := by
        simp [pattern, hd, Term.text, toString]
      rw [htext, patternTokens, hd]
      have := (cutsTo_graphWord.append (Term.cutsApart_chars (h g rfl)).space).append
        cutsTo_bracedTriple
      simpa using this

private theorem cutsTo_where : CutsTo "WHERE \x7b ".toList [.word "WHERE", .punct '\x7b'] := by
  have hwhere : CutsTo "WHERE ".toList [.word "WHERE"] :=
    Token.cutsTo_word 'W' "HERE".toList (fun _ => rfl) (by decide) (by decide)
  exact hwhere.append cutsTo_open

private theorem cutsTo_selectCount : CutsTo "SELECT (COUNT(*) AS ?count) WHERE \x7b ".toList
    [.word "SELECT", .punct '(', .word "COUNT", .punct '(', .punct '*', .punct ')', .word "AS",
      .var "count", .punct ')', .word "WHERE", .punct '\x7b'] := by
  have hselect : CutsTo "SELECT ".toList [.word "SELECT"] :=
    Token.cutsTo_word 'S' "ELECT".toList (fun _ => rfl) (by decide) (by decide)
  have hcount : CutsTo "COUNT(".toList [.word "COUNT", .punct '('] :=
    (Token.cutsBefore_word 'C' "OUNT".toList (fun _ => rfl) (by decide) (by decide) (by decide)
      (by decide) (by decide)).append Token.cutsTo_openParen
  have hname : CutsTo "?count)".toList [.var "count", .punct ')'] :=
    (Token.cutsBefore_var (List.cons_ne_nil 'c' "ount".toList) (by decide) (by decide)).append
      Token.cutsTo_closeParen
  have has : CutsTo "AS ".toList [.word "AS"] :=
    Token.cutsTo_word 'A' "S".toList (fun _ => rfl) (by decide) (by decide)
  have hblank : CutsTo [' '] [] := cutsTo_blanks [' '] (by decide)
  have hstar := (hcount.append Token.cutsTo_star).append (Token.cutsTo_closeParen.append hblank)
  have hnumber := (Token.cutsTo_openParen.append hstar).append (has.append (hname.append hblank))
  exact (hselect.append hnumber).append cutsTo_where

private theorem cutsTo_selectContents : CutsTo "SELECT ?s ?p ?o ?g WHERE \x7b ".toList
    (.word "SELECT" :: tripleTokens ++ [.var "g", .word "WHERE", .punct '\x7b']) := by
  have hselect : CutsTo "SELECT ".toList [.word "SELECT"] :=
    Token.cutsTo_word 'S' "ELECT".toList (fun _ => rfl) (by decide) (by decide)
  have hvar : CutsTo "?g ".toList [.var "g"] :=
    (Token.cutsBefore_var (List.cons_ne_nil 'g' []) (by decide) (by decide)).space
  exact ((hselect.append cutsTo_triple).append hvar).append cutsTo_where

private theorem cutsTo_constructContents : CutsTo "CONSTRUCT \x7b ?s ?p ?o \x7d WHERE \x7b ".toList
    (.word "CONSTRUCT" :: .punct '\x7b' :: tripleTokens ++
      [.punct '\x7d', .word "WHERE", .punct '\x7b']) := by
  have hconstruct : CutsTo "CONSTRUCT ".toList [.word "CONSTRUCT"] :=
    Token.cutsTo_word 'C' "ONSTRUCT".toList (fun _ => rfl) (by decide) (by decide)
  exact (hconstruct.append cutsTo_bracedTriple).append cutsTo_where

private theorem toList_closed (head body : String) : (head ++ body ++ " \x7d").toList =
    head.toList ++ (body.toList ++ [' ']) ++ ['\x7d'] := by
  simp

theorem ofText_count (h : ∀ g ∈ graph, g.check = .ok ()) :
    Token.ofText (count graph) = .ok (countTokens graph) := by
  have htext : (count graph).toList = "SELECT (COUNT(*) AS ?count) WHERE \x7b ".toList ++
      ((pattern graph).toList ++ [' ']) ++ ['\x7d'] := toList_closed ..
  refine CutsTo.ofText ?_
  rw [htext]
  exact (cutsTo_selectCount.append (cutsTo_pattern h)).append Token.cutsTo_closeBrace

theorem ofText_contents (h : ∀ g ∈ graph, g.check = .ok ()) :
    Token.ofText (contents graph) = .ok (contentsTokens graph) := by
  refine CutsTo.ofText ?_
  cases graph with
  | none =>
    have htext : (contents none).toList = "SELECT ?s ?p ?o ?g WHERE \x7b ".toList ++
        ((pattern none).toList ++ [' ']) ++ ['\x7d'] := toList_closed ..
    rw [htext]
    exact (cutsTo_selectContents.append (cutsTo_pattern h)).append Token.cutsTo_closeBrace
  | some g =>
    have htext : (contents (some g)).toList =
        "CONSTRUCT \x7b ?s ?p ?o \x7d WHERE \x7b ".toList ++
          ((pattern (some g)).toList ++ [' ']) ++ ['\x7d'] := toList_closed ..
    rw [htext]
    exact (cutsTo_constructContents.append (cutsTo_pattern h)).append Token.cutsTo_closeBrace

end Request

/-! ## Readings -/

/-- The pattern that every triple fits. -/
def TriplePattern.any : TriplePattern := ⟨.var "s", .var "p", .var "o"⟩

/-- What the name of a graph is read as in a pattern. A blank node is a variable there. Points at the
end of a label are no part of it, so the name is not read then. -/
def Request.graphNode? : Term → Option Node
  | .blank label =>
    if label.toList.getLast? = some '.' then none else some (.var ("_:" ++ label))
  | t => some (.term t)

/-- The group that the pattern of a scope is read as. -/
def Request.group? : Option Term → Option Group
  | none => some [.union [[.triple .any], [.graph (.var "g") [.triple .any]]]]
  | some g =>
    if g.isDefaultGraph then some [.triple .any]
    else (graphNode? g).map fun n => [.graph n [.triple .any]]

namespace Grammar

variable {ts ts' rest' : List Token} {inner more : Group} {n : Node}

private theorem reads_closed (rest : List Token) :
    Reads (readGroupBody {} (.punct '\x7d' :: rest)) [] rest := by
  rw [readGroupBody, punct?_self]
  exact ⟨_, rfl⟩

private theorem readNode_var {place : Place} (hplace : place.isGround = false)
    (position : Position) (v : String) (ts : List Token) :
    readNode {} place position (.var v :: ts) = .ok ⟨.var v, ts, Nat.lt_succ_self _⟩ := by
  cases place <;> first | rfl | cases hplace

private theorem reads_any {place : Place} (hplace : place.isGround = false) (rest : List Token) :
    Reads (readSubject {} place (Request.tripleTokens ++ .punct '\x7d' :: rest)) [.any]
      (.punct '\x7d' :: rest) := by
  have hobjects : Reads (readObjects {} place (.var "o" :: .punct '\x7d' :: rest)) [.var "o"]
      (.punct '\x7d' :: rest) := by
    rw [readObjects, readNode_var hplace]
    exact ⟨_, rfl⟩
  obtain ⟨hlt, hobjects⟩ := hobjects
  have hproperties : Reads (readProperties {} place
      (.var "p" :: .var "o" :: .punct '\x7d' :: rest)) [(.var "p", [.var "o"])]
        (.punct '\x7d' :: rest) := by
    have hpath : startsWithPunct ['/', '|', '^', '*', '+', '?']
      (.var "o" :: .punct '\x7d' :: rest) = false := rfl
    rw [readProperties, readNode_var hplace]
    simp only [bind, Except.bind, hpath, hobjects]
    exact ⟨_, rfl⟩
  obtain ⟨hlt', hproperties⟩ := hproperties
  rw [Request.tripleTokens, List.cons_append, readSubject, readNode_var hplace]
  change Reads (readProperties {} place (.var "p" :: .var "o" :: .punct '\x7d' :: rest) >>= _) _ _
  rw [hproperties]
  exact ⟨_, rfl⟩

/-- Every triple, and the end of the group. -/
private theorem reads_anyGroup (rest : List Token) :
    Reads (readGroupBody {} (Request.tripleTokens ++ .punct '\x7d' :: rest)) [.triple .any]
      rest := by
  obtain ⟨hlt, htriple⟩ := reads_any (rfl : Place.pattern.isGround = false) rest
  obtain ⟨hlt', hclosed⟩ := reads_closed rest
  have hend : endOfTriples (.punct '\x7d' :: rest) = .ok (.all _) := rfl
  have hmark : ∀ c, punct? c (Request.tripleTokens ++ .punct '\x7d' :: rest) = none :=
    fun c => rfl
  have hkeyword : keyword? "GRAPH" (Request.tripleTokens ++ .punct '\x7d' :: rest) = none := rfl
  have hfeature : oneOf? unsupportedElements (Request.tripleTokens ++ .punct '\x7d' :: rest) =
    none := rfl
  rw [readGroupBody, hmark, hmark, hmark, hkeyword, hfeature]
  simp only [bind, Except.bind, htriple, hend, hclosed, Rest.all]
  exact ⟨_, rfl⟩

/-- A graph with a group in it, and what follows in the group around it. -/
private theorem reads_graphElement
    (hn : Reads (readNode {} .pattern .graph ts) n (.punct '\x7b' :: ts'))
    (hinner : Reads (readGroupBody {} ts') inner rest)
    (hmore : Reads (readGroupBody {} rest) more rest') :
    Reads (readGroupBody {} (.word "GRAPH" :: ts)) (.graph n inner :: more) rest' := by
  obtain ⟨hlt, hn⟩ := hn
  obtain ⟨hlt', hinner⟩ := hinner
  obtain ⟨hlt'', hmore⟩ := hmore
  have hword : (Token.word "GRAPH").isKeyword "GRAPH" = true := by decide
  rw [readGroupBody, punct?_word, punct?_word, punct?_word, keyword?_self hword]
  simp only [bind, Except.bind, hn, punct_self, hinner, hmore]
  exact ⟨_, rfl⟩

/-- Two alternatives, and the end of the group around them. -/
private theorem reads_unionElement {first second : Group}
    (hfirst : Reads (readGroupBody {} ts) first (.word "UNION" :: .punct '\x7b' :: ts'))
    (hsecond : Reads (readGroupBody {} ts') second (.punct '\x7d' :: rest)) :
    Reads (readGroupBody {} (.punct '\x7b' :: ts)) [.union [first, second]] rest := by
  obtain ⟨hlt, hfirst⟩ := hfirst
  obtain ⟨hlt', hsecond⟩ := hsecond
  obtain ⟨hlt'', hclosed⟩ := reads_closed rest
  have hword : (Token.word "UNION").isKeyword "UNION" = true := by decide
  have hlast : keyword? "UNION" (.punct '\x7d' :: rest) = none := rfl
  have hothers : Reads (readAlternatives {} (.punct '\x7b' :: ts')) [second]
      (.punct '\x7d' :: rest) := by
    rw [readAlternatives]
    simp only [bind, Except.bind, punct_self, hsecond, hlast]
    exact ⟨_, rfl⟩
  obtain ⟨hlt₃, hothers⟩ := hothers
  have hmark : ∀ c, c ≠ '\x7b' → punct? c (.punct '\x7b' :: ts) = none := fun c hc =>
    if_neg fun he => hc (Token.punct.inj he).symm
  rw [readGroupBody, hmark '\x7d' (by decide), hmark '.' (by decide), punct?_self]
  simp only [bind, Except.bind, hfirst, keyword?_self hword, hothers, hclosed]
  exact ⟨_, rfl⟩

/-! ### Names of graphs -/

private theorem tokens_blank {label : String} (h : label.toList.getLast? ≠ some '.') :
    (Term.blank label).tokens = [.blank label] := by
  have htake : label.toList.rtakeWhile (· == '.') = [] := by
    rw [List.rtakeWhile_eq_nil_iff]
    intro hne hlast
    rw [List.getLast?_eq_some_getLast hne, beq_iff_eq.mp hlast] at h
    exact h rfl
  have hdrop : label.toList.rdropWhile (· == '.') = label.toList := by
    have := List.rdropWhile_append_rtakeWhile (p := (· == '.')) (l := label.toList)
    rwa [htake, List.append_nil] at this
  rw [Term.tokens, Token.labelTokens, htake, hdrop, String.ofList_toList]
  rfl

private theorem exists_tokens_blank {label : String} (h : label.toList.getLast? = some '.') :
    ∃ name ts, (Term.blank label).tokens = .blank name :: .punct '.' :: ts := by
  obtain ⟨start, hlabel⟩ := List.getLast?_eq_some_iff.mp h
  have hne : label.toList.rtakeWhile (· == '.') ≠ [] := by
    rw [hlabel, List.rtakeWhile_concat_pos _ _ _ (by decide)]
    exact List.append_ne_nil_of_right_ne_nil _ (List.cons_ne_nil '.' [])
  obtain ⟨c, points, hpoints⟩ := List.exists_cons_of_ne_nil hne
  have hc : (c == '.') = true := List.mem_rtakeWhile_imp (p := (· == '.'))
    (hpoints ▸ List.mem_cons_self)
  rw [Term.tokens, Token.labelTokens, hpoints, beq_iff_eq.mp hc]
  exact ⟨_, _, rfl⟩

private theorem reads_graphName {g : Term} (h : g.Normal) (hn : Request.graphNode? g = some n)
    (hrest : EndsString rest) :
    Reads (readNode {} .pattern .graph (g.tokens ++ rest)) n rest := by
  cases hb : g.isBlank with
  | false =>
    have hterm : Request.graphNode? g = some (.term g) := by
      cases g with
      | blank label => cases hb
      | _ => rfl
    obtain rfl := Option.some.inj (hterm.symm.trans hn)
    exact reads_object h hb .pattern .graph hrest
  | true =>
    cases g with
    | blank label =>
      rw [Request.graphNode?, Option.ite_none_left_eq_some] at hn
      obtain ⟨hlast, hn⟩ := hn
      obtain rfl := Option.some.inj hn
      rw [tokens_blank hlast]
      exact ⟨_, rfl⟩
    | _ => cases hb

/-- The pattern of a scope, in braces. -/
theorem reads_pattern {g : Group} (h : ∀ g ∈ graph, g.Normal) (hg : Request.group? graph = some g)
    (rest : List Token) :
    Reads (readGroupBody {} (Request.patternTokens graph ++ .punct '\x7d' :: rest)) g rest := by
  cases graph with
  | none =>
    obtain rfl := Option.some.inj hg
    have hvar : Reads (readNode {} .pattern .graph (.var "g" :: .punct '\x7b' ::
        (Request.tripleTokens ++ .punct '\x7d' :: .punct '\x7d' :: .punct '\x7d' :: rest)))
        (.var "g") (.punct '\x7b' :: (Request.tripleTokens ++
          .punct '\x7d' :: .punct '\x7d' :: .punct '\x7d' :: rest)) := ⟨_, rfl⟩
    have hgraph := reads_graphElement hvar (reads_anyGroup _) (reads_closed _)
    exact reads_unionElement (reads_anyGroup _) hgraph
  | some name =>
    rw [Request.group?] at hg
    cases hd : name.isDefaultGraph with
    | true =>
      rw [hd] at hg
      obtain rfl := Option.some.inj hg
      rw [Request.patternTokens, hd]
      exact reads_anyGroup rest
    | false =>
      rw [hd] at hg
      obtain ⟨n, hn, rfl⟩ := Option.map_eq_some_iff.mp hg
      rw [Request.patternTokens_append hd]
      exact reads_graphElement (reads_graphName (h name rfl) hn trivial) (reads_anyGroup _)
        (reads_closed _)

/-- A name that is cut short is not followed by a brace. -/
theorem readGroupBody_pattern_error (h : Request.group? graph = none) (rest : List Token) :
    ∃ fault, readGroupBody {} (Request.patternTokens graph ++ rest) = .error fault := by
  cases graph with
  | none => cases h
  | some g =>
    rw [Request.group?] at h
    cases hd : g.isDefaultGraph with
    | true =>
      rw [hd] at h
      cases h
    | false =>
      rw [hd] at h
      have h : Request.graphNode? g = none := Option.map_eq_none_iff.mp h
      cases g with
      | blank label =>
        rw [Request.graphNode?, ite_eq_left_iff] at h
        have hlast : label.toList.getLast? = some '.' := by
          by_contra hne
          cases h hne
        obtain ⟨name, ts, hts⟩ := exists_tokens_blank hlast
        have hword : (Token.word "GRAPH").isKeyword "GRAPH" = true := by decide
        rw [Request.patternTokens_append hd, hts, readGroupBody, punct?_word, punct?_word, punct?_word,
          keyword?_self hword]
        exact ⟨_, rfl⟩
      | _ => cases h

/-! ### Questions -/

private theorem readWhere_braces (ts : List Token) :
    readWhere {} (.word "WHERE" :: .punct '\x7b' :: ts) = (do
      let body ← readGroupBody {} ts
      return (body.value, body.rest)) := by
  have hskip : skipKeyword "WHERE" (.word "WHERE" :: .punct '\x7b' :: ts) =
    (true, .punct '\x7b' :: ts) := rfl
  have hdataset : refuseDataset (.word "WHERE" :: .punct '\x7b' :: ts) = .ok () := rfl
  rw [readWhere, hdataset, hskip]
  simp only [readGroup, bind, Except.bind, punct_self]
  cases readGroupBody {} ts <;> rfl

private theorem readModifiers_nil : readModifiers none 0 [] = .ok (none, 0, []) := by
  rw [readModifiers]
  rfl

private theorem readQuery_countTokens (graph : Option Term) :
    readQuery {} (Request.countTokens graph) = (do
      let body ← readGroupBody {} (Request.patternTokens graph ++ [.punct '\x7d'])
      let (limit, offset, ts) ← readModifiers none 0 body.rest
      return (.select false (.count "count" false) body.value limit offset, ts)) := by
  have hwhere := readWhere_braces (Request.patternTokens graph ++ [.punct '\x7d'])
  change readSelect {} (.punct '(' :: .word "COUNT" :: .punct '(' :: .punct '*' :: .punct ')' ::
    .word "AS" :: .var "count" :: .punct ')' :: .word "WHERE" :: .punct '\x7b' ::
      (Request.patternTokens graph ++ [.punct '\x7d'])) = _
  have hprojection : readProjection (.punct '(' :: .word "COUNT" :: .punct '(' :: .punct '*' ::
    .punct ')' :: .word "AS" :: .var "count" :: .punct ')' :: .word "WHERE" :: .punct '\x7b' ::
      (Request.patternTokens graph ++ [.punct '\x7d'])) = .ok (.count "count" false,
    .word "WHERE" :: .punct '\x7b' :: (Request.patternTokens graph ++ [.punct '\x7d'])) := rfl
  have hplain : ∀ keyword ts, skipKeyword keyword (.punct '(' :: ts) =
    (false, .punct '(' :: ts) := fun keyword ts => rfl
  simp only [readSelect, bind, Except.bind, hplain, hprojection, hwhere]
  cases readGroupBody {} (Request.patternTokens graph ++ [.punct '\x7d']) <;> rfl

/-- The names of the columns, and the pattern of all graphs. -/
private theorem readQuery_selectContents {g : Group} (hg : Request.group? none = some g) :
    readQuery {} (Request.contentsTokens none) =
      .ok (.select false (.vars ["s", "p", "o", "g"]) g none 0, []) := by
  have hnone : ∀ g ∈ (none : Option Term), g.Normal := nofun
  obtain ⟨hlt, hread⟩ := reads_pattern hnone hg []
  have hwhere := readWhere_braces (Request.patternTokens none ++ [.punct '\x7d'])
  have hprojection : readProjection (.var "s" :: .var "p" :: .var "o" :: .var "g" ::
    .word "WHERE" :: .punct '\x7b' :: (Request.patternTokens none ++ [.punct '\x7d'])) =
      .ok (.vars ["s", "p", "o", "g"],
        .word "WHERE" :: .punct '\x7b' :: (Request.patternTokens none ++ [.punct '\x7d'])) := rfl
  have hplain : ∀ keyword v ts, skipKeyword keyword (.var v :: ts) = (false, .var v :: ts) :=
    fun keyword v ts => rfl
  change readSelect {} (.var "s" :: .var "p" :: .var "o" :: .var "g" :: .word "WHERE" ::
    .punct '\x7b' :: (Request.patternTokens none ++ [.punct '\x7d'])) = _
  simp only [readSelect, bind, Except.bind, hplain, hprojection, hwhere, hread, readModifiers_nil,
    pure, Except.pure]

private theorem reads_anyTemplate (rest : List Token) :
    Reads (readTriples {} .insertTemplate (Request.tripleTokens ++ .punct '\x7d' :: rest)) [.any]
      rest := by
  obtain ⟨hlt, htriple⟩ := reads_any (rfl : Place.insertTemplate.isGround = false) rest
  have hclosed : Reads (readTriples {} .insertTemplate (.punct '\x7d' :: rest)) [] rest := by
    rw [readTriples, punct?_self]
    exact ⟨_, rfl⟩
  obtain ⟨hlt', hclosed⟩ := hclosed
  have hend : endOfTriples (.punct '\x7d' :: rest) = .ok (.all _) := rfl
  have hmark : ∀ c, punct? c (Request.tripleTokens ++ .punct '\x7d' :: rest) = none :=
    fun c => rfl
  have hgraph : (startsWithKeyword "GRAPH" (Request.tripleTokens ++ .punct '\x7d' :: rest) ||
    startsWithPunct ['\x7b'] (Request.tripleTokens ++ .punct '\x7d' :: rest)) = false := rfl
  rw [readTriples, hmark, hmark, hgraph]
  simp only [bind, Except.bind, htriple, hend, hclosed, Rest.all]
  exact ⟨_, rfl⟩

/-- A template of one triple, and the pattern of one graph. -/
private theorem readQuery_constructContents {name : Term} {g : Group} (hn : name.Normal)
    (hg : Request.group? (some name) = some g) :
    readQuery {} (Request.contentsTokens (some name)) = .ok (.construct [.any] g none, []) := by
  have hname : ∀ g ∈ some name, g.Normal := fun g hg => Option.some.inj hg ▸ hn
  obtain ⟨hlt, hread⟩ := reads_pattern hname hg []
  have hwhere := readWhere_braces (Request.patternTokens (some name) ++ [.punct '\x7d'])
  obtain ⟨hlt', htemplate⟩ := reads_anyTemplate
    (.word "WHERE" :: .punct '\x7b' :: (Request.patternTokens (some name) ++ [.punct '\x7d']))
  have hkeyword : ∀ ts, keyword? "WHERE" (.punct '\x7b' :: ts) = none := fun _ => rfl
  change readConstruct {} (.punct '\x7b' :: (Request.tripleTokens ++ .punct '\x7d' ::
    .word "WHERE" :: .punct '\x7b' ::
      (Request.patternTokens (some name) ++ [.punct '\x7d']))) = _
  rw [readConstruct, hkeyword]
  simp only [readConstructTemplate, bind, Except.bind, punct_self, htemplate, hwhere, hread,
    readModifiers_nil, pure, Except.pure, Nat.lt_irrefl, if_false]

end Grammar

/-- The question for the number of quads is read as a selection that counts the solutions of the
pattern. -/
theorem Query.ofText_count_eq_ok (h : ∀ g ∈ graph, g.Normal) {q : Query} :
    ofText (Request.count graph) = .ok q ↔
      ∃ g, Request.group? graph = some g ∧ q = .select false (.count "count" false) g none 0 := by
  have hcheck : ∀ g ∈ graph, g.check = .ok () := fun g hg => Term.check_iff.mpr (.inl (h g hg))
  have hprologue : Grammar.readPrologue {} (Request.countTokens graph) = .ok ({}, .all _) :=
    Grammar.readPrologue_word (by decide) (by decide)
  rw [ofText, Request.ofText_count hcheck]
  change ofTokens _ = _ ↔ _
  rw [ofTokens, hprologue]
  change (Grammar.readQuery {} (Request.countTokens graph) >>= _) = _ ↔ _
  rw [Grammar.readQuery_countTokens]
  cases hg : Request.group? graph with
  | none =>
    obtain ⟨fault, hfault⟩ := Grammar.readGroupBody_pattern_error hg [.punct '\x7d']
    rw [hfault]
    exact iff_of_false nofun nofun
  | some g =>
    obtain ⟨hlt, hread⟩ := Grammar.reads_pattern h hg []
    simp only [hread, bind, Except.bind, Grammar.readModifiers_nil, Option.some.injEq,
      exists_eq_left']
    exact ⟨fun he => (Except.ok.inj he).symm, fun he => congrArg Except.ok he.symm⟩

/-- The question for the quads, with the pattern `g` of their scope. -/
def Request.contentsQuery (graph : Option Term) (g : Group) : Query :=
  match graph with
  | none => .select false (.vars ["s", "p", "o", "g"]) g none 0
  | some _ => .construct [.any] g none

/-- The question for the quads is read as a selection of all columns, or as a construction of all
triples. -/
theorem Query.ofText_contents (h : ∀ g ∈ graph, g.Normal) {g : Group}
    (hg : Request.group? graph = some g) :
    ofText (Request.contents graph) = .ok (Request.contentsQuery graph g) := by
  have hcheck : ∀ g ∈ graph, g.check = .ok () := fun g hg => Term.check_iff.mpr (.inl (h g hg))
  have hprologue : Grammar.readPrologue {} (Request.contentsTokens graph) = .ok ({}, .all _) := by
    cases graph <;> exact Grammar.readPrologue_word (by decide) (by decide)
  have hquery : Grammar.readQuery {} (Request.contentsTokens graph) =
      .ok (Request.contentsQuery graph g, []) := by
    cases graph with
    | none => exact Grammar.readQuery_selectContents hg
    | some name => exact Grammar.readQuery_constructContents (h name rfl) hg
  rw [ofText, Request.ofText_contents hcheck]
  change ofTokens _ = _
  rw [ofTokens, hprologue]
  change (Grammar.readQuery {} (Request.contentsTokens graph) >>= _) = _
  rw [hquery]
  rfl

end DualStore
