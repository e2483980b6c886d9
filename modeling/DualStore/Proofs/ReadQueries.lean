import DualStore.Grammar.Query
import DualStore.Proofs.ReadNodes

/-! Queries that can be read. Their form is the one that is told from the first keyword alone
(`QueryForm.detect_of_ofText`), and they look for no blank nodes (`Query.ofText_nodes`). What the
solutions of a pattern have from its nodes is shown triple by triple (`Source.Ties.solutions`). -/

namespace DualStore

variable {ts rest : List Token} {text : String} {q : Query}

namespace Token

/-- The text is cut token by token. -/
theorem scan_eq_ok {total : Nat} {cs : List Char} : scan total cs = .ok ts ↔
    (next? total cs = .ok none ∧ ts = []) ∨
    ∃ r more, next? total cs = .ok (some r) ∧ scan total r.rest = .ok more ∧
      ts = r.value :: more := by
  rw [scan]
  split
  next fault h =>
    rw [h]
    constructor
    · intro h
      cases h
    · rintro (⟨h, -⟩ | ⟨r, more, h, -⟩) <;> cases h
  next h =>
    rw [h, Except.ok.injEq, eq_comm]
    constructor
    · intro hts
      exact .inl ⟨rfl, hts⟩
    · rintro (⟨-, hts⟩ | ⟨r, more, h, -⟩)
      · exact hts
      · cases h
  next r h =>
    rw [h, map_eq_ok]
    constructor
    · rintro ⟨more, hmore, rfl⟩
      exact .inr ⟨r, more, rfl, hmore, rfl⟩
    · rintro (⟨h, -⟩ | ⟨r', more, h, hmore, rfl⟩)
      · cases h
      · cases h
        exact ⟨more, hmore, rfl⟩

end Token

namespace QueryForm

/-- The form that the first of the tokens that names one names. -/
def ofTokens? (ts : List Token) : Option QueryForm := ts.findSome? ofToken?

theorem ofTokens?_cons_of_none {t : Token} (h : ofToken? t = none) :
    ofTokens? (t :: ts) = ofTokens? ts := List.findSome?_cons_of_isNone (by rw [h]; rfl)

theorem ofTokens?_cons_of_some {t : Token} {form : QueryForm} (h : ofToken? t = some form) :
    ofTokens? (t :: ts) = some form := by
  rw [ofTokens?, List.findSome?_cons, h]

private theorem detectIn_of_scan {total : Nat} {cs : List Char} {form : QueryForm}
    (h : Token.scan total cs = .ok ts) (hform : ofTokens? ts = some form) :
    detectIn total cs = .ok form := by
  induction ts generalizing cs with
  | nil => cases hform
  | cons t ts ih =>
    obtain ⟨-, hnil⟩ | ⟨r, more, hnext, hmore, heq⟩ := Token.scan_eq_ok.mp h
    · cases hnil
    obtain ⟨rfl, rfl⟩ := List.cons.inj heq
    rw [detectIn, hnext]
    cases ht : ofToken? r.value with
    | some form' =>
      rw [ofTokens?_cons_of_some ht] at hform
      simp only [ht, Option.some.inj hform]
    | none =>
      rw [ofTokens?_cons_of_none ht] at hform
      simp only [ht, ih hmore hform]

end QueryForm

namespace Grammar

variable {s s' : Scope}

theorem keyword?_eq_some {keyword : String} {k : Read Unit ts} (h : keyword? keyword ts = some k) :
    ∃ t, ts = t :: k.rest ∧ t.isKeyword keyword = true := by
  cases ts with
  | nil => cases h
  | cons t ts =>
    rw [keyword?, Option.ite_none_right_eq_some] at h
    obtain ⟨ht, h⟩ := h
    cases h
    exact ⟨t, rfl, ht⟩

private theorem ofToken?_of_isKeyword {t : Token} {keyword : String}
    (h : t.isKeyword keyword = true) : QueryForm.ofToken? t =
      if keyword = "SELECT" then some .select
      else if keyword = "CONSTRUCT" then some .construct
      else if keyword = "ASK" then some .ask
      else if keyword = "DESCRIBE" then some .describe
      else none := by
  cases t with
  | word text =>
    obtain rfl := beq_iff_eq.mp h
    simp only [QueryForm.ofToken?, Token.isKeyword, beq_iff_eq]
  | _ => cases h

private theorem ofTokens?_keyword {keyword : String} {k : Read Unit ts}
    (h : keyword? keyword ts = some k) (hk : keyword = "PREFIX" ∨ keyword = "BASE") :
    QueryForm.ofTokens? ts = QueryForm.ofTokens? k.rest := by
  obtain ⟨t, hts, ht⟩ := keyword?_eq_some h
  have hnone : QueryForm.ofToken? t = none := by
    rw [ofToken?_of_isKeyword ht]
    rcases hk with rfl | rfl <;> decide
  exact (congrArg QueryForm.ofTokens? hts).trans (QueryForm.ofTokens?_cons_of_none hnone)

private theorem ofTokens?_readPrefix {d : Read Scope ts} (h : readPrefix s ts = .ok d) :
    QueryForm.ofTokens? ts = QueryForm.ofTokens? d.rest := by
  unfold readPrefix at h
  split at h
  · split at h
    · cases h
    split at h
    · cases h
      rfl
    · cases h
  · cases h

private theorem ofTokens?_readBase {d : Read Scope ts} (h : readBase s ts = .ok d) :
    QueryForm.ofTokens? ts = QueryForm.ofTokens? d.rest := by
  unfold readBase at h
  split at h
  · cases h
    rfl
  · cases h

/-- No declaration names a form. -/
theorem ofTokens?_readPrologue {r : Rest ts} (h : readPrologue s ts = .ok (s', r)) :
    QueryForm.ofTokens? ts = QueryForm.ofTokens? r.1 := by
  induction s, ts using readPrologue.induct generalizing s' with
  | case1 s ts k hk ih =>
    rw [readPrologue, hk] at h
    obtain ⟨d, hd, h⟩ := bind_eq_ok.mp h
    obtain ⟨⟨s₁, rest⟩, hmore, h⟩ := bind_eq_ok.mp h
    cases h
    rw [ofTokens?_keyword hk (.inl rfl), ofTokens?_readPrefix hd, ih _ _ hmore]
  | case2 s ts hprefix k hk ih =>
    rw [readPrologue, hprefix, hk] at h
    obtain ⟨d, hd, h⟩ := bind_eq_ok.mp h
    obtain ⟨⟨s₁, rest⟩, hmore, h⟩ := bind_eq_ok.mp h
    cases h
    rw [ofTokens?_keyword hk (.inr rfl), ofTokens?_readBase hd, ih _ _ hmore]
  | case3 s ts hprefix hbase =>
    rw [readPrologue, hprefix, hbase] at h
    cases h
    rfl

private theorem ofTokens?_of_keyword {keyword : String} {k : Read Unit ts} {form : QueryForm}
    (h : keyword? keyword ts = some k) (hform : (if keyword = "SELECT" then some .select
      else if keyword = "CONSTRUCT" then some .construct
      else if keyword = "ASK" then some .ask
      else if keyword = "DESCRIBE" then some .describe
      else none) = some form) : QueryForm.ofTokens? ts = some form := by
  obtain ⟨t, hts, ht⟩ := keyword?_eq_some h
  refine (congrArg QueryForm.ofTokens? hts).trans ?_
  exact QueryForm.ofTokens?_cons_of_some ((ofToken?_of_isKeyword ht).trans hform)

/-- A group that was read. -/
def IsRead (s : Scope) (g : Group) : Prop := ∃ ts r, readGroup s ts = .ok r ∧ r.value = g

private theorem isRead_of_readWhere {g : Group} (h : readWhere s ts = .ok (g, rest)) :
    IsRead s g := by
  obtain ⟨-, h⟩ := check_bind_eq_ok.mp h
  obtain ⟨r, hr, h⟩ := bind_eq_ok.mp h
  cases h
  exact ⟨_, r, hr, rfl⟩

theorem readSelect_eq_ok (h : readSelect s ts = .ok (q, rest)) :
    ∃ distinct projection pattern limit offset,
      q = .select distinct projection pattern limit offset ∧ IsRead s pattern := by
  obtain ⟨⟨projection, rest₁⟩, -, h⟩ := bind_eq_ok.mp h
  obtain ⟨⟨pattern, rest₂⟩, hpattern, h⟩ := bind_eq_ok.mp h
  obtain ⟨⟨limit, offset, rest₃⟩, -, h⟩ := bind_eq_ok.mp h
  cases h
  exact ⟨_, _, _, _, _, rfl, isRead_of_readWhere hpattern⟩

theorem readConstruct_eq_ok (h : readConstruct s ts = .ok (q, rest)) :
    ∃ template pattern limit, q = .construct template pattern limit ∧ IsRead s pattern := by
  -- what follows the pattern is read in the same way with and without the keyword
  have hmodifiers : ∀ {template : List TriplePattern} {pattern : Group} {ts : List Token},
      IsRead s pattern → (readModifiers none 0 ts >>= fun m =>
        if 0 < m.2.1 then throw (SyntaxFault.unsupported "OFFSET in CONSTRUCT")
        else pure (Query.construct template pattern m.1, m.2.2)) = .ok (q, rest) →
      ∃ template pattern limit, q = .construct template pattern limit ∧ IsRead s pattern := by
    intro template pattern ts hpattern h
    obtain ⟨⟨limit, offset, rest₁⟩, -, h⟩ := bind_eq_ok.mp h
    dsimp only at h
    split at h
    · cases h
    · cases h
      exact ⟨_, _, _, rfl, hpattern⟩
  unfold readConstruct at h
  dsimp only at h
  split at h
  · obtain ⟨⟨template, rest₁⟩, -, h⟩ := bind_eq_ok.mp h
    obtain ⟨r, hr, h⟩ := bind_eq_ok.mp h
    exact hmodifiers ⟨_, r, hr, rfl⟩ h
  · obtain ⟨⟨template, rest₁⟩, -, h⟩ := bind_eq_ok.mp h
    obtain ⟨⟨pattern, rest₂⟩, hpattern, h⟩ := bind_eq_ok.mp h
    exact hmodifiers (isRead_of_readWhere hpattern) h

theorem readDescribe_eq_ok (h : readDescribe s ts = .ok (q, rest)) :
    ∃ resources pattern, q = .describe resources pattern ∧
      (∃ ts rest, readResources s ts = .ok (resources, rest)) ∧ ∀ g ∈ pattern, IsRead s g := by
  unfold readDescribe at h
  dsimp only at h
  split at h
  · cases h
  obtain ⟨⟨resources, rest₁⟩, hresources, h⟩ := bind_eq_ok.mp h
  dsimp only at h
  split at h
  · cases h
  obtain ⟨-, h⟩ := check_bind_eq_ok.mp h
  split at h
  · obtain ⟨r, hr, h⟩ := bind_eq_ok.mp h
    obtain ⟨p, hp, h⟩ := bind_eq_ok.mp h
    obtain ⟨m, -, h⟩ := bind_eq_ok.mp h
    cases hp
    cases h
    exact ⟨_, _, rfl, ⟨_, _, hresources⟩, fun g hg => ⟨_, r, hr, Option.some.inj hg⟩⟩
  · obtain ⟨p, hp, h⟩ := bind_eq_ok.mp h
    obtain ⟨m, -, h⟩ := bind_eq_ok.mp h
    cases hp
    cases h
    exact ⟨_, _, rfl, ⟨_, _, hresources⟩, nofun⟩

theorem ofTokens?_readQuery (h : readQuery s ts = .ok (q, rest)) :
    QueryForm.ofTokens? ts = some q.form := by
  unfold readQuery at h
  split at h
  next k hk =>
    obtain ⟨_, _, _, _, _, rfl, -⟩ := readSelect_eq_ok h
    exact ofTokens?_of_keyword hk rfl
  next =>
  split at h
  next k hk =>
    obtain ⟨_, _, _, rfl, -⟩ := readConstruct_eq_ok h
    exact ofTokens?_of_keyword hk rfl
  next =>
  split at h
  next k hk =>
    obtain ⟨⟨pattern, rest₁⟩, -, h⟩ := map_eq_ok.mp h
    cases h
    exact ofTokens?_of_keyword hk rfl
  next =>
  split at h
  next k hk =>
    obtain ⟨_, _, rfl, -⟩ := readDescribe_eq_ok h
    exact ofTokens?_of_keyword hk rfl
  next => cases h

end Grammar

/-- The form of a query that can be read is told from its text. -/
theorem QueryForm.detect_of_ofText (h : Query.ofText text = .ok q) : detect text = .ok q.form := by
  obtain ⟨ts, hts, h⟩ := bind_eq_ok.mp h
  obtain ⟨⟨s, prologue⟩, hprologue, h⟩ := bind_eq_ok.mp h
  obtain ⟨⟨q', rest⟩, hquery, h⟩ := bind_eq_ok.mp h
  obtain ⟨-, hq⟩ := check_bind_eq_ok.mp h
  cases hq
  refine detectIn_of_scan (mapError_eq_ok.mp hts) ?_
  rw [Grammar.ofTokens?_readPrologue hprologue, Grammar.ofTokens?_readQuery hquery]

/-! ## Nodes -/

mutual

/-- The nodes of an element, names of graphs among them. -/
def Element.nodes : Element → List Node
  | .triple t => t.nodes
  | .graph name inner => name :: groupNodes inner
  | .union alternatives => unionNodes alternatives
  | .group inner => groupNodes inner

@[inherit_doc Element.nodes]
def groupNodes : List Element → List Node
  | [] => []
  | e :: es => e.nodes ++ groupNodes es

@[inherit_doc Element.nodes]
def unionNodes : List (List Element) → List Node
  | [] => []
  | g :: gs => groupNodes g ++ unionNodes gs

end

/-- `R` ties solutions over one source to solutions over another, and it is kept by every triple
pattern whose nodes have the property `P`. -/
structure Source.Ties (src src' : Source) (P : Node → Prop)
    (R : List Solution → List Solution → Prop) : Prop where
  nil : R [] []
  append {sols₁ sols₂ sols₁' sols₂' : List Solution} :
    R sols₁ sols₁' → R sols₂ sols₂' → R (sols₁ ++ sols₂) (sols₁' ++ sols₂')
  triple {active : Option Node} {t : TriplePattern} {sols sols' : List Solution} :
    (∀ n ∈ active, P n) → (∀ n ∈ t.nodes, P n) → R sols sols' →
      R (sols.flatMap (t.extend src active)) (sols'.flatMap (t.extend src' active))

namespace Source.Ties

variable {src src' : Source} {P : Node → Prop} {R : List Solution → List Solution → Prop}

mutual

theorem element (h : src.Ties src' P R) {active : Option Node} (ha : ∀ n ∈ active, P n)
    {sols sols' : List Solution} (hsols : R sols sols') :
    (e : Element) → (∀ n ∈ e.nodes, P n) → R (e.extend src active sols) (e.extend src' active sols')
  | .triple _, he => h.triple ha he hsols
  | .graph _ inner, he =>
    have ⟨hname, hinner⟩ := List.forall_mem_cons.mp he
    h.group (fun _ hn => Option.some.inj hn ▸ hname) hsols inner hinner
  | .union alternatives, he => h.union ha hsols alternatives he
  | .group inner, he => h.group ha hsols inner he

theorem group (h : src.Ties src' P R) {active : Option Node} (ha : ∀ n ∈ active, P n)
    {sols sols' : List Solution} (hsols : R sols sols') :
    (g : List Element) → (∀ n ∈ groupNodes g, P n) →
      R (extendGroup src active sols g) (extendGroup src' active sols' g)
  | [], _ => hsols
  | e :: es, hg =>
    have ⟨he, hes⟩ := List.forall_mem_append.mp hg
    h.group ha (h.element ha hsols e he) es hes

theorem union (h : src.Ties src' P R) {active : Option Node} (ha : ∀ n ∈ active, P n)
    {sols sols' : List Solution} (hsols : R sols sols') :
    (gs : List (List Element)) → (∀ n ∈ unionNodes gs, P n) →
      R (extendUnion src active sols gs) (extendUnion src' active sols' gs)
  | [], _ => h.nil
  | g :: gs, hgs =>
    have ⟨hg, hgs⟩ := List.forall_mem_append.mp hgs
    h.append (h.group ha hsols g hg) (h.union ha hsols gs hgs)

end

/-- What every triple pattern keeps, a group keeps from the empty solution on. -/
theorem solutions (h : src.Ties src' P R) (hempty : R [∅] [∅]) {g : Group}
    (hg : ∀ n ∈ groupNodes g, P n) : R (g.solutions src) (g.solutions src') :=
  h.group (by exact nofun) hempty g hg

end Source.Ties

/-- The nodes that a query looks for: those of its pattern and the resources that it describes. -/
def Query.nodes : Query → List Node
  | select _ _ pattern _ _ | construct _ pattern _ | ask pattern => groupNodes pattern
  | describe resources pattern => resources ++ (pattern.toList.flatMap groupNodes)

namespace Grammar

variable {s : Scope} {P : Node → Prop}

private theorem groupNodes_triples (triples : List TriplePattern) (g : Group) :
    groupNodes (triples.map .triple ++ g) =
      triples.flatMap TriplePattern.nodes ++ groupNodes g := by
  induction triples with
  | nil => rfl
  | cons t triples ih =>
    rw [List.map_cons, List.cons_append, groupNodes, ih, Element.nodes, List.flatMap_cons,
      List.append_assoc]

section

variable (hP : ∀ {position ts} {r : Read Node ts}, readNode s .pattern position ts = .ok r →
  P r.value)
include hP

private theorem readGroupBody_nodes_all :
    (∀ ts, ∀ r : Read Group ts, readGroupBody s ts = .ok r → ∀ n ∈ groupNodes r.value, P n) ∧
      ∀ ts, ∀ r : Read (List Group) ts, readAlternatives s ts = .ok r →
        ∀ n ∈ unionNodes r.value, P n := by
  have hand : ∀ {l l' : List Node}, (∀ n ∈ l, P n) → (∀ n ∈ l', P n) → ∀ n ∈ l ++ l', P n :=
    fun h h' n hn => (List.mem_append.mp hn).elim (h n) (h' n)
  apply readGroupBody.mutual_induct
  case case1 =>
    intro ts close hclose r h
    rw [readGroupBody, hclose] at h
    cases h
    exact List.forall_mem_nil _
  case case2 =>
    intro ts hclose point hpoint hlt ih r h
    rw [readGroupBody, hclose, hpoint] at h
    obtain ⟨more, hmore, rfl⟩ := map_eq_ok.mp h
    exact ih more hmore
  case case3 =>
    intro ts hclose hpoint opening hopening hlt ihfirst ihmore ihothers ihlast r h
    rw [readGroupBody, hclose, hpoint, hopening] at h
    obtain ⟨first, hfirst, h⟩ := bind_eq_ok.mp h
    split at h
    · obtain ⟨more, hmore, h⟩ := bind_eq_ok.mp h
      cases h
      exact hand (ihfirst first hfirst) (ihmore first more hmore)
    · next k hk =>
      obtain ⟨others, hothers, h⟩ := bind_eq_ok.mp h
      obtain ⟨more, hmore, h⟩ := bind_eq_ok.mp h
      cases h
      exact hand (hand (ihfirst first hfirst) (ihothers first k others hothers))
        (ihlast first k others more hmore)
  case case4 =>
    intro ts hclose hpoint hopening k hk ihinner ihmore r h
    rw [readGroupBody, hclose, hpoint, hopening, hk] at h
    obtain ⟨graph, hgraph, h⟩ := bind_eq_ok.mp h
    obtain ⟨opening, -, h⟩ := bind_eq_ok.mp h
    obtain ⟨inner, hinner, h⟩ := bind_eq_ok.mp h
    obtain ⟨more, hmore, h⟩ := bind_eq_ok.mp h
    cases h
    exact hand (List.forall_mem_cons.mpr ⟨hP hgraph, ihinner graph opening inner hinner⟩)
      (ihmore graph opening inner more hmore)
  case case5 =>
    intro ts hclose hpoint hopening hk feature hfeature r h
    rw [readGroupBody, hclose, hpoint, hopening, hk, hfeature] at h
    cases h
  case case6 =>
    intro ts hclose hpoint hopening hk hfeature ih r h
    rw [readGroupBody, hclose, hpoint, hopening, hk, hfeature] at h
    obtain ⟨triples, htriples, h⟩ := bind_eq_ok.mp h
    obtain ⟨rest, -, h⟩ := bind_eq_ok.mp h
    obtain ⟨more, hmore, h⟩ := bind_eq_ok.mp h
    cases h
    change ∀ n ∈ groupNodes (triples.value.map .triple ++ more.value), P n
    rw [groupNodes_triples]
    refine hand (fun n hn => ?_) (ih triples rest more hmore)
    obtain ⟨t, ht, hn⟩ := List.mem_flatMap.mp hn
    exact readSubject_nodes hP htriples t ht n hn
  case case7 =>
    intro ts ihfirst ihothers r h
    rw [readAlternatives] at h
    obtain ⟨opening, -, h⟩ := bind_eq_ok.mp h
    obtain ⟨first, hfirst, h⟩ := bind_eq_ok.mp h
    split at h
    · cases h
      exact hand (ihfirst opening first hfirst) (List.forall_mem_nil _)
    · next k hk =>
      obtain ⟨others, hothers, h⟩ := bind_eq_ok.mp h
      cases h
      exact hand (ihfirst opening first hfirst) (ihothers opening first k others hothers)

theorem IsRead.nodes {g : Group} (h : IsRead s g) : ∀ n ∈ groupNodes g, P n := by
  obtain ⟨ts, r, hr, rfl⟩ := h
  obtain ⟨opening, -, hr⟩ := bind_eq_ok.mp hr
  obtain ⟨body, hbody, hr⟩ := bind_eq_ok.mp hr
  cases hr
  exact (readGroupBody_nodes_all hP).1 _ body hbody

theorem readResources_nodes {resources : List Node}
    (h : readResources s ts = .ok (resources, rest)) : ∀ n ∈ resources, P n := by
  induction ts using readResources.induct generalizing resources rest with
  | case1 ts hts ih =>
    rw [readResources, if_pos hts] at h
    obtain ⟨resource, hresource, h⟩ := bind_eq_ok.mp h
    obtain ⟨⟨more, rest₁⟩, hmore, h⟩ := bind_eq_ok.mp h
    cases h
    exact List.forall_mem_cons.mpr ⟨hP hresource, ih resource hmore⟩
  | case2 ts hts =>
    rw [readResources, if_neg hts] at h
    cases h
    exact List.forall_mem_nil _

theorem readQuery_nodes (h : readQuery s ts = .ok (q, rest)) : ∀ n ∈ q.nodes, P n := by
  unfold readQuery at h
  split at h
  · obtain ⟨_, _, pattern, _, _, rfl, hpattern⟩ := readSelect_eq_ok h
    exact hpattern.nodes hP
  split at h
  · obtain ⟨_, pattern, _, rfl, hpattern⟩ := readConstruct_eq_ok h
    exact hpattern.nodes hP
  split at h
  · obtain ⟨⟨pattern, rest₁⟩, hpattern, h⟩ := map_eq_ok.mp h
    cases h
    exact (isRead_of_readWhere hpattern).nodes hP
  split at h
  · obtain ⟨resources, pattern, rfl, ⟨ts', rest', hresources⟩, hpattern⟩ := readDescribe_eq_ok h
    intro n hn
    rcases List.mem_append.mp hn with hn | hn
    · exact readResources_nodes hP hresources n hn
    · obtain ⟨g, hg, hn⟩ := List.mem_flatMap.mp hn
      exact (hpattern g (Option.mem_toList.mp hg)).nodes hP n hn
  · cases h

end

end Grammar

/-- A query that was read looks for no blank nodes: in patterns they are variables. -/
theorem Query.ofText_nodes (h : ofText text = .ok q) : ∀ n ∈ q.nodes, n.label? = none := by
  obtain ⟨ts, -, h⟩ := bind_eq_ok.mp h
  obtain ⟨⟨s, prologue⟩, -, h⟩ := bind_eq_ok.mp h
  obtain ⟨⟨q', rest⟩, hquery, h⟩ := bind_eq_ok.mp h
  obtain ⟨-, hq⟩ := check_bind_eq_ok.mp h
  cases hq
  exact Grammar.readQuery_nodes (Grammar.readNode_label? (.inl rfl)) hquery

end DualStore
