import DualStore.Proofs.Choices
import DualStore.Proofs.TokenRuns

/-! Blocks of triples that are put into the default graph by its name. In templates and in data the
name makes no difference (`Grammar.OperationNamed.reads`). In a pattern it does: a `GRAPH` ranges
over the named graphs only, so the alternative that the block stands in has no solutions any more
(`Group.NamedAt.solutions_perm`). -/

namespace DualStore

open List (Perm)

namespace Grammar

variable {α β : Type} {s : Scope} {place : Place} {position : Position}
  {ts ts' block rest rest' : List Token} {triples : List TriplePattern}
  {templates : List QuadTemplate}

/-- A block as that of the default graph, by its name. -/
def named (block : List Token) : List Token :=
  .word "GRAPH" :: .iri Vocabulary.defaultGraph :: .punct '\x7b' :: (block ++ [.punct '\x7d'])

theorem named_append (block rest : List Token) : named block ++ rest =
    .word "GRAPH" :: .iri Vocabulary.defaultGraph :: .punct '\x7b' ::
      (block ++ .punct '\x7d' :: rest) := by
  simp [named]

/-- The name has a scheme, so no declaration changes what it means. -/
theorem resolve_defaultGraph (s : Scope) :
    s.resolve Vocabulary.defaultGraph = Vocabulary.defaultGraph := by
  rw [Scope.resolve]
  split
  · rw [Reference.resolve, if_pos (by decide), String.ofList_toList]
  · rfl

theorem reads_defaultGraph (s : Scope) (place : Place) (position : Position)
    (rest : List Token) :
    Reads (readNode s place position (.iri Vocabulary.defaultGraph :: rest)) (.term .defaultGraph)
      rest := by
  have hcheck : Scope.ofIri Vocabulary.defaultGraph = .ok .defaultGraph := by decide
  change Reads ((nodeOfToken s place position (.iri Vocabulary.defaultGraph)).map _) _ _
  rw [nodeOfToken, resolve_defaultGraph, hcheck]
  exact ⟨_, rfl⟩

/-- The same triples with a closing brace behind them. -/
theorem TriplesTo.close (h : TriplesTo s place (block ++ rest) triples rest) :
    TriplesTo s place (block ++ .punct '\x7d' :: rest) triples (.punct '\x7d' :: rest) := by
  obtain ⟨front, hfront, hlocal⟩ := h.local
  obtain rfl := List.append_cancel_right hfront
  exact hlocal _ fun _ => .inr rfl

/-! ## Templates and data -/

theorem TriplesTo.templateTo (h : TriplesTo s place ts triples rest) :
    TemplateTo s place ts (triples.map (⟨·, none⟩)) rest := by
  induction h with
  | done ts => exact .done ts
  | point h ih => exact .point ih
  | subject hsubject hend h ih =>
    rw [List.map_append]
    exact .subject hsubject hend ih

/-- The name of the default graph is that of no graph in a template. -/
theorem TriplesTo.templateTo_named (h : TriplesTo s place (block ++ rest) triples rest) :
    TemplateTo s place (named block ++ rest) (triples.map (⟨·, none⟩)) rest := by
  have hread : Reads (readTriples s place (block ++ .punct '\x7d' :: rest)) triples rest := by
    rw [readsBlocks_readTriples.run h.close]
    exact ⟨[], reads_readTriples_close .., by simp⟩
  have hname := reads_defaultGraph s place .graph
    (.punct '\x7b' :: (block ++ .punct '\x7d' :: rest))
  have hword : (Token.word "GRAPH").isKeyword "GRAPH" = true := by decide
  have hrun := TemplateTo.graph hword hname hread (.done rest)
  rw [List.append_nil, ← named_append] at hrun
  exact hrun

/-- A template, or data, from its opening brace on, before and after a block of triples in it is
given the name of the default graph. -/
inductive TemplateNamed (s : Scope) (place : Place) : List Token → List Token → Prop
  | intro {front block rest : List Token} {templates : List QuadTemplate}
    {triples : List TriplePattern} (hne : triples ≠ [])
    (hfront : TemplateTo s place (front ++ (block ++ rest)) templates (block ++ rest))
    (hblock : TriplesTo s place (block ++ rest) triples rest) :
    TemplateNamed s place (front ++ (block ++ rest)) (front ++ (named block ++ rest))

/-- Triples do not start with what ends the triples before them. -/
theorem TriplesTo.not_stops (h : TriplesTo s place ts triples rest) (hne : triples ≠ []) :
    ¬Stops ts := by
  cases h with
  | done => exact absurd rfl hne
  | point h => rintro (h | h) <;> cases h
  | subject hsubject hend h =>
    have hstarts := startsTerm_of_readSubject hsubject
    rintro (h | h)
    · rw [hstarts.startsWithPunct] at h
      cases h
    · rw [hstarts.startsWithKeyword] at h
      cases h

theorem TemplateNamed.reads (h : TemplateNamed s place ts ts') :
    Reads (readTemplateBody s place ts') templates rest ↔
      Reads (readTemplateBody s place ts) templates rest := by
  cases h with
  | @intro front block rest₁ _ triples hne hfront hblock =>
    obtain ⟨front', heq, hlocal⟩ := hfront.local
    obtain rfl := List.append_cancel_right heq
    have hfront' := hlocal (named block ++ rest₁) fun hstops =>
      absurd hstops (hblock.not_stops hne)
    rw [hfront.reads, hfront'.reads]
    simp only [hblock.templateTo.reads, hblock.templateTo_named.reads]

/-! ## Operations -/

/-- What is read in two steps, where the second one goes by what the first one gave. -/
private theorem reads_bind {b : β} {x : Except SyntaxFault (Read α ts)}
    {f : Read α ts → Except SyntaxFault (Read β ts')} {P : α → List Token → Prop}
    (hf : ∀ r, Reads (f r) b rest ↔ P r.value r.rest) :
    Reads (x >>= f) b rest ↔ ∃ a rest₁, Reads x a rest₁ ∧ P a rest₁ := by
  cases x with
  | error fault =>
    refine iff_of_false ?_ ?_
    · rintro ⟨_, h⟩
      cases h
    · rintro ⟨a, rest₁, ⟨_, h⟩, -⟩
      cases h
  | ok r =>
    refine (hf r).trans ⟨fun h => ⟨_, _, ⟨r.shorter, rfl⟩, h⟩, ?_⟩
    rintro ⟨a, rest₁, ⟨_, h⟩, hP⟩
    cases h
    exact hP

/-- There is one way to read. -/
private theorem reads_once {a : α} {x : Except SyntaxFault (Read α ts)} {P : α → List Token → Prop}
    (h : Reads x a rest) : (∃ a rest, Reads x a rest ∧ P a rest) ↔ P a rest := by
  refine ⟨?_, fun hP => ⟨a, rest, h, hP⟩⟩
  rintro ⟨a', rest', ⟨hlt', h'⟩, hP⟩
  obtain ⟨hlt, h⟩ := h
  cases h.symm.trans h'
  exact hP

theorem reads_readTemplate_iff :
    Reads (readTemplate s place (.punct '\x7b' :: ts)) templates rest ↔
      Reads (readTemplateBody s place ts) templates rest := by
  rw [readTemplate, punct_self]
  exact reads_map_id fun r => ⟨rfl, rfl⟩

theorem reads_readData_iff {quads : List Quad} : Reads (readData s place ts) quads rest ↔
    ∃ templates, Reads (readTemplate s place ts) templates rest ∧
      templates.mapM groundQuad = .ok quads := by
  rw [readData, reads_bind (P := fun templates rest₁ =>
    templates.mapM groundQuad = .ok quads ∧ rest₁ = rest)]
  · constructor
    · rintro ⟨templates, _, hread, hquads, rfl⟩
      exact ⟨templates, hread, hquads⟩
    · rintro ⟨templates, hread, hquads⟩
      exact ⟨templates, rest, hread, hquads, rfl⟩
  · intro r
    simp only [reads_iff, bind_eq_ok, pure_eq_ok]
    constructor
    · rintro ⟨_, ⟨quads, hquads, rfl⟩, rfl, rfl⟩
      exact ⟨hquads, rfl⟩
    · rintro ⟨hquads, rfl⟩
      exact ⟨_, ⟨quads, hquads, rfl⟩, rfl, rfl⟩

section

variable {u : Update} {word : String} {t : Token} {insert delete : List QuadTemplate}

private theorem reads_insert (h : Token.upperCase word = "INSERT") :
    Reads (readOperation s (.word word :: ts)) u rest ↔ Reads (readInsert s ts) u rest := by
  refine (reads_map_id (g := Read.behind _) fun r => ⟨rfl, rfl⟩).trans ?_
  rw [readOperationAfter, h]
  exact .rfl

private theorem reads_delete (h : Token.upperCase word = "DELETE") :
    Reads (readOperation s (.word word :: ts)) u rest ↔ Reads (readDelete s ts) u rest := by
  refine (reads_map_id (g := Read.behind _) fun r => ⟨rfl, rfl⟩).trans ?_
  rw [readOperationAfter, h]
  exact .rfl

private theorem reads_readInsert_data (ht : t.isKeyword "DATA" = true) :
    Reads (readInsert s (t :: ts)) u rest ↔
      ∃ quads, Reads (readData s .insertData ts) quads rest ∧ u = .insertData quads := by
  rw [readInsert, keyword?_self ht]
  exact reads_map fun r => ⟨rfl, rfl⟩

private theorem reads_readInsert : Reads (readInsert s (.punct '\x7b' :: ts)) u rest ↔
    ∃ insert rest₁, Reads (readTemplate s .insertTemplate (.punct '\x7b' :: ts)) insert rest₁ ∧
      Reads (readModify s [] insert rest₁) u rest := by
  have hdata : keyword? "DATA" (.punct '\x7b' :: ts) = none := rfl
  rw [readInsert, hdata]
  exact reads_bind fun r => reads_map_id fun r => ⟨rfl, rfl⟩

private theorem reads_readDelete_data (ht : t.isKeyword "DATA" = true) :
    Reads (readDelete s (t :: ts)) u rest ↔
      ∃ quads, Reads (readData s .deleteData ts) quads rest ∧ u = .deleteData quads := by
  rw [readDelete, keyword?_self ht]
  exact reads_map fun r => ⟨rfl, rfl⟩

private theorem reads_readDelete_where (hd : t.isKeyword "DATA" = false)
    (ht : t.isKeyword "WHERE" = true) : Reads (readDelete s (t :: ts)) u rest ↔
      ∃ templates, Reads (readTemplate s .deleteTemplate ts) templates rest ∧
        u = .deleteWhere templates := by
  have hdata : keyword? "DATA" (t :: ts) = none := by
    rw [keyword?, hd]
    rfl
  rw [readDelete, hdata, keyword?_self ht]
  exact reads_map fun r => ⟨rfl, rfl⟩

/-- What may stand behind the template of a deletion: an insertion as well, or the pattern. -/
private def ReadsAfterDelete (s : Scope) (delete : List QuadTemplate) (ts : List Token) (u : Update)
    (rest : List Token) : Prop :=
  match keyword? "INSERT" ts with
  | some k => ∃ insert rest₁, Reads (readTemplate s .insertTemplate k.rest) insert rest₁ ∧
      Reads (readModify s delete insert rest₁) u rest
  | none => Reads (readModify s delete [] ts) u rest

private theorem reads_readDelete : Reads (readDelete s (.punct '\x7b' :: ts)) u rest ↔
    ∃ delete rest₁, Reads (readTemplate s .deleteTemplate (.punct '\x7b' :: ts)) delete rest₁ ∧
      ReadsAfterDelete s delete rest₁ u rest := by
  have hdata : keyword? "DATA" (.punct '\x7b' :: ts) = none := rfl
  have hwhere : keyword? "WHERE" (.punct '\x7b' :: ts) = none := rfl
  rw [readDelete, hdata, hwhere]
  refine reads_bind fun r => ?_
  rw [ReadsAfterDelete]
  cases keyword? "INSERT" r.rest with
  | some k => exact reads_bind fun r => reads_map_id fun r => ⟨rfl, rfl⟩
  | none => exact reads_map_id fun r => ⟨rfl, rfl⟩

end

/-- An operation before and after a block of triples in its data or in one of its templates is given
the name of the default graph. -/
inductive OperationNamed (s : Scope) : List Token → List Token → Prop
  | insertData {word : String} {data : Token} {ts ts' : List Token}
    (hword : Token.upperCase word = "INSERT") (hdata : data.isKeyword "DATA" = true)
    (h : TemplateNamed s .insertData ts ts') : OperationNamed s
      (.word word :: data :: .punct '\x7b' :: ts) (.word word :: data :: .punct '\x7b' :: ts')
  | deleteData {word : String} {data : Token} {ts ts' : List Token}
    (hword : Token.upperCase word = "DELETE") (hdata : data.isKeyword "DATA" = true)
    (h : TemplateNamed s .deleteData ts ts') : OperationNamed s
      (.word word :: data :: .punct '\x7b' :: ts) (.word word :: data :: .punct '\x7b' :: ts')
  | deleteWhere {word : String} {t : Token} {ts ts' : List Token}
    (hword : Token.upperCase word = "DELETE") (hdata : t.isKeyword "DATA" = false)
    (hwhere : t.isKeyword "WHERE" = true) (h : TemplateNamed s .deleteTemplate ts ts') :
    OperationNamed s (.word word :: t :: .punct '\x7b' :: ts)
      (.word word :: t :: .punct '\x7b' :: ts')
  | insert {word : String} {ts ts' : List Token} (hword : Token.upperCase word = "INSERT")
    (h : TemplateNamed s .insertTemplate ts ts') : OperationNamed s
      (.word word :: .punct '\x7b' :: ts) (.word word :: .punct '\x7b' :: ts')
  | delete {word : String} {ts ts' : List Token} (hword : Token.upperCase word = "DELETE")
    (h : TemplateNamed s .deleteTemplate ts ts') : OperationNamed s
      (.word word :: .punct '\x7b' :: ts) (.word word :: .punct '\x7b' :: ts')
  | deleteInsert {word : String} {t : Token} {front ts ts' : List Token}
    {delete : List QuadTemplate} (hword : Token.upperCase word = "DELETE")
    (ht : t.isKeyword "INSERT" = true)
    (hdelete : Reads (readTemplateBody s .deleteTemplate (front ++ t :: .punct '\x7b' :: ts)) delete
      (t :: .punct '\x7b' :: ts)) (h : TemplateNamed s .insertTemplate ts ts') : OperationNamed s
      (.word word :: .punct '\x7b' :: (front ++ t :: .punct '\x7b' :: ts))
      (.word word :: .punct '\x7b' :: (front ++ t :: .punct '\x7b' :: ts'))

/-- It is read as the same operation. -/
theorem OperationNamed.reads {u : Update} (h : OperationNamed s ts ts') :
    Reads (readOperation s ts') u rest ↔ Reads (readOperation s ts) u rest := by
  cases h with
  | insertData hword hdata h =>
    simp only [reads_insert hword, reads_readInsert_data hdata, reads_readData_iff,
      reads_readTemplate_iff, h.reads]
  | deleteData hword hdata h =>
    simp only [reads_delete hword, reads_readDelete_data hdata, reads_readData_iff,
      reads_readTemplate_iff, h.reads]
  | deleteWhere hword hdata hwhere h =>
    simp only [reads_delete hword, reads_readDelete_where hdata hwhere, reads_readTemplate_iff,
      h.reads]
  | insert hword h =>
    simp only [reads_insert hword, reads_readInsert, reads_readTemplate_iff, h.reads]
  | delete hword h =>
    simp only [reads_delete hword, reads_readDelete, reads_readTemplate_iff, h.reads]
  | @deleteInsert _ t front ts ts' delete hword ht hdelete h =>
    obtain ⟨front', heq, hlocal⟩ := readTemplateBody_local hdelete
    obtain rfl := List.append_cancel_right heq
    have hafter : ∀ {ts : List Token}, ReadsAfterDelete s delete (t :: .punct '\x7b' :: ts) u rest ↔
        ∃ insert rest₁, Reads (readTemplateBody s .insertTemplate ts) insert rest₁ ∧
          Reads (readModify s delete insert rest₁) u rest := by
      intro ts
      rw [ReadsAfterDelete, keyword?_self ht]
      simp only [reads_readTemplate_iff]
    simp only [reads_delete hword, reads_readDelete, reads_readTemplate_iff]
    rw [reads_once (hlocal _), reads_once hdelete, hafter, hafter]
    simp only [h.reads]

/-! ## Patterns -/

variable {g : Group}

/-- In a pattern, triples are read as elements of the group. -/
theorem TriplesTo.reads_group (h : TriplesTo s .pattern (block ++ rest) triples rest) :
    Reads (readGroupBody s (block ++ rest)) g rest' ↔
      ∃ more, Reads (readGroupBody s rest) more rest' ∧ g = triples.map .triple ++ more :=
  readsBlocks_readGroupBody.run h

/-- With the name they are read as one element, and the name is kept. -/
theorem TriplesTo.reads_group_named (h : TriplesTo s .pattern (block ++ rest) triples rest) :
    Reads (readGroupBody s (named block ++ rest)) g rest' ↔
      ∃ more, Reads (readGroupBody s rest) more rest' ∧
        g = .graph (.term .defaultGraph) (triples.map .triple) :: more := by
  have hinner : Reads (readGroupBody s (block ++ .punct '\x7d' :: rest)) (triples.map .triple)
      rest := by
    have hclose : Reads (readGroupBody s (.punct '\x7d' :: rest)) [] rest := by
      rw [readGroupBody, punct?_self]
      exact ⟨_, rfl⟩
    rw [readsBlocks_readGroupBody.run h.close]
    exact ⟨[], hclose, by simp⟩
  have hmark : ∀ c, punct? c (.word "GRAPH" :: .iri Vocabulary.defaultGraph :: .punct '\x7b' ::
      (block ++ .punct '\x7d' :: rest)) = none := fun c => rfl
  have hword : (Token.word "GRAPH").isKeyword "GRAPH" = true := by decide
  obtain ⟨hlt, hname⟩ := reads_defaultGraph s .pattern .graph
    (.punct '\x7b' :: (block ++ .punct '\x7d' :: rest))
  obtain ⟨hlt', hinner⟩ := hinner
  rw [named_append, readGroupBody, hmark, hmark, hmark, keyword?_self hword]
  simp only [hname, punct_self, hinner, bind, Except.bind]
  exact reads_map fun more => ⟨rfl, rfl⟩

end Grammar

/-! ## Solutions -/

section

variable {src : Source} {s : SortedSet Quad}

theorem extendGroup_append (src : Source) (active : Option Node) (sols : List Solution)
    (g g' : Group) : extendGroup src active sols (g ++ g') =
      extendGroup src active (extendGroup src active sols g) g' := by
  induction g generalizing sols with
  | nil => rfl
  | cons e g ih =>
    rw [List.cons_append, extendGroup, extendGroup, ih]

theorem extendUnion_append (src : Source) (active : Option Node) (sols : List Solution)
    (gs gs' : List Group) : extendUnion src active sols (gs ++ gs') =
      extendUnion src active sols gs ++ extendUnion src active sols gs' := by
  induction gs with
  | nil => rfl
  | cons g gs ih =>
    rw [List.cons_append, extendUnion, extendUnion, ih, List.append_assoc]

/-- Each solution is extended by itself. -/
theorem extendGroup_append_perm (h : src.Lawful s) (active : Option Node)
    (sols sols' : List Solution) (g : Group) : (extendGroup src active (sols ++ sols') g).Perm
      (extendGroup src active sols g ++ extendGroup src active sols' g) := by
  refine (extendGroup_perm_choices h active (sols ++ sols') g).trans ?_
  rw [List.flatMap_append]
  exact ((extendGroup_perm_choices h active sols g).append
    (extendGroup_perm_choices h active sols' g)).symm

theorem extendGroup_nil (h : src.Lawful s) (active : Option Node) (g : Group) :
    extendGroup src active [] g = [] :=
  (extendGroup_perm_choices h active [] g).eq_nil

/-- No quad is in a named graph with the name of the default graph. -/
theorem TriplePattern.extend_defaultGraph (src : Source) (t : TriplePattern) (sol : Solution) :
    t.extend src (some (.term .defaultGraph)) sol = [] := by
  refine List.filterMap_eq_nil_iff.mpr fun q _ => ?_
  rw [unify_some]
  split
  next => rfl
  next hnamed =>
    have hne : Term.defaultGraph ≠ q.graph := by
      intro heq
      exact hnamed (Term.isDefaultGraph_iff.mpr heq.symm)
    rw [Solution.unify, if_neg hne]
    rfl

/-- So a block in such a graph has no solutions. -/
theorem extend_named_block (h : src.Lawful s) {triples : List TriplePattern} (hne : triples ≠ [])
    (active : Option Node) (sols : List Solution) :
    Element.extend src active sols (.graph (.term .defaultGraph) (triples.map .triple)) = [] := by
  cases triples with
  | nil => exact absurd rfl hne
  | cons t triples =>
    rw [Element.extend, List.map_cons, extendGroup, Element.extend]
    have hnone : sols.flatMap (t.extend src (some (.term .defaultGraph))) = [] :=
      List.flatMap_eq_nil_iff.mpr fun sol _ => t.extend_defaultGraph src sol
    rw [hnone, extendGroup_nil h]

end

namespace Group

/-- `named` is `plain` after a block of triples in it, outside of any `GRAPH`, is given the name of
the default graph. `only` is `plain` without the alternatives to the groups that the block is
in. -/
inductive NamedAt : (only plain named : Group) → Prop
  | block (before after : Group) {triples : List TriplePattern} (hne : triples ≠ []) :
    NamedAt (before ++ (triples.map .triple ++ after)) (before ++ (triples.map .triple ++ after))
      (before ++ .graph (.term .defaultGraph) (triples.map .triple) :: after)
  | group (before after : Group) {only plain named : Group} (h : NamedAt only plain named) :
    NamedAt (before ++ .group only :: after) (before ++ .group plain :: after)
      (before ++ .group named :: after)
  | union (before after : Group) (others others' : List Group) {only plain named : Group}
    (h : NamedAt only plain named) : NamedAt (before ++ .union [only] :: after)
      (before ++ .union (others ++ plain :: others') :: after)
      (before ++ .union (others ++ named :: others') :: after)

variable {src : Source} {s : SortedSet Quad} {only plain named : Group}

private theorem NamedAt.extend_perm (h : src.Lawful s) (hnamed : NamedAt only plain named)
    (sols : List Solution) : (extendGroup src none sols plain).Perm
      (extendGroup src none sols named ++ extendGroup src none sols only) := by
  induction hnamed generalizing sols with
  | block before after hne =>
    rw [extendGroup_append _ _ _ before (.graph .. :: _), extendGroup, extend_named_block h hne,
      extendGroup_nil h]
    exact .refl _
  | @group before after only plain named _ ih =>
    simp only [extendGroup_append, extendGroup, Element.extend]
    refine (extendGroup_perm h h none (ih _) after (.refl _ _)).trans ?_
    exact extendGroup_append_perm h none _ _ after
  | @union before after others others' only plain named _ ih =>
    simp only [extendGroup_append, extendGroup, Element.extend, extendUnion_append, extendUnion,
      List.append_nil]
    -- what the alternative loses comes last
    have hsplit : ∀ {a p b n o : List Solution}, p.Perm (n ++ o) →
        (a ++ (p ++ b)).Perm (a ++ (n ++ b) ++ o) := by
      intro a p b n o hp
      rw [List.append_assoc, List.append_assoc]
      refine .append_left a ((hp.append_right b).trans ?_)
      rw [List.append_assoc]
      exact .append_left n List.perm_append_comm
    refine (extendGroup_perm h h none (hsplit (ih _)) after (.refl _ _)).trans ?_
    exact extendGroup_append_perm h none _ _ after

/-- The solutions that are lost with the name are those of the alternatives that the block is in:
without any alternatives, all of them. -/
theorem NamedAt.solutions_perm (h : src.Lawful s) (hnamed : NamedAt only plain named) :
    (plain.solutions src).Perm (named.solutions src ++ only.solutions src) :=
  hnamed.extend_perm h [∅]

theorem NamedAt.solutions_perm_iff (h : src.Lawful s) (hnamed : NamedAt only plain named) :
    (named.solutions src).Perm (plain.solutions src) ↔ only.solutions src = [] := by
  have hsplit := hnamed.solutions_perm h
  constructor
  · intro hsame
    have hlength := hsplit.length_eq.symm.trans hsame.length_eq.symm
    rw [List.length_append] at hlength
    exact List.eq_nil_of_length_eq_zero (Nat.add_eq_left.mp hlength)
  · intro hnone
    rw [hnone, List.append_nil] at hsplit
    exact hsplit.symm

end Group

section

open Grammar

/-- Where the name of the default graph can be written. Around a block of triples in the data or in
a template of an operation it makes no difference. In a pattern it is kept as the name of a `GRAPH`,
which ranges over the named graphs only: the solutions of the alternatives with the block are lost,
so that the pattern keeps its solutions if and only if there were none of these. -/
theorem default_graph_by_name {src : Source} {s : SortedSet Quad} (h : src.Lawful s)
    (scope : Scope) :
    (∀ ts ts' u rest, OperationNamed scope ts ts' →
      (Reads (readOperation scope ts') u rest ↔ Reads (readOperation scope ts) u rest)) ∧
    (∀ block rest rest' triples plain, triples ≠ [] →
      TriplesTo scope .pattern (block ++ rest) triples rest →
      Reads (readGroupBody scope (block ++ rest)) plain rest' →
      ∃ g, Reads (readGroupBody scope (named block ++ rest)) g rest' ∧
        Group.NamedAt plain plain g) ∧
    ∀ only plain g, Group.NamedAt only plain g →
      (plain.solutions src).Perm (g.solutions src ++ only.solutions src) ∧
      ((g.solutions src).Perm (plain.solutions src) ↔ only.solutions src = []) := by
  refine ⟨fun ts ts' u rest hnamed => hnamed.reads, ?_,
    fun only plain g hnamed => ⟨hnamed.solutions_perm h, hnamed.solutions_perm_iff h⟩⟩
  intro block rest rest' triples plain hne hblock hplain
  obtain ⟨more, hmore, rfl⟩ := hblock.reads_group.mp hplain
  exact ⟨_, hblock.reads_group_named.mpr ⟨more, hmore, rfl⟩, .block [] more hne⟩

/-- Data of the default graph is read as such with its name, but the quad is not found by it. -/
theorem default_graph_by_name_lost :
    let q : Quad := ⟨.iri "x:a", .iri "x:p", .iri "x:b", .defaultGraph⟩
    let block : List Token := [.iri "x:a", .iri "x:p", .iri "x:b"]
    let pattern : List Token := [.var "s", .var "p", .var "o"]
    let plain : Group := [.triple ⟨.var "s", .var "p", .var "o"⟩]
    Reads (readOperation {} (.word "INSERT" :: .word "DATA" :: .punct '\x7b' ::
        (named block ++ [.punct '\x7d']))) (.insertData [q]) [] ∧
      Reads (readGroupBody {} (pattern ++ [.punct '\x7d'])) plain [] ∧
      ∃ g, Reads (readGroupBody {} (named pattern ++ [.punct '\x7d'])) g [] ∧
        ¬(g.solutions (.ofSet (.ofList [q]))).Perm (plain.solutions (.ofSet (.ofList [q]))) := by
  intro q block pattern plain
  obtain ⟨hoperation, hpattern, hsolutions⟩ :=
    default_graph_by_name (Source.lawful_ofSet (.ofList [q])) {}
  have hends : Ends [.punct '\x7d'] [.punct '\x7d'] := ⟨Nat.le_refl _, rfl⟩
  have hblock : TriplesTo {} .insertData (block ++ [.punct '\x7d'])
      [⟨.term q.subject, .term q.predicate, .term q.object⟩] [.punct '\x7d'] := by
    have hsubject : Reads (readSubject {} .insertData (block ++ [.punct '\x7d']))
        [⟨.term q.subject, .term q.predicate, .term q.object⟩] [.punct '\x7d'] :=
      ⟨by decide, by with_unfolding_all rfl⟩
    exact .subject hsubject hends (.done _)
  have hpatternBlock : TriplesTo {} .pattern (pattern ++ [.punct '\x7d'])
      [⟨.var "s", .var "p", .var "o"⟩] [.punct '\x7d'] := by
    have hsubject : Reads (readSubject {} .pattern (pattern ++ [.punct '\x7d']))
        [⟨.var "s", .var "p", .var "o"⟩] [.punct '\x7d'] :=
      ⟨by decide, by with_unfolding_all rfl⟩
    exact .subject hsubject hends (.done _)
  have hplain : Reads (readGroupBody {} (pattern ++ [.punct '\x7d'])) plain [] :=
    ⟨by decide, by with_unfolding_all rfl⟩
  have hdata : Reads (readOperation {} (.word "INSERT" :: .word "DATA" :: .punct '\x7b' ::
      (block ++ [.punct '\x7d']))) (.insertData [q]) [] :=
    ⟨by decide, by with_unfolding_all rfl⟩
  have hnamed : TemplateNamed {} .insertData ([] ++ (block ++ [.punct '\x7d']))
      ([] ++ (named block ++ [.punct '\x7d'])) :=
    .intro (List.cons_ne_nil _ _) (.done _) hblock
  obtain ⟨g, hg, hat⟩ := hpattern pattern _ _ _ plain (List.cons_ne_nil _ _) hpatternBlock hplain
  have hinsert :=
    @OperationNamed.insertData {} "INSERT" (.word "DATA") _ _ (by decide) (by decide) hnamed
  refine ⟨(hoperation _ _ _ _ hinsert).mpr hdata, hplain, g, hg, ?_⟩
  rw [(hsolutions plain plain g hat).2]
  decide +kernel

end

end DualStore
