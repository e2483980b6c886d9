import DualStore.Grammar.Statement
import DualStore.Proofs.ParsedRequests

/-! Printed terms and documents of triples are read back as what they were printed from, unless the
label of a blank node ends in a point: such a document is refused (`Triple.listOfText_document`). -/

namespace DualStore

open Token (CutsTo CutsApart)

/-! ## Labels that end in a point -/

/-- A blank node whose label ends in a point. -/
def Term.endsInPoint : Term → Bool
  | .blank label => label.toList.getLast? == some '.'
  | _ => false

private theorem Token.labelTokens_of_getLast? {label : List Char} (h : label.getLast? ≠ some '.') :
    labelTokens label = [.blank (String.ofList label)] := by
  have hlast : ∀ hne : label ≠ [], ¬ (label.getLast hne == '.') = true := fun hne he =>
    h (by rw [List.getLast?_eq_some_getLast hne, beq_iff_eq.mp he])
  rw [labelTokens, List.rdropWhile_eq_self_iff.mpr hlast, List.rtakeWhile_eq_nil_iff.mpr hlast]
  rfl

namespace Triple

variable {t : Triple} {ts : List Triple}

/-- A triple of built terms, with an IRI or a blank node as its subject and an IRI as its
predicate. -/
structure Proper (t : Triple) : Prop where
  terms : ∀ u ∈ [t.subject, t.predicate, t.object], u.Built
  subject : (t.subject.isIri || t.subject.isBlank) = true
  predicate : t.predicate.isIri = true

def endsInPoint (t : Triple) : Bool := t.subject.endsInPoint || t.object.endsInPoint

/-- Triples in N-Triples syntax, one on each line. -/
def document (ts : List Triple) : String := String.join (ts.map (·.text ++ "\n"))

/-! ## Tokens -/

/-- The tokens of a triple and the point after it. -/
def tokens (t : Triple) : List Token :=
  t.subject.tokens ++ t.predicate.tokens ++ t.object.tokens ++ [.punct '.']

private theorem toList_textLine (t : Triple) : (t.text ++ "\n").toList =
    (t.subject.chars ++ [' ']) ++ (t.predicate.chars ++ [' ']) ++ (t.object.chars ++ [' ']) ++
      ['.', '\n'] := by
  simp [text, Term.text, toString]

private theorem Proper.cutsTo_line (h : t.Proper) : CutsTo (t.text ++ "\n").toList t.tokens := by
  have hterm := fun {u} (hu : u ∈ [t.subject, t.predicate, t.object]) =>
    (Term.cutsApart_chars (h.terms u hu).normal.check).space
  have := (((hterm (u := t.subject) (by simp)).append (hterm (u := t.predicate) (by simp))).append
    (hterm (u := t.object) (by simp))).append Token.cutsTo_point
  rwa [← toList_textLine] at this

theorem cutsTo_document (h : ∀ t ∈ ts, t.Proper) :
    CutsTo (document ts).toList (ts.flatMap tokens) := by
  rw [document, String.toList_join, List.flatMap_map]
  exact .flatMap fun t ht => (h t ht).cutsTo_line

end Triple

namespace Grammar

variable {t : Triple} {ts : List Triple} {u : Term} {rest input : List Token}

/-! ## Reading terms -/

private theorem reads_node (h : u.Normal) (hp : u.endsInPoint = false) (hrest : EndsString rest) :
    Reads (readNode {} .insertData .object (u.tokens ++ rest)) (.term u) rest := by
  cases u with
  | iri value => exact reads_object h rfl _ _ hrest
  | literal l => exact reads_object h rfl _ _ hrest
  | blank label =>
    have hlabel : Term.ofLabel label = .ok (.blank label) := h
    rw [Term.tokens, Token.labelTokens_of_getLast? (beq_eq_false_iff_ne.mp hp),
      String.ofList_toList]
    change Reads ((liftTerm (Term.ofLabel label)).map _) _ _
    rw [hlabel]
    exact ⟨_, rfl⟩

theorem reads_term (h : u.Normal) (hp : u.endsInPoint = false) (hrest : EndsString rest) :
    Reads (readTerm (u.tokens ++ rest)) u rest := by
  obtain ⟨hlt, hnode⟩ := reads_node h hp hrest
  rw [readTerm, hnode]
  exact ⟨_, rfl⟩

private theorem endsString_tokens (u : Term) (rest : List Token) :
    EndsString (u.tokens ++ rest) := by
  cases u <;> trivial

/-! ## Reading triples -/

private theorem readStatements_cons (h : t.Proper) (hp : t.endsInPoint = false)
    (hrest : readStatements rest = .ok ts) : readStatements (t.tokens ++ rest) = .ok (t :: ts) := by
  obtain ⟨hps, hpo⟩ := Bool.or_eq_false_iff.mp hp
  have hpp : t.predicate.endsInPoint = false := by
    have := h.predicate
    cases hpredicate : t.predicate with
    | blank label => rw [hpredicate] at this; cases this
    | iri value => rfl
    | literal l => rfl
  have htokens : t.tokens ++ rest = t.subject.tokens ++ (t.predicate.tokens ++ (t.object.tokens ++
      .punct '.' :: rest)) := by
    simp [Triple.tokens]
  obtain ⟨hlt, hs⟩ := reads_term (h.terms t.subject (by simp)).normal hps
    (endsString_tokens t.predicate (t.object.tokens ++ .punct '.' :: rest))
  obtain ⟨hlt', hpr⟩ := reads_term (h.terms t.predicate (by simp)).normal hpp
    (endsString_tokens t.object (.punct '.' :: rest))
  have hpoint : EndsString (.punct '.' :: rest) := trivial
  obtain ⟨hlt'', ho⟩ := reads_term (h.terms t.object (by simp)).normal hpo hpoint
  have hne : (t.subject.tokens ++ (t.predicate.tokens ++ (t.object.tokens ++
      .punct '.' :: rest))).isEmpty = false := by
    rw [← htokens]
    simp [Triple.tokens]
  rw [htokens, readStatements, hne]
  simp only [Bool.false_eq_true, if_false, bind, Except.bind, hs, hpr, ho, punct_self, hrest]
  rfl

private theorem readStatements_tokens (h : ∀ t ∈ ts, t.Proper)
    (hp : ∀ t ∈ ts, t.endsInPoint = false) :
    readStatements (ts.flatMap Triple.tokens) = .ok ts := by
  induction ts with
  | nil =>
    rw [List.flatMap_nil, readStatements]
    rfl
  | cons t ts ih =>
    rw [List.forall_mem_cons] at h hp
    rw [List.flatMap_cons]
    exact readStatements_cons h.1 hp.1 (ih h.2 hp.2)

/-! ## What is refused

Every term that is read weighs one, and a point takes back the weight of the three terms before it.
So statements that are read weigh nothing in all, and a point too many shows. -/

/-- The weight of a token. A datatype's mark takes back the weight of the IRI after it. -/
def weight : Token → Int
  | .punct _ => -3
  | .datatypeMark => -1
  | .language _ => 0
  | _ => 1

def totalWeight : List Token → Int
  | [] => 0
  | t :: ts => weight t + totalWeight ts

@[simp] private theorem totalWeight_nil : totalWeight [] = 0 := rfl

@[simp] private theorem totalWeight_cons (t : Token) (ts : List Token) :
    totalWeight (t :: ts) = weight t + totalWeight ts := rfl

@[simp] private theorem totalWeight_append (ts us : List Token) :
    totalWeight (ts ++ us) = totalWeight ts + totalWeight us := by
  induction ts with
  | nil => rw [List.nil_append, totalWeight_nil, Int.zero_add]
  | cons t ts ih => rw [List.cons_append, totalWeight_cons, totalWeight_cons, ih, Int.add_assoc]

private theorem totalWeight_readIri {s : Scope} {r : Read Term input}
    (h : readIri s input = .ok r) : totalWeight input = 1 + totalWeight r.rest := by
  unfold readIri at h
  split at h
  · obtain ⟨t, -, rfl⟩ := map_eq_ok.mp h
    rfl
  · obtain ⟨t, -, rfl⟩ := map_eq_ok.mp h
    rfl
  · cases h

private theorem totalWeight_readLiteral {s : Scope} {content : String} {n : Node}
    {r : Rest input} (h : readLiteral s content input = .ok (n, r)) :
    totalWeight input = totalWeight r.1 := by
  unfold readLiteral at h
  split at h
  · obtain ⟨n', -, h⟩ := map_eq_ok.mp h
    cases h
    exact Int.zero_add _
  · obtain ⟨datatype, hdatatype, h⟩ := bind_eq_ok.mp h
    obtain ⟨n', -, h⟩ := bind_eq_ok.mp h
    cases h
    rw [totalWeight_cons, totalWeight_readIri hdatatype]
    exact Int.neg_add_cancel_left _ _
  · cases h
    rfl

private theorem weight_nodeOfToken {s : Scope} {place : Place} {position : Position} {t : Token}
    {n : Node} (h : nodeOfToken s place position t = .ok n) : weight t = 1 := by
  unfold nodeOfToken at h
  split at h
  iterate 10 rfl
  iterate 4 cases h
  split at h
  next hword => rw [hword.1]; rfl
  next => cases h

private theorem totalWeight_readTerm {r : Read Term input} (h : readTerm input = .ok r) :
    totalWeight input = 1 + totalWeight r.rest := by
  obtain ⟨node, hnode, h⟩ := bind_eq_ok.mp h
  have hrest : r.rest = node.rest := by
    split at h
    · cases h
      rfl
    · cases h
  rw [hrest]
  unfold readNode at hnode
  split at hnode
  · cases hnode
  · obtain ⟨⟨n, rest⟩, hliteral, rfl⟩ := map_eq_ok.mp hnode
    rw [totalWeight_cons, totalWeight_readLiteral hliteral]
    rfl
  · obtain ⟨n, hn, rfl⟩ := map_eq_ok.mp hnode
    rw [totalWeight_cons, weight_nodeOfToken hn]
    rfl

private theorem totalWeight_punct {c : Char} {r : Read Unit input} (h : punct c input = .ok r) :
    totalWeight input = -3 + totalWeight r.rest := by
  unfold punct at h
  split at h
  next hpunct =>
    unfold punct? at hpunct
    split at hpunct
    · cases hpunct
    split at hpunct
    next ht =>
      cases hpunct
      cases h
      rw [ht]
      rfl
    · cases hpunct
  · cases h

private theorem totalWeight_readStatements (h : readStatements input = .ok ts) :
    totalWeight input = 0 := by
  induction input using readStatements.induct generalizing ts with
  | case1 input hempty =>
    rw [List.isEmpty_iff.mp hempty]
    rfl
  | case2 input hempty ih =>
    rw [readStatements, if_neg hempty] at h
    obtain ⟨subject, hs, h⟩ := bind_eq_ok.mp h
    obtain ⟨predicate, hp, h⟩ := bind_eq_ok.mp h
    obtain ⟨object, ho, h⟩ := bind_eq_ok.mp h
    obtain ⟨point, hpoint, h⟩ := bind_eq_ok.mp h
    obtain ⟨more, hmore, -⟩ := bind_eq_ok.mp h
    rw [totalWeight_readTerm hs, totalWeight_readTerm hp, totalWeight_readTerm ho,
      totalWeight_punct hpoint, ih _ _ _ _ hmore]
    rfl

private theorem totalWeight_map_punct (cs : List Char) :
    totalWeight (cs.map .punct) = -3 * cs.length := by
  induction cs with
  | nil => rfl
  | cons c cs ih =>
    have hweight : weight (.punct c) = -3 := rfl
    rw [List.map_cons, totalWeight_cons, ih, hweight, List.length_cons]
    omega

private theorem totalWeight_labelTokens (label : List Char) :
    totalWeight (Token.labelTokens label) =
      1 - 3 * (label.rtakeWhile (· == '.')).length := by
  have hweight : ∀ label, weight (.blank label) = 1 := fun _ => rfl
  rw [Token.labelTokens, totalWeight_cons, totalWeight_map_punct, hweight]
  omega

private theorem totalWeight_tokens_le (u : Term) : totalWeight u.tokens ≤ 1 := by
  cases u with
  | iri value => exact Int.le_refl 1
  | blank label =>
    rw [Term.tokens, totalWeight_labelTokens]
    omega
  | literal l =>
    have hsuffix : totalWeight (Term.suffixTokens l) = 0 := by
      unfold Term.suffixTokens
      split <;> rfl
    rw [Term.tokens, totalWeight_cons, hsuffix]
    exact Int.le_refl 1

private theorem totalWeight_tokens_lt (h : u.endsInPoint = true) : totalWeight u.tokens < 1 := by
  cases u with
  | iri value => cases h
  | literal l => cases h
  | blank label =>
    have hpoint : (label.toList.rtakeWhile (· == '.')) ≠ [] := fun hnil => by
      obtain ⟨cs, hcs⟩ := List.getLast?_eq_some_iff.mp (beq_iff_eq.mp h)
      rw [hcs, List.rtakeWhile_concat_pos _ _ _ rfl] at hnil
      exact List.concat_ne_nil _ _ hnil
    have := List.length_pos_of_ne_nil hpoint
    rw [Term.tokens, totalWeight_labelTokens]
    omega

private theorem totalWeight_triple (t : Triple) : totalWeight t.tokens ≤ 0 ∧
    (t.endsInPoint = true → totalWeight t.tokens < 0) := by
  have hs := totalWeight_tokens_le t.subject
  have hp := totalWeight_tokens_le t.predicate
  have ho := totalWeight_tokens_le t.object
  have htokens : totalWeight t.tokens = totalWeight t.subject.tokens +
      totalWeight t.predicate.tokens + totalWeight t.object.tokens + -3 := by
    rw [Triple.tokens, totalWeight_append, totalWeight_append, totalWeight_append]
    rfl
  refine ⟨by omega, fun h => ?_⟩
  rcases Bool.or_eq_true_iff.mp h with h | h <;> have := totalWeight_tokens_lt h <;> omega

private theorem totalWeight_triples (ts : List Triple) :
    totalWeight (ts.flatMap Triple.tokens) ≤ 0 ∧
      (ts.any Triple.endsInPoint = true → totalWeight (ts.flatMap Triple.tokens) < 0) := by
  induction ts with
  | nil => exact ⟨Int.le_refl 0, nofun⟩
  | cons t ts ih =>
    have ht := totalWeight_triple t
    rw [List.flatMap_cons, totalWeight_append]
    refine ⟨by omega, fun h => ?_⟩
    rcases Bool.or_eq_true_iff.mp h with h | h
    · have := ht.2 h
      omega
    · have := ih.2 h
      omega

end Grammar

open Grammar

private theorem ofText_text {u : Term} (h : u.Built) :
    if u.endsInPoint then ∃ fault, Term.ofText u.text = .error fault
    else Term.ofText u.text = .ok u := by
  have hcuts : CutsApart u.text.toList u.tokens := by
    rw [Term.text, String.toList_ofList]
    exact Term.cutsApart_chars h.normal.check
  have hread : Term.ofText u.text = readTerm u.tokens >>= fun t =>
      endOfInput t.rest >>= fun _ => .ok t.value := by
    rw [Term.ofText, hcuts.ofText]
    rfl
  cases hp : u.endsInPoint with
  | true =>
    -- what is left of the points would still have to be read
    cases hu : Term.ofText u.text with
    | error fault => exact ⟨fault, rfl⟩
    | ok t =>
      rw [hu] at hread
      obtain ⟨r, hr, hend⟩ := bind_eq_ok.mp hread.symm
      obtain ⟨hend, -⟩ := check_bind_eq_ok.mp hend
      have hnil : r.rest = [] := by
        unfold endOfInput at hend
        split at hend
        next hempty => exact List.isEmpty_iff.mp hempty
        · cases hend
      have hweight := totalWeight_readTerm hr
      have hlt := totalWeight_tokens_lt hp
      rw [hnil, totalWeight_nil] at hweight
      omega
  | false =>
    have hend : EndsString [] := trivial
    have hterm := reads_term h.normal hp hend
    rw [List.append_nil] at hterm
    obtain ⟨hlt, hterm⟩ := hterm
    rw [if_neg Bool.false_ne_true, hread, hterm]
    rfl

/-- A printed document of triples is read as these triples, and a printed term as this term. Where
the label of a blank node ends in a point, both are refused. -/
theorem Triple.listOfText_document {ts : List Triple} {u : Term} (hts : ∀ t ∈ ts, t.Proper)
    (hu : u.Built) :
    (if ts.any Triple.endsInPoint then
        ∃ fault, Triple.listOfText (Triple.document ts) = .error fault
      else Triple.listOfText (Triple.document ts) = .ok ts) ∧
    (if u.endsInPoint then ∃ fault, Term.ofText u.text = .error fault
      else Term.ofText u.text = .ok u) := by
  refine ⟨?_, ofText_text hu⟩
  have hread : listOfText (document ts) = readStatements (ts.flatMap tokens) := by
    rw [listOfText, (cutsTo_document hts).ofText]
    rfl
  cases hp : ts.any Triple.endsInPoint with
  | true =>
    cases hl : listOfText (document ts) with
    | error fault => exact ⟨fault, rfl⟩
    | ok ts' =>
      have hzero := totalWeight_readStatements (hread.symm.trans hl)
      have hlt := (totalWeight_triples ts).2 hp
      omega
  | false =>
    have hp : ∀ t ∈ ts, t.endsInPoint = false :=
      fun t ht => Bool.not_eq_true _ ▸ List.any_eq_false.mp hp t ht
    rw [if_neg Bool.false_ne_true, hread, readStatements_tokens hts hp]

/-- A label that ends in a point is accepted and printed, but not read back. -/
theorem Triple.listOfText_document_point :
    Term.ofLabel "a." = .ok (.blank "a.") ∧
    (∃ fault, Triple.listOfText
      (Triple.document [⟨.blank "a.", .iri "x:p", .iri "x:o"⟩]) = .error fault) ∧
    ∃ fault, Term.ofText (Term.blank "a.").text = .error fault := by
  have hlabel : Term.ofLabel "a." = .ok (.blank "a.") := by decide +kernel
  have hterms : ∀ u ∈ [Term.blank "a.", .iri "x:p", .iri "x:o"], u.Built := by
    simp only [List.forall_mem_cons]
    have hp : Term.ofIri "x:p" = .ok (.iri "x:p") := by decide +kernel
    have ho : Term.ofIri "x:o" = .ok (.iri "x:o") := by decide +kernel
    exact ⟨.blank hlabel, .iri hp, .iri ho, nofun⟩
  have hproper : ∀ t ∈ [(⟨.blank "a.", .iri "x:p", .iri "x:o"⟩ : Triple)], t.Proper :=
    List.forall_mem_singleton.mpr ⟨hterms, rfl, rfl⟩
  have h := Triple.listOfText_document hproper (.blank hlabel)
  exact ⟨hlabel, h.1, h.2⟩

end DualStore
