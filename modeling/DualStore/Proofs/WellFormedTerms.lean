import DualStore.Grammar.Scan
import DualStore.Proofs.StorableQuads

/-! Terms that are well formed: what their parts look like, and what becomes of them when blank
nodes are replaced by IRIs. -/

namespace DualStore

namespace Term

variable {value tag lexical : String} {t : Term} {l : Literal}

theorem isForbidden_of_checkIri (h : checkIri value = .ok ()) :
    ∀ c ∈ value.toList, isForbidden c = false := by
  unfold checkIri at h
  split at h
  · cases h
  split at h
  · cases h
  split at h
  · cases h
  next hnone => exact fun c hc => Bool.not_eq_true _ ▸ List.find?_eq_none.mp hnone c hc

theorem isIriChar_of_checkIri (h : checkIri value = .ok ()) :
    ∀ c ∈ value.toList, Token.isIriChar c = true := by
  intro c hc
  have := isForbidden_of_checkIri h c hc
  simp only [isForbidden, Bool.or_eq_false_iff, decide_eq_false_iff_not] at this
  simp [Token.isIriChar, this]

private theorem exists_mem_pieces {sep c : Char} {cs : List Char} (hc : c ∈ cs) (hne : c ≠ sep) :
    ∃ p ∈ Text.pieces sep cs, c ∈ p := by
  induction cs with
  | nil => cases hc
  | cons d cs ih =>
    rw [Text.pieces]
    split
    next hnil =>
      rcases List.mem_cons.mp hc with rfl | hc
      · exact ⟨_, List.mem_cons_self, List.mem_cons_self⟩
      · obtain ⟨p, hp, -⟩ := ih hc
        rw [hnil] at hp
        cases hp
    next q ps hps =>
      rcases List.mem_cons.mp hc with rfl | hc
      · rw [if_neg hne]
        exact ⟨_, List.mem_cons_self, List.mem_cons_self⟩
      obtain ⟨p, hp, hcp⟩ := ih hc
      rw [hps] at hp
      split
      · exact ⟨p, List.mem_cons_of_mem _ hp, hcp⟩
      · rcases List.mem_cons.mp hp with rfl | hp
        · exact ⟨_, List.mem_cons_self, List.mem_cons_of_mem _ hcp⟩
        · exact ⟨p, List.mem_cons_of_mem _ hp, hcp⟩

theorem isLanguageChar_of_isLanguage (h : isLanguage tag.toList = true) :
    tag.toList ≠ [] ∧ ∀ c ∈ tag.toList, Token.isLanguageChar c = true := by
  unfold isLanguage at h
  constructor
  · intro hnil
    rw [hnil] at h
    exact absurd h (by decide)
  intro c hc
  by_cases hne : c = '-'
  · subst hne
    decide
  obtain ⟨p, hp, hcp⟩ := exists_mem_pieces hc hne
  split at h
  next hnil => rw [hnil] at hp; cases hp
  next q qs hps =>
    simp only [Bool.and_eq_true, List.all_eq_true] at h
    rw [hps] at hp
    have halnum : c.isAlphanum = true := by
      rcases List.mem_cons.mp hp with rfl | hp
      · rw [Char.isAlphanum, h.1.2 c hcp, Bool.true_or]
      · exact (h.2 p hp).2 c hcp
    rw [Token.isLanguageChar, halnum, Bool.true_or]

theorem checkIri_of_typed {d : String} (h : typed lexical d = .ok t) (ht : t ≠ plain lexical) :
    checkIri d = .ok () := by
  unfold typed at h
  split at h
  · exact absurd (pure_eq_ok.mp h).symm ht
  split at h
  · cases h
  · exact (check_bind_eq_ok.mp h).1

theorem isLanguage_of_tagged (h : tagged lexical tag = .ok t) : isLanguage tag.toList = true ∧
    t = literal ⟨lexical, none, some (lowerCase tag)⟩ := by
  obtain ⟨hcheck, ht⟩ := check_bind_eq_ok.mp h
  refine ⟨?_, (pure_eq_ok.mp ht).symm⟩
  unfold checkLanguage at hcheck
  split at hcheck
  · assumption
  · cases hcheck

/-- A literal that its own parts rebuild has a datatype or a language or neither. -/
theorem Normal.literal_cases (h : (literal l).Normal) :
    (l.datatype = none ∧ l.language = none) ∨
    (∃ d, l.datatype = some d ∧ l.language = none ∧ checkIri d = .ok () ∧
      typed l.lexical d = .ok (literal l)) ∨
    ∃ tag, l.datatype = none ∧ l.language = some tag ∧ isLanguage tag.toList = true ∧
      tagged l.lexical tag = .ok (literal l) := by
  obtain ⟨lexical, datatype, language⟩ := l
  cases datatype with
  | none =>
    cases language with
    | none => exact .inl ⟨rfl, rfl⟩
    | some tag => exact .inr (.inr ⟨tag, rfl, rfl, (isLanguage_of_tagged h).1, h⟩)
  | some d =>
    cases language with
    | none =>
      exact .inr (.inl ⟨d, rfl, rfl, checkIri_of_typed h (by rw [plain]; nofun), h⟩)
    | some tag =>
      have h : (if d = Vocabulary.rdfLangString then tagged lexical tag
        else .error (.datatypeWithLanguage lexical d tag)) =
          .ok (literal ⟨lexical, some d, some tag⟩) := h
      split at h
      · cases (isLanguage_of_tagged h).2
      · cases h

theorem Normal.checkIri (h : (iri value).Normal) : checkIri value = .ok () :=
  (check_bind_eq_ok.mp h).1

/-! ## IRIs for blank nodes -/

private theorem isForbidden_ofNat : ∀ n < 128, isLabelChar (Char.ofNat n) = true →
    isForbidden (Char.ofNat n) = false := by decide +kernel

/-- A label may stand in an IRI as it is. -/
theorem isForbidden_of_isLabelChar {c : Char} (h : isLabelChar c = true) :
    isForbidden c = false := by
  have hlt : c.toNat < 128 := by
    simp only [isLabelChar, Bool.or_eq_true, decide_eq_true_eq] at h
    rcases h with ((h | rfl) | rfl) | rfl
    · exact Text.toNat_lt_of_isAlphanum h
    all_goals decide
  have := isForbidden_ofNat c.toNat hlt
  rw [Char.ofNat_toNat] at this
  exact this h

theorem checkIri_skolemPrefix {label : String} (h : checkLabel label = .ok ()) :
    checkIri (Vocabulary.skolemPrefix ++ label) = .ok () := by
  have hlabel : ∀ c ∈ label.toList, isLabelChar c = true := by
    unfold checkLabel at h
    split at h
    next hl =>
      unfold isLabel at hl
      split at hl
      · cases hl
      · next c cs heq =>
        simp only [Bool.and_eq_true, List.all_eq_true] at hl
        exact heq ▸ hl.2
    · cases h
  have hscheme : Text.splitAt? (· = ':') (Vocabulary.skolemPrefix ++ label).toList =
      some (['u', 'r', 'n'], "quadsync:bnode:".toList ++ label.toList) := by
    rw [String.toList_append]
    rfl
  have hfind : (Vocabulary.skolemPrefix ++ label).toList.find? isForbidden = none := by
    rw [List.find?_eq_none, String.toList_append]
    intro c hc
    rw [Bool.not_eq_true]
    rcases List.mem_append.mp hc with hc | hc
    · have hall : Vocabulary.skolemPrefix.toList.all (!isForbidden ·) = true := by decide
      exact Bool.not_eq_true' _ ▸ List.all_eq_true.mp hall c hc
    · exact isForbidden_of_isLabelChar (hlabel c hc)
  rw [checkIri, hscheme]
  dsimp only
  rw [hfind]
  rfl

theorem Normal.checkLabel {label : String} (h : (blank label).Normal) :
    Term.checkLabel label = .ok () := by
  have h : ofLabel label = .ok (blank label) := h
  obtain ⟨hcheck, heq⟩ := check_bind_eq_ok.mp h
  rw [blank.inj (pure_eq_ok.mp heq)] at hcheck
  exact hcheck

/-- A term stays one that its own parts rebuild, and is no blank node. -/
theorem Normal.skolemize (h : t.Normal) : t.skolemize.Normal ∧ t.skolemize.isBlank = false := by
  cases t with
  | iri value => exact ⟨h, rfl⟩
  | literal l => exact ⟨h, rfl⟩
  | blank label => exact ⟨check_bind_eq_ok.mpr ⟨checkIri_skolemPrefix h.checkLabel, rfl⟩, rfl⟩

theorem deskolemize_skolemize (h : t.isSkolem = false) : t.skolemize.deskolemize = t := by
  cases t with
  | iri value => exact if_neg (by rw [isSkolem] at h; rw [h]; exact Bool.false_ne_true)
  | blank label => exact deskolemize_skolemize_blank label
  | literal l => rfl

/-- Different terms that may be stored are different for the index. -/
theorem skolemize_inj {u : Term} (ht : t.isSkolem = false) (hu : u.isSkolem = false)
    (h : t.skolemize = u.skolemize) : t = u := by
  rw [← deskolemize_skolemize ht, ← deskolemize_skolemize hu, h]

theorem check_skolemize (h : t.check = .ok ()) : t.skolemize.check = .ok () := by
  cases t with
  | iri value => exact h
  | literal l => exact h
  | blank label => exact checkIri_skolemPrefix h

theorem isDefaultGraph_skolemize (h : t.isDefaultGraph = false) :
    t.skolemize.isDefaultGraph = false := by
  cases t with
  | iri value => exact h
  | literal l => exact h
  | blank label =>
    refine Bool.not_eq_true _ ▸ fun hd => ?_
    have heq := congrArg String.toList (iri.inj (isDefaultGraph_iff.mp hd))
    rw [String.toList_append] at heq
    have hchar : some 'b' = some 'd' := congrArg (fun cs => (List.drop 13 cs).head?) heq
    exact absurd (Option.some.inj hchar) (by decide)

theorem isIri_skolemize (h : (t.isIri || t.isBlank) = true) : t.skolemize.isIri = true := by
  cases t with
  | iri value => rfl
  | blank label => rfl
  | literal l => cases h

theorem skolemize_of_isIri (h : t.isIri = true) : t.skolemize = t := by
  cases t with
  | iri value => rfl
  | blank label => cases h
  | literal l => cases h

end Term

/-! ## Quads -/

namespace Quad

variable {q u : Quad}

/-- All terms of the quad are rebuilt by their own parts. -/
structure Normal (q : Quad) : Prop where
  subject : q.subject.Normal
  predicate : q.predicate.Normal
  object : q.object.Normal
  graph : q.graph.Normal

instance (q : Quad) : Decidable q.Normal :=
  decidable_of_iff (q.subject.Normal ∧ q.predicate.Normal ∧ q.object.Normal ∧ q.graph.Normal)
    ⟨fun h => ⟨h.1, h.2.1, h.2.2.1, h.2.2.2⟩, fun h => ⟨h.subject, h.predicate, h.object, h.graph⟩⟩

/-- Different quads that may be stored are different for the index. -/
theorem Storable.skolemize_inj (hq : q.Storable) (hu : u.Storable)
    (h : q.skolemize = u.skolemize) : q = u := by
  obtain ⟨hs, hp, ho, hg⟩ := Quad.mk.inj h
  have inj := fun {t t' : Term} (ht : t ∈ [q.subject, q.predicate, q.object, q.graph])
      (ht' : t' ∈ [u.subject, u.predicate, u.object, u.graph]) =>
    Term.skolemize_inj (hq.notSkolem t ht) (hu.notSkolem t' ht')
  cases q
  cases u
  rw [Quad.mk.injEq]
  exact ⟨inj (by simp) (by simp) hs, inj (by simp) (by simp) hp, inj (by simp) (by simp) ho,
    inj (by simp) (by simp) hg⟩

/-- A quad that may be stored passes the check of data in a request, as the index sees it. -/
theorem Storable.check_skolemize (h : q.Storable) : q.skolemize.check = .ok () := by
  have hterms : ∀ t ∈ [q.skolemize.subject, q.skolemize.predicate, q.skolemize.object,
      q.skolemize.graph], t.check = .ok () := by
    have := h.terms
    simp only [List.forall_mem_cons] at this ⊢
    obtain ⟨hs, hp, ho, hg, hnil⟩ := this
    exact ⟨Term.check_skolemize hs, Term.check_skolemize hp, Term.check_skolemize ho,
      Term.check_skolemize hg, hnil⟩
  have hdefault : ∀ t ∈ [q.skolemize.subject, q.skolemize.predicate, q.skolemize.object],
      t.isDefaultGraph = false := by
    have := h.notDefault
    simp only [List.forall_mem_cons] at this ⊢
    obtain ⟨hs, hp, ho, hnil⟩ := this
    exact ⟨Term.isDefaultGraph_skolemize hs, Term.isDefaultGraph_skolemize hp,
      Term.isDefaultGraph_skolemize ho, hnil⟩
  have hs : q.skolemize.subject.isIri = true := Term.isIri_skolemize h.subject
  have hp : q.skolemize.predicate.isIri = true := Term.isIri_skolemize (by rw [h.predicate]; rfl)
  have hg : q.skolemize.graph.isIri = true := Term.isIri_skolemize (by rw [h.graph]; rfl)
  exact check_eq_ok.mpr ⟨hterms, by rw [hs]; rfl, hp, hg, hdefault⟩

end Quad
end DualStore
