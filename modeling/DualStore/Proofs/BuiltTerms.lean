import DualStore.Proofs.WellFormedTerms

/-! Terms as they are built from text. What the ways of building terms accept is what its own parts
rebuild (`Term.built_iff_normal`). A check of the parts at hand lets one kind of term more pass:
strings that have the datatype of language strings and no language (`Term.check_iff`). -/

namespace DualStore
namespace Term

variable {value label lexical tag : String} {t : Term} {cs : List Char}

/-- A term that one of the ways of building terms has accepted. -/
inductive Built : Term → Prop
  | iri {value : String} {t : Term} (h : ofIri value = .ok t) : Built t
  | blank {label : String} {t : Term} (h : ofLabel label = .ok t) : Built t
  | plain (lexical : String) : Built (plain lexical)
  | typed {lexical datatype : String} {t : Term} (h : typed lexical datatype = .ok t) : Built t
  | tagged {lexical language : String} {t : Term} (h : tagged lexical language = .ok t) : Built t

/-! ## Labels -/

theorem isLabel_of_checkLabel (h : checkLabel label = .ok ()) : isLabel label.toList = true := by
  unfold checkLabel at h
  split at h
  · assumption
  · cases h

/-- No label starts with the mark of blank nodes. -/
theorem ofLabel_of_checkLabel (h : checkLabel label = .ok ()) :
    ofLabel label = .ok (blank label) := by
  have hlabel := isLabel_of_checkLabel h
  refine check_bind_eq_ok.mpr ?_
  split
  next cs hcs =>
    rw [hcs] at hlabel
    simp [isLabel, isLabelChar] at hlabel
  next => exact ⟨h, rfl⟩

/-! ## Languages -/

private theorem toLower_ofNat : ∀ n < 128, let c := Char.ofNat n
    c.toLower.isAlpha = c.isAlpha ∧ c.toLower.isAlphanum = c.isAlphanum ∧
      (c.toLower = '-' ↔ c = '-') ∧ c.toLower.isUpper = false ∧
      (c.isUpper = false → c.toLower = c) := by decide +kernel

private theorem toLower_spec {c : Char} (h : Token.isLanguageChar c = true) :
    c.toLower.isAlpha = c.isAlpha ∧ c.toLower.isAlphanum = c.isAlphanum ∧
      (c.toLower = '-' ↔ c = '-') ∧ c.toLower.isUpper = false ∧
      (c.isUpper = false → c.toLower = c) := by
  have hlt : c.toNat < 128 := by
    rw [Token.isLanguageChar, Bool.or_eq_true, beq_iff_eq] at h
    rcases h with h | rfl
    · exact Text.toNat_lt_of_isAlphanum h
    · decide
  have := toLower_ofNat c.toNat hlt
  rwa [Char.ofNat_toNat] at this

private theorem pieces_toLower (h : ∀ c ∈ cs, Token.isLanguageChar c = true) :
    Text.pieces '-' (cs.map Char.toLower) = (Text.pieces '-' cs).map (·.map Char.toLower) := by
  induction cs with
  | nil => rfl
  | cons c cs ih =>
    obtain ⟨hc, hcs⟩ := List.forall_mem_cons.mp h
    rw [List.map_cons, Text.pieces, Text.pieces, ih hcs]
    have hsep : (c.toLower = '-') = (c = '-') := propext (toLower_spec hc).2.2.1
    cases Text.pieces '-' cs with
    | nil => rfl
    | cons p ps =>
      simp only [List.map_cons, hsep]
      split <;> rfl

private theorem mem_of_mem_pieces {sep c : Char} {p : List Char} (hp : p ∈ Text.pieces sep cs)
    (hc : c ∈ p) : c ∈ cs := by
  induction cs generalizing p with
  | nil =>
    rw [Text.pieces, List.mem_singleton] at hp
    rwa [hp] at hc
  | cons d cs ih =>
    rw [Text.pieces] at hp
    split at hp
    · rw [List.mem_singleton.mp hp, List.mem_singleton] at hc
      exact List.mem_cons.mpr (.inl hc)
    next q ps hpieces =>
      rw [hpieces] at ih
      split at hp
      · rcases List.mem_cons.mp hp with rfl | hp
        · cases hc
        · exact List.mem_cons_of_mem _ (ih hp hc)
      · rcases List.mem_cons.mp hp with rfl | hp
        · rcases List.mem_cons.mp hc with rfl | hc
          · exact List.mem_cons_self
          · exact List.mem_cons_of_mem _ (ih List.mem_cons_self hc)
        · exact List.mem_cons_of_mem _ (ih (List.mem_cons_of_mem _ hp) hc)

private theorem all_map_eq {α β : Type} {f : α → β} {p : β → Bool} {q : α → Bool} {l : List α}
    (h : ∀ a ∈ l, p (f a) = q a) : (l.map f).all p = l.all q := by
  rw [Bool.eq_iff_iff, List.all_eq_true, List.all_eq_true, List.forall_mem_map]
  exact forall₂_congr fun a ha => by rw [h a ha]

private theorem isLanguage_map_toLower (h : ∀ c ∈ cs, Token.isLanguageChar c = true) :
    isLanguage (cs.map Char.toLower) = isLanguage cs := by
  have hspec := fun {p c} (hp : p ∈ Text.pieces '-' cs) (hc : c ∈ p) =>
    toLower_spec (h c (mem_of_mem_pieces hp hc))
  rw [isLanguage, isLanguage, pieces_toLower h]
  cases hpieces : Text.pieces '-' cs with
  | nil => rfl
  | cons p ps =>
    rw [hpieces] at hspec
    have hfirst : (p.map Char.toLower).all Char.isAlpha = p.all Char.isAlpha :=
      all_map_eq fun c hc => (hspec List.mem_cons_self hc).1
    have hrest : (ps.map (·.map Char.toLower)).all (fun p => !p.isEmpty && p.all Char.isAlphanum) =
        ps.all fun p => !p.isEmpty && p.all Char.isAlphanum := by
      refine all_map_eq fun q hq => ?_
      have hall : (q.map Char.toLower).all Char.isAlphanum = q.all Char.isAlphanum :=
        all_map_eq fun c hc => (hspec (List.mem_cons_of_mem _ hq) hc).2.1
      rw [List.isEmpty_map, hall]
    rw [List.map_cons]
    dsimp only
    rw [hfirst, hrest, List.isEmpty_map]

theorem isLanguage_lowerCase (h : isLanguage tag.toList = true) :
    isLanguage (lowerCase tag).toList = true := by
  rw [lowerCase, String.toList_ofList, isLanguage_map_toLower (isLanguageChar_of_isLanguage h).2, h]

theorem lowerCase_eq_self (h : isLanguage tag.toList = true)
    (hupper : tag.toList.any Char.isUpper = false) : lowerCase tag = tag := by
  have hmap : tag.toList.map Char.toLower = tag.toList := by
    refine (List.map_congr_left fun c hc => ?_).trans (List.map_id _)
    have hspec := toLower_spec ((isLanguageChar_of_isLanguage h).2 c hc)
    exact hspec.2.2.2.2 (Bool.not_eq_true _ ▸ List.any_eq_false.mp hupper c hc)
  rw [lowerCase, hmap, String.ofList_toList]

private theorem any_isUpper_lowerCase (h : isLanguage tag.toList = true) :
    (lowerCase tag).toList.any Char.isUpper = false := by
  rw [lowerCase, String.toList_ofList, List.any_map, List.any_eq_false]
  intro c hc
  have hspec := toLower_spec ((isLanguageChar_of_isLanguage h).2 c hc)
  rw [Function.comp_apply, hspec.2.2.2.1]
  exact Bool.false_ne_true

theorem tagged_of_isLanguage (lexical : String) (h : isLanguage tag.toList = true) :
    tagged lexical tag = .ok (literal ⟨lexical, none, some (lowerCase tag)⟩) :=
  check_bind_eq_ok.mpr ⟨if_pos h, rfl⟩

/-! ## Built terms -/

theorem typed_cases {datatype : String} (h : typed lexical datatype = .ok t) :
    t = plain lexical ∨ t = literal ⟨lexical, some datatype, none⟩ := by
  unfold typed at h
  split at h
  · exact .inl (pure_eq_ok.mp h).symm
  split at h
  · cases h
  · exact .inr (pure_eq_ok.mp (check_bind_eq_ok.mp h).2).symm

theorem Built.normal (h : t.Built) : t.Normal := by
  cases h with
  | @iri value t h =>
    obtain ⟨-, ht⟩ := check_bind_eq_ok.mp h
    obtain rfl := pure_eq_ok.mp ht
    exact h
  | @blank label t h =>
    obtain ⟨hlabel, ht⟩ := check_bind_eq_ok.mp h
    obtain rfl := pure_eq_ok.mp ht
    exact ofLabel_of_checkLabel hlabel
  | plain lexical => exact rfl
  | @typed lexical datatype t h =>
    rcases typed_cases h with rfl | rfl
    · exact rfl
    · exact h
  | @tagged lexical tag t h =>
    obtain ⟨htag, rfl⟩ := isLanguage_of_tagged h
    have hlower := isLanguage_lowerCase htag
    have := tagged_of_isLanguage lexical hlower
    rwa [lowerCase_eq_self hlower (any_isUpper_lowerCase htag)] at this

/-- The ways of building terms accept the terms that their own parts rebuild. -/
theorem built_iff_normal : t.Built ↔ t.Normal := by
  refine ⟨Built.normal, fun h => ?_⟩
  cases t with
  | iri value => exact .iri h
  | blank label => exact .blank h
  | literal l =>
    obtain ⟨lexical, datatype, language⟩ := l
    rcases h.literal_cases with ⟨hd, hl⟩ | ⟨d, hd, hl, -, h⟩ | ⟨tag, hd, hl, -, h⟩ <;>
      obtain rfl := hd <;> obtain rfl := hl
    · exact .plain lexical
    · exact .typed h
    · exact .tagged h

/-! ## Terms at hand -/

theorem Normal.check (h : t.Normal) : t.check = .ok () := by
  cases t with
  | iri value => exact h.checkIri
  | blank label => exact h.checkLabel
  | literal l =>
    obtain ⟨lexical, datatype, language⟩ := l
    rcases h.literal_cases with ⟨hd, hl⟩ | ⟨d, hd, hl, hcheck, h⟩ | ⟨tag, hd, hl, htag, h⟩ <;>
      obtain rfl := hd <;> obtain rfl := hl
    · rfl
    · have hd : d ≠ Vocabulary.xsdString := by
        rintro rfl
        cases h
      exact (if_neg hd).trans hcheck
    · have hlower := Option.some.inj (Literal.mk.inj (literal.inj (isLanguage_of_tagged h).2)).2.2
      refine check_bind_eq_ok.mpr ⟨if_pos htag, ?_⟩
      rw [hlower, any_isUpper_lowerCase htag]
      rfl

/-- A string that has the datatype of language strings and no language. -/
def untagged (lexical : String) : Term := literal ⟨lexical, some Vocabulary.rdfLangString, none⟩

theorem checkIri_rdfLangString : checkIri Vocabulary.rdfLangString = .ok () := by decide +kernel

/-- The check lets the terms that their own parts rebuild pass, and strings that lack a language. -/
theorem check_iff : t.check = .ok () ↔ t.Normal ∨ ∃ lexical, t = untagged lexical := by
  constructor
  · intro h
    cases t with
    | iri value => exact .inl (check_bind_eq_ok.mpr ⟨h, rfl⟩)
    | blank label => exact .inl (ofLabel_of_checkLabel h)
    | literal l =>
      obtain ⟨lexical, datatype, language⟩ := l
      match datatype, language, h with
      | none, none, _ => exact .inl rfl
      | none, some tag, h =>
        obtain ⟨hcheck, h⟩ := check_bind_eq_ok.mp h
        have htag : isLanguage tag.toList = true := by
          unfold checkLanguage at hcheck
          split at hcheck
          · assumption
          · cases hcheck
        have hupper : tag.toList.any Char.isUpper = false := by
          split at h
          · cases h
          next hupper => exact Bool.not_eq_true _ ▸ hupper
        have := tagged_of_isLanguage lexical htag
        rw [lowerCase_eq_self htag hupper] at this
        exact .inl this
      | some d, none, h =>
        have h : (if d = Vocabulary.xsdString then .error .notPlain else checkIri d) = .ok () := h
        by_cases hd : d = Vocabulary.rdfLangString
        · exact .inr ⟨lexical, by rw [hd]; rfl⟩
        split at h
        · cases h
        next hne =>
          refine .inl ?_
          change typed lexical d = _
          rw [typed, if_neg hne]
          simp only [if_neg hd]
          exact check_bind_eq_ok.mpr ⟨h, rfl⟩
      | some d, some tag, h => cases h
  · rintro (h | ⟨lexical, rfl⟩)
    · exact h.check
    · exact checkIri_rdfLangString

theorem normal_of_isIri (h : t.check = .ok ()) (hi : t.isIri = true) : t.Normal := by
  rcases check_iff.mp h with h | ⟨lexical, rfl⟩
  · exact h
  · cases hi

theorem ofParts_untagged (lexical : String) :
    ofParts (untagged lexical).kind (untagged lexical).lexical (untagged lexical).datatype
      (untagged lexical).language = .error (.langStringWithoutTag lexical) := rfl

theorem not_normal_untagged (lexical : String) : ¬(untagged lexical).Normal := by
  intro h
  rw [Normal, ofParts_untagged] at h
  cases h

end Term

/-! ## Quads of terms -/

namespace Quad

variable {q : Quad}

/-- A quad whose terms have been built is what these terms rebuild. -/
theorem normal_of_built
    (h : ∀ t ∈ [q.subject, q.predicate, q.object, q.graph], t.Built) : q.Normal := by
  simp only [List.forall_mem_cons] at h
  obtain ⟨hs, hp, ho, hg, -⟩ := h
  exact ⟨hs.normal, hp.normal, ho.normal, hg.normal⟩

/-- A quad that may be stored is rebuilt by its own parts, unless its object is a string that lacks
a language. -/
theorem Storable.normal_or (h : q.Storable) :
    q.Normal ∨ ∃ lexical, q.object = .untagged lexical := by
  have hsubject : q.subject.Normal := by
    rcases Term.check_iff.mp (h.terms q.subject (by simp)) with hn | ⟨lexical, hl⟩
    · exact hn
    · have := h.subject
      rw [hl] at this
      cases this
  have hpredicate := Term.normal_of_isIri (h.terms q.predicate (by simp)) h.predicate
  have hgraph := Term.normal_of_isIri (h.terms q.graph (by simp)) h.graph
  rcases Term.check_iff.mp (h.terms q.object (by simp)) with hobject | hl
  · exact .inl ⟨hsubject, hpredicate, hobject, hgraph⟩
  · exact .inr hl

end Quad

namespace Term

/-- The check and the building of terms draw one line, except at strings that lack a language: the
check lets each of them pass, and their own parts are refused. They are what keeps a quad that may
be stored from being read back. -/
theorem check_agrees_iff (t : Term) :
    ((t.check = .ok () ↔ ofParts t.kind t.lexical t.datatype t.language = .ok t) ↔
      ∀ lexical, t ≠ untagged lexical) ∧
    (∀ lexical, t = untagged lexical → t.check = .ok () ∧
      ofParts t.kind t.lexical t.datatype t.language = .error (.langStringWithoutTag lexical)) ∧
    ∀ q : Quad, q.checkStorable = .ok () → q.object = t →
      (q.Normal ↔ ∀ lexical, t ≠ untagged lexical) := by
  have hpasses : ∀ lexical, (untagged lexical).check = .ok () := fun lexical =>
    check_iff.mpr (.inr ⟨lexical, rfl⟩)
  refine ⟨⟨?_, fun hne => ⟨fun hcheck => ?_, Normal.check⟩⟩, ?_,
    fun q hstorable ho => ⟨fun hnormal lexical ht => ?_, fun hne => ?_⟩⟩
  · rintro hagree lexical rfl
    exact not_normal_untagged lexical (hagree.mp (hpasses lexical))
  · exact (check_iff.mp hcheck).resolve_right fun ⟨lexical, ht⟩ => hne lexical ht
  · rintro lexical rfl
    exact ⟨hpasses lexical, ofParts_untagged lexical⟩
  · exact not_normal_untagged lexical (ht ▸ ho ▸ hnormal.object)
  · have hq : q.Storable := Quad.checkStorable_eq_ok.mp hstorable
    exact hq.normal_or.resolve_right fun ⟨lexical, hl⟩ => hne lexical (ho ▸ hl)

theorem check_agrees_iff_untagged :
    ¬((untagged "v").check = .ok () ↔
      ofParts .literal "v" (some Vocabulary.rdfLangString) none = .ok (untagged "v")) ∧
    ¬(Quad.mk (iri "x:a") (iri "x:p") (untagged "v") (iri "x:g")).Normal := by
  obtain ⟨hagree, -, hquad⟩ := check_agrees_iff (untagged "v")
  refine ⟨fun h => hagree.mp h "v" rfl, fun h => ?_⟩
  exact (hquad _ (by decide +kernel) rfl).mp h "v" rfl

end Term
end DualStore
