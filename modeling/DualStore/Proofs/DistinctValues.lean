import DualStore.Proofs.DocumentRoundTrip
import Mathlib.Data.Set.Card

/-! How many values linked-data documents show. Terms that pass the check have different values,
unless both are literals that are shown as the same number (`valueOf_beq_iff_sameNumber`). Hence a
document shows as many values for a property of a subject as the quads have objects for it, and one
more type for a single subject that has none (`length_valuesFor`). -/

namespace DualStore

theorem Binary64.beq_self (x : Binary64) : (x == x) = true := by
  simp [BEq.beq]

namespace LinkedData

variable {t u g s p : Term} {j j' : Json} {qs : List Quad} {key : String} {defaultType : Bool}

/-! ## Values -/

/-- The number that a literal with the datatype of doubles is shown as. -/
def shownNumber? : Term → Option Binary64
  | .literal ⟨lexical, some datatype, none⟩ =>
    if datatype = Vocabulary.xsdDouble then Binary64.ofText? lexical else none
  | _ => none

/-- Both are literals with the datatype of doubles, and their texts are read as the same number. -/
def sameNumber (t u : Term) : Bool :=
  match shownNumber? t, shownNumber? u with
  | some x, some y => x == y
  | _, _ => false

theorem nodeId_inj (ht : t.Normal) (hl : t.isLiteral = false) (hu : u.Normal)
    (hl' : u.isLiteral = false) (h : nodeId t = nodeId u) : t = u := by
  have hexpand := expand_nodeId ht hl false
  rw [h, expand_nodeId hu hl' false] at hexpand
  exact (Except.ok.inj hexpand).symm

theorem normal_of_not_isLiteral (h : t.check = .ok ()) (hl : t.isLiteral = false) : t.Normal := by
  rcases Term.check_iff.mp h with hn | ⟨lexical, rfl⟩
  · exact hn
  · cases hl

private theorem native?_double (lexical : String) :
    native? lexical Vocabulary.xsdDouble = (Binary64.ofText? lexical).map .double := by
  rw [native?, if_neg (by decide), if_pos rfl]

private theorem native?_langString (lexical : String) :
    native? lexical Vocabulary.rdfLangString = none := by
  rw [native?, if_neg (by decide), if_neg (by decide), if_neg (by decide)]

theorem valueOf_of_shownNumber? {x : Binary64} (h : shownNumber? t = some x) :
    valueOf t = .double x := by
  unfold shownNumber? at h
  split at h
  next lexical datatype =>
    rw [Option.ite_none_right_eq_some] at h
    obtain ⟨rfl, hx⟩ := h
    rw [valueOf_typed, native?_double, hx, Option.map_some, Option.getD_some]
  · cases h

/-- A literal with the datatype of doubles whose text is not read is no exception. -/
theorem shown_of_shownNumber? (ht : t.check = .ok ()) (h : shownNumber? t = none) :
    Shown t (valueOf t) := by
  rcases Term.check_iff.mp ht with hn | ⟨lexical, rfl⟩
  · by_cases hd : t.datatype = some Vocabulary.xsdDouble
    · match t, hn, hd with
      | .literal ⟨lexical, _, language⟩, hn, rfl =>
        rcases hn.literal_cases with ⟨hd, -⟩ | ⟨_, -, hl, -⟩ | ⟨_, hd, -⟩
        · cases hd
        · obtain rfl : language = none := hl
          rw [shownNumber?, if_pos rfl] at h
          exact shown_of_native?_eq_none (by rw [native?_double, h, Option.map_none])
        · cases hd
    · exact shown_valueOf hn hd
  · exact shown_of_native?_eq_none (native?_langString lexical)

/-- No two terms have the same value where no doubles are. -/
theorem Shown.inj (h : Shown t j) (h' : Shown u j') (ht : t.check = .ok ()) (hu : u.check = .ok ())
    (hj : j = j') : t = u := by
  cases h with
  | node hl =>
    cases h' with
    | node hl' =>
      have hid : nodeId t = nodeId u := by simpa using hj
      exact nodeId_inj (normal_of_not_isLiteral ht hl) hl (normal_of_not_isLiteral hu hl') hl' hid
    | _ => simp at hj
  | plain lexical =>
    cases h' with
    | plain => rw [Json.string.inj hj]
    | _ => cases hj
  | integer n =>
    cases h' with
    | integer => rw [Json.integer.inj hj]
    | _ => cases hj
  | bool b =>
    cases h' with
    | bool => rw [Json.bool.inj hj]
    | _ => cases hj
  | typed lexical datatype =>
    cases h' with
    | typed =>
      obtain ⟨rfl, rfl⟩ : datatype = _ ∧ lexical = _ := by simpa using hj
      rfl
    | _ => simp at hj
  | tagged lexical tag =>
    cases h' with
    | tagged =>
      obtain ⟨rfl, rfl⟩ : tag = _ ∧ lexical = _ := by simpa using hj
      rfl
    | _ => simp at hj

/-- A number is equal to no other kind of value. -/
theorem Flat.beq_double (h : Flat j) (x : Binary64) :
    (j == .double x) = false ∧ (Json.double x == j) = false := by
  change Json.beq j (.double x) = false ∧ Json.beq (.double x) j = false
  cases h <;> exact ⟨rfl, rfl⟩

/-- Different terms have different values, unless both are shown as the same number. -/
theorem valueOf_beq_iff_sameNumber (ht : t.check = .ok ()) (hu : u.check = .ok ()) :
    (valueOf t == valueOf u) = true ↔ t = u ∨ sameNumber t u = true := by
  cases hx : shownNumber? t with
  | none =>
    have hs := shown_of_shownNumber? ht hx
    have hsame : sameNumber t u = false := by rw [sameNumber, hx]
    rw [hsame, or_iff_left Bool.false_ne_true]
    cases hy : shownNumber? u with
    | none =>
      have hs' := shown_of_shownNumber? hu hy
      rw [hs.flat.beq_iff hs'.flat]
      exact ⟨fun h => hs.inj hs' ht hu h, congrArg valueOf⟩
    | some y =>
      -- only one of them is shown as a number, so they differ
      rw [valueOf_of_shownNumber? hy, (hs.flat.beq_double y).1]
      refine iff_of_false Bool.false_ne_true ?_
      rintro rfl
      rw [hx] at hy
      cases hy
  | some x =>
    rw [valueOf_of_shownNumber? hx]
    cases hy : shownNumber? u with
    | none =>
      rw [((shown_of_shownNumber? hu hy).flat.beq_double x).2, sameNumber, hx, hy]
      refine iff_of_false Bool.false_ne_true ?_
      rintro (rfl | h)
      · rw [hx] at hy
        cases hy
      · cases h
    | some y =>
      rw [valueOf_of_shownNumber? hy, sameNumber, hx, hy]
      change (x == y) = true ↔ t = u ∨ (x == y) = true
      refine (or_iff_right_of_imp ?_).symm
      rintro rfl
      obtain rfl := Option.some.inj (hx.symm.trans hy)
      exact x.beq_self

theorem Flat.ne_array (h : Flat j) (items : List Json) : j ≠ .array items := by
  cases h <;> exact nofun

theorem valueOf_ne_array (ht : t.check = .ok ()) (items : List Json) :
    valueOf t ≠ .array items := by
  cases hx : shownNumber? t with
  | none => exact (shown_of_shownNumber? ht hx).flat.ne_array items
  | some x =>
    rw [valueOf_of_shownNumber? hx]
    exact nofun

/-! ## Reading documents -/

/-- The node objects of a document. -/
def nodesOf (document : Json) : List Json :=
  match document.get? "@graph" with
  | some (.array nodes) => nodes
  | _ => [document]

/-- The values of a member, which may be missing; an array stands for several. -/
def manyOf : Option Json → List Json
  | none => []
  | some (.array values) => values
  | some j => [j]

/-- The values of a property that a node object shows. Types have a member of their own. -/
def valuesIn (p : Term) (node : Json) : List Json :=
  (if p.lexical = Vocabulary.rdfType then manyOf (node.get? "@type") else []) ++
    manyOf (node.get? p.lexical)

/-- The values that a document shows for a property of a subject. -/
def valuesFor (document : Json) (s p : Term) : List Json :=
  ((nodesOf document).filter fun node => node.get? "@id" == some (.string (nodeId s))).flatMap
    (valuesIn p)

theorem manyOf_oneOrMany {values : List Json} (h : ∀ j ∈ values, ∀ items, j ≠ .array items) :
    manyOf (some (oneOrMany values)) = values := by
  match values, h with
  | [], _ => rfl
  | [j], h =>
    cases j with
    | array items => exact absurd rfl (h _ (List.mem_singleton_self _) items)
    | _ => rfl
  | j :: j' :: values, _ => rfl

private theorem get?_nodeOf (qs : List Quad) (defaultType : Bool) (s : Term) (key : String) :
    (nodeOf s qs defaultType).get? key =
      if key ∈ propertiesOf qs then some (oneOrMany (valuesOf qs key))
      else if key = "@type" ∧ shownTypes qs defaultType ≠ [] then
        some (oneOrMany ((shownTypes qs defaultType).map fun t => .string (nodeId t)))
      else if key = "@id" then some (.string (nodeId s))
      else none := by
  obtain ⟨m, hm, hget⟩ := exists_toList_nodeOf qs defaultType s
  rw [hm, ← hget]
  exact m.lookup_reverse_toList key

section

variable (hqs : ∀ q ∈ qs, q.Storable)
include hqs

private theorem get?_nodeOf_keyword (h : isKeyword key = true) :
    (nodeOf s qs defaultType).get? key =
      if key = "@type" ∧ shownTypes qs defaultType ≠ [] then
        some (oneOrMany ((shownTypes qs defaultType).map fun t => .string (nodeId t)))
      else if key = "@id" then some (.string (nodeId s))
      else none := by
  have hprop : key ∉ propertiesOf qs := fun hmem =>
    mem_propertiesOf.mp hmem (propertyTerms_of_keyword hqs h)
  rw [get?_nodeOf, if_neg hprop]

theorem manyOf_types : manyOf ((nodeOf s qs defaultType).get? "@type") =
    (shownTypes qs defaultType).map fun t => .string (nodeId t) := by
  rw [get?_nodeOf_keyword hqs rfl]
  by_cases hnil : shownTypes qs defaultType = []
  · rw [hnil]
    rfl
  · rw [if_pos ⟨rfl, hnil⟩]
    refine manyOf_oneOrMany fun j hj items => ?_
    obtain ⟨t, -, rfl⟩ := List.mem_map.mp hj
    exact nofun

theorem manyOf_property (hkey : Term.checkIri key = .ok ())
    (hnumbers : ∀ t ∈ propertyTerms qs key, ∀ u ∈ propertyTerms qs key,
      sameNumber t u = true → t = u) :
    manyOf ((nodeOf s qs defaultType).get? key) = (propertyTerms qs key).map valueOf := by
  have hcheck : ∀ t ∈ propertyTerms qs key, t.check = .ok () := by
    intro t ht
    obtain ⟨q, hq, -, rfl⟩ := mem_propertyTerms.mp ht
    exact (hqs q hq).terms q.object (by simp)
  have hvalues : valuesOf qs key = (propertyTerms qs key).map valueOf :=
    valuesOf_eq_map fun t ht u hu =>
      (valueOf_beq_iff_sameNumber (hcheck t ht) (hcheck u hu)).trans
        (or_iff_left_of_imp (hnumbers t ht u hu))
  rw [get?_nodeOf, hvalues]
  by_cases hprop : propertyTerms qs key = []
  · obtain ⟨-, hid, htype, -⟩ := keys_apart hkey
    rw [if_neg (fun h => mem_propertiesOf.mp h hprop), if_neg (fun h => htype h.1), if_neg hid,
      hprop]
    rfl
  · rw [if_pos (mem_propertiesOf.mpr hprop)]
    refine manyOf_oneOrMany fun j hj items => ?_
    obtain ⟨t, ht, rfl⟩ := List.mem_map.mp hj
    exact valueOf_ne_array (hcheck t ht) items

theorem nodesOf_documentOf : nodesOf (documentOf qs) =
    (subjectsOf qs).map fun s => nodeOf s (blockOf qs s) (isSingle qs) := by
  cases hsingle : isSingle qs with
  | true =>
    obtain ⟨s, hs⟩ := List.length_eq_one_iff.mp (of_decide_eq_true hsingle)
    have hgraph : (nodeOf s qs true).get? "@graph" = none := by
      rw [get?_nodeOf_keyword hqs rfl]
      rfl
    rw [documentOf_single hs, blockOf_eq_self hs, nodesOf, hgraph, hs]
    rw [List.map_singleton, blockOf_eq_self hs]
  | false =>
    rw [documentOf_many hsingle]
    rfl

/-- Each subject has one node object. -/
theorem valuesFor_documentOf (hs : s.check = .ok ()) (hl : s.isLiteral = false) :
    valuesFor (documentOf qs) s p =
      if s ∈ subjectsOf qs then valuesIn p (nodeOf s (blockOf qs s) (isSingle qs)) else [] := by
  have hid : ∀ u ∈ subjectsOf qs,
      ((nodeOf u (blockOf qs u) (isSingle qs)).get? "@id" == some (.string (nodeId s))) =
        decide (u = s) := by
    intro u hu
    obtain ⟨q, hq, rfl⟩ := mem_subjectsOf.mp hu
    have hblock : ∀ v ∈ blockOf qs q.subject, v.Storable := fun v hv => hqs v (mem_blockOf.mp hv).1
    have hliteral : q.subject.isLiteral = false :=
      Term.isLiteral_of_isIri_or (hqs q hq).subject
    have hnormal := normal_of_not_isLiteral ((hqs q hq).terms q.subject (by simp)) hliteral
    rw [get?_nodeOf_keyword hblock rfl]
    change (nodeId q.subject == nodeId s) = _
    rw [Bool.eq_iff_iff, beq_iff_eq, decide_eq_true_iff]
    exact ⟨nodeId_inj hnormal hliteral (normal_of_not_isLiteral hs hl) hl, congrArg nodeId⟩
  have honly : (subjectsOf qs).filter (fun u => decide (u = s)) =
      if s ∈ subjectsOf qs then [s] else [] := by
    have hnodup : (subjectsOf qs).Nodup := nodup_eraseDups _
    rw [List.filter_eq, hnodup.count]
    split <;> rfl
  have hnodes : ((subjectsOf qs).map fun u => nodeOf u (blockOf qs u) (isSingle qs)).filter
      (fun node => node.get? "@id" == some (.string (nodeId s))) =
        ((subjectsOf qs).filter fun u => decide (u = s)).map
          fun u => nodeOf u (blockOf qs u) (isSingle qs) := by
    rw [List.filter_map]
    exact congrArg _ (List.filter_congr hid)
  rw [valuesFor, nodesOf_documentOf hqs, hnodes, honly]
  split
  · rw [List.map_singleton, List.flatMap_singleton]
  · rfl

end

/-! ## Numbers of values -/

/-- A set that a list without repetitions lists is as large as the list is long. -/
theorem ncard_eq_length {α : Type} [DecidableEq α] {S : Set α} {l : List α} (hl : l.Nodup)
    (h : ∀ a, a ∈ S ↔ a ∈ l) : S.ncard = l.length := by
  have hcoe : S = ↑l.toFinset := Set.ext fun a => (h a).trans List.mem_toFinset.symm
  rw [hcoe, Set.ncard_coe_finset, List.toFinset_card_of_nodup hl]

theorem length_shownTypes (qs : List Quad) (defaultType : Bool) :
    (shownTypes qs defaultType).length =
      (typeTerms qs).length + if typeTerms qs = [] ∧ defaultType = true then 1 else 0 := by
  rw [shownTypes]
  by_cases h : typeTerms qs = [] ∧ defaultType = true
  · rw [if_pos h, h.1, h.2]
    rfl
  · have hshown : ((typeTerms qs).isEmpty && defaultType) = false := by
      rw [← Bool.not_eq_true, Bool.and_eq_true, List.isEmpty_iff]
      exact h
    rw [if_neg h, hshown, if_neg Bool.false_ne_true, Nat.add_zero]

/-- The objects of a subject and a predicate: those that are shown as types, and the others. -/
def objectTerms (qs : List Quad) (s p : Term) : List Term :=
  (if p.lexical = Vocabulary.rdfType then typeTerms (blockOf qs s) else []) ++
    propertyTerms (blockOf qs s) p.lexical

theorem nodup_objectTerms : (objectTerms qs s p).Nodup := by
  unfold objectTerms
  split
  next hp =>
    refine List.nodup_append.mpr ⟨nodup_eraseDups _, nodup_eraseDups _, ?_⟩
    rintro t ht _ hu rfl
    obtain ⟨q, -, htype, rfl⟩ := mem_typeTerms.mp ht
    obtain ⟨v, -, hshows, ho⟩ := mem_propertyTerms.mp hu
    obtain ⟨hnot, hkey⟩ := showsUnder_iff.mp hshows
    have htype' : isTypeQuad v = true :=
      isTypeQuad_iff.mpr ⟨hkey.trans hp, ho ▸ (isTypeQuad_iff.mp htype).2⟩
    rw [htype'] at hnot
    cases hnot
  · exact nodup_eraseDups _

section

variable (hgraph : ∀ q ∈ qs, q.graph = g) (hqs : ∀ q ∈ qs, q.Storable) (hp : p.isIri = true)
include hgraph hqs hp

private theorem mem_of_mem_blockOf {q : Quad} (hq : q ∈ blockOf qs s)
    (hlexical : q.predicate.lexical = p.lexical) : (⟨s, p, q.object, g⟩ : Quad) ∈ qs := by
  obtain ⟨hmem, rfl⟩ := mem_blockOf.mp hq
  obtain ⟨value, hvalue, -⟩ := exists_predicate (hqs q hmem)
  obtain ⟨value', rfl⟩ := Term.exists_of_isIri hp
  have hpredicate : q.predicate = .iri value' := by
    rw [hvalue] at hlexical ⊢
    exact congrArg Term.iri hlexical
  rw [← hgraph q hmem, ← hpredicate]
  exact hmem

theorem mem_objectTerms : t ∈ objectTerms qs s p ↔ (⟨s, p, t, g⟩ : Quad) ∈ qs := by
  rw [objectTerms, List.mem_append]
  constructor
  · rintro (ht | ht)
    · split at ht
      next htype =>
        obtain ⟨q, hq, hqtype, rfl⟩ := mem_typeTerms.mp ht
        exact mem_of_mem_blockOf hgraph hqs hp hq ((isTypeQuad_iff.mp hqtype).1.trans htype.symm)
      · cases ht
    · obtain ⟨q, hq, hshows, rfl⟩ := mem_propertyTerms.mp ht
      exact mem_of_mem_blockOf hgraph hqs hp hq (showsUnder_iff.mp hshows).2
  · intro hq
    have hblock : (⟨s, p, t, g⟩ : Quad) ∈ blockOf qs s := mem_blockOf.mpr ⟨hq, rfl⟩
    cases htype : isTypeQuad ⟨s, p, t, g⟩ with
    | true =>
      rw [if_pos (isTypeQuad_iff.mp htype).1]
      exact .inl (mem_typeTerms.mpr ⟨_, hblock, htype, rfl⟩)
    | false => exact .inr (mem_propertyTerms.mpr ⟨_, hblock, showsUnder_iff.mpr ⟨htype, rfl⟩, rfl⟩)

theorem length_objectTerms : (objectTerms qs s p).length = {o | (⟨s, p, o, g⟩ : Quad) ∈ qs}.ncard :=
  (ncard_eq_length nodup_objectTerms fun _ => (mem_objectTerms hgraph hqs hp).symm).symm

end

/-- A node object shows the objects of its quads, and a type of its own if asked for. -/
theorem length_valuesIn (hblock : ∀ q ∈ blockOf qs s, q.Storable)
    (hp : Term.checkIri p.lexical = .ok ())
    (hnumbers : ∀ t ∈ propertyTerms (blockOf qs s) p.lexical,
      ∀ u ∈ propertyTerms (blockOf qs s) p.lexical, sameNumber t u = true → t = u) :
    (valuesIn p (nodeOf s (blockOf qs s) defaultType)).length = (objectTerms qs s p).length +
      if p.lexical = Vocabulary.rdfType ∧ typeTerms (blockOf qs s) = [] ∧ defaultType = true then 1
      else 0 := by
  rw [valuesIn, objectTerms, manyOf_types hblock, manyOf_property hblock hp hnumbers]
  by_cases htype : p.lexical = Vocabulary.rdfType
  · rw [if_pos htype, if_pos htype]
    simp only [List.length_append, List.length_map, length_shownTypes, htype, true_and]
    omega
  · rw [if_neg htype, if_neg htype, if_neg fun h => htype h.1, Nat.add_zero]
    simp only [List.nil_append, List.length_map]

/-- The document of quads of one subject shows the type that they do not give. -/
theorem types_missing_iff (hqs : ∀ q ∈ qs, q.Storable) (hs : s ∈ subjectsOf qs) :
    typeTerms (blockOf qs s) = [] ∧ isSingle qs = true ↔
      (qs ≠ [] ∧ ∀ u ∈ qs, u.subject = s) ∧
        ∀ u ∈ qs, u.predicate = .iri Vocabulary.rdfType → u.object.isIri = false := by
  rw [← subjectsOf_eq_singleton, ← typeTerms_eq_nil fun q hq => (hqs q hq).predicate]
  constructor
  · rintro ⟨hnil, hsingle⟩
    obtain ⟨u, hu⟩ := List.length_eq_one_iff.mp (of_decide_eq_true hsingle)
    obtain rfl := List.mem_singleton.mp (hu ▸ hs)
    exact ⟨hu, blockOf_eq_self hu ▸ hnil⟩
  · rintro ⟨hsubjects, hnil⟩
    rw [blockOf_eq_self hsubjects, isSingle, hsubjects]
    exact ⟨hnil, rfl⟩

/-- A document shows as many values for a property of a subject as the quads have objects for it, if
no two of these are shown as the same number. A single subject without a type is shown with one. -/
theorem length_valuesFor (hgraph : ∀ q ∈ qs, q.graph = g) (hqs : ∀ q ∈ qs, q.Storable)
    (hs : s.check = .ok ()) (hl : s.isLiteral = false) (hp : p.check = .ok ())
    (hi : p.isIri = true)
    (hnumbers : ∀ o o', (⟨s, p, o, g⟩ : Quad) ∈ qs → (⟨s, p, o', g⟩ : Quad) ∈ qs →
      sameNumber o o' = true → o = o') :
    (valuesFor (documentOf qs) s p).length = {o | (⟨s, p, o, g⟩ : Quad) ∈ qs}.ncard +
      if p = .iri Vocabulary.rdfType ∧ (qs ≠ [] ∧ ∀ u ∈ qs, u.subject = s) ∧
        ∀ u ∈ qs, u.predicate = .iri Vocabulary.rdfType → u.object.isIri = false then 1 else 0 := by
  rw [← length_objectTerms hgraph hqs hi, valuesFor_documentOf hqs hs hl]
  by_cases hsubject : s ∈ subjectsOf qs
  · obtain ⟨value, rfl⟩ := Term.exists_of_isIri hi
    have hobject : ∀ t ∈ propertyTerms (blockOf qs s) value,
        (⟨s, .iri value, t, g⟩ : Quad) ∈ qs := fun t ht =>
      (mem_objectTerms hgraph hqs rfl).mp (List.mem_append_right _ ht)
    have hblock : ∀ q ∈ blockOf qs s, q.Storable := fun q hq => hqs q (mem_blockOf.mp hq).1
    rw [if_pos hsubject, length_valuesIn (p := .iri value) hblock hp fun t ht u hu =>
      hnumbers t u (hobject t ht) (hobject u hu)]
    simp only [types_missing_iff hqs hsubject, Term.iri.injEq, Term.lexical]
  · -- no node object, and no quads either
    have hblock : blockOf qs s = [] := List.filter_eq_nil_iff.mpr fun q hq hq' =>
      hsubject (mem_subjectsOf.mpr ⟨q, hq, of_decide_eq_true hq'⟩)
    have hsingle : ¬(qs ≠ [] ∧ ∀ u ∈ qs, u.subject = s) := fun h =>
      hsubject (subjectsOf_eq_singleton.mpr h ▸ List.mem_singleton_self s)
    rw [if_neg hsubject, if_neg fun h => hsingle h.2.1, objectTerms, hblock]
    split <;> rfl

/-- Documents tell the objects of a property apart, doubles that are the same number aside:
different terms have different values, so that as many values are shown as there are objects. -/
theorem valueOf_tells_apart :
    (∀ t u : Term, t.Built → u.Built → t ≠ u → sameNumber t u = false →
      (valueOf t == valueOf u) = false) ∧
    ∀ (g : Term) (qs : List Quad), (∀ q ∈ qs, q.graph = g) → (∀ q ∈ qs, q.Storable) →
      ∀ s p : Term, s.check = .ok () → s.isLiteral = false → p.check = .ok () → p.isIri = true →
        (∀ o o', (⟨s, p, o, g⟩ : Quad) ∈ qs → (⟨s, p, o', g⟩ : Quad) ∈ qs →
          sameNumber o o' = true → o = o') →
        (valuesFor (documentOf qs) s p).length = {o | (⟨s, p, o, g⟩ : Quad) ∈ qs}.ncard +
          if p = .iri Vocabulary.rdfType ∧ (qs ≠ [] ∧ ∀ q ∈ qs, q.subject = s) ∧
            ∀ q ∈ qs, q.predicate = .iri Vocabulary.rdfType → q.object.isIri = false
          then 1 else 0 := by
  refine ⟨fun t u ht hu hne hsame => ?_, fun g qs hgraph hqs s p hs hl hp hi hnumbers =>
    length_valuesFor hgraph hqs hs hl hp hi hnumbers⟩
  rw [← Bool.not_eq_true, valueOf_beq_iff_sameNumber ht.normal.check hu.normal.check, hsame]
  exact not_or.mpr ⟨hne, Bool.false_ne_true⟩

/-- Numbers, the text of one of them and a type that is a blank node are five objects. -/
theorem valueOf_tells_apart_numbers :
    let g : Term := .iri "x:g"
    let s : Term := .iri "x:s"
    let p : Term := .iri "x:p"
    let type : Term := .iri Vocabulary.rdfType
    let one : Term := .literal ⟨"1", some Vocabulary.xsdDouble, none⟩
    let half : Term := .literal ⟨"5e-1", some Vocabulary.xsdDouble, none⟩
    let qs : List Quad :=
      [⟨s, p, one, g⟩, ⟨s, p, half, g⟩, ⟨s, p, .literal ⟨"1", some Vocabulary.xsdInteger, none⟩, g⟩,
        ⟨s, p, .plain "1", g⟩, ⟨s, type, .blank "b", g⟩]
    (valueOf one == valueOf half) = false ∧ {o | (⟨s, p, o, g⟩ : Quad) ∈ qs}.ncard = 4 ∧
      (valuesFor (documentOf qs) s type).length =
        {o | (⟨s, type, o, g⟩ : Quad) ∈ qs}.ncard + 1 := by
  intro g s p type one half qs
  have hchecks : ∀ q ∈ qs, q.checkStorable = .ok () := by decide +kernel
  have hgraph : ∀ q ∈ qs, q.graph = g := by decide
  have hnormal : one.Normal ∧ half.Normal := by decide +kernel
  have hsame : ∀ q ∈ qs, ∀ q' ∈ qs,
      sameNumber q.object q'.object = true → q.object = q'.object := by decide +kernel
  have hnumbers : ∀ p' o o', (⟨s, p', o, g⟩ : Quad) ∈ qs → (⟨s, p', o', g⟩ : Quad) ∈ qs →
      sameNumber o o' = true → o = o' := fun p' o o' h h' => hsame _ h _ h'
  have hone : (valuesFor (documentOf qs) s p).length = 4 := by decide +kernel
  obtain ⟨hvalues, hcount⟩ := valueOf_tells_apart
  have hlength := hcount g qs hgraph fun q hq => Quad.checkStorable_eq_ok.mp (hchecks q hq)
  have hproperty := hlength s p (by decide +kernel) rfl (by decide +kernel) rfl (hnumbers p)
  have htypes := hlength s type (by decide +kernel) rfl (by decide +kernel) rfl (hnumbers type)
  rw [if_neg (by decide), hone] at hproperty
  rw [if_pos (by decide)] at htypes
  have hdiffer : (valueOf one == valueOf half) = false :=
    hvalues one half (Term.built_iff_normal.mpr hnormal.1) (Term.built_iff_normal.mpr hnormal.2)
      (by decide) (by decide +kernel)
  exact ⟨hdiffer, hproperty.symm, htypes⟩

/-- Two texts of one number have the same value, and a type is shown that no quad gives. -/
theorem not_valueOf_tells_apart :
    (∃ t u : Term, t.Built ∧ u.Built ∧ t ≠ u ∧ (valueOf t == valueOf u) = true) ∧
    ∃ (g s p : Term) (qs : List Quad), (∀ q ∈ qs, q.graph = g) ∧ (∀ q ∈ qs, q.Storable) ∧
      (∀ q ∈ qs, q.subject = s) ∧
      (valuesFor (documentOf qs) s p).length ≠ {o | (⟨s, p, o, g⟩ : Quad) ∈ qs}.ncard := by
  have hnormal : ∀ lexical ∈ ["1", "1.0"],
      (Term.literal ⟨lexical, some Vocabulary.xsdDouble, none⟩).Normal := by decide +kernel
  let q : Quad := ⟨.iri "x:s", .iri "x:p", .plain "v", .iri "x:g"⟩
  have hstorable : q.Storable := Quad.checkStorable_eq_ok.mp (by decide +kernel)
  have htypes : {o | (⟨.iri "x:s", .iri Vocabulary.rdfType, o, .iri "x:g"⟩ : Quad) ∈ [q]} = ∅ := by
    refine Set.eq_empty_of_forall_notMem fun o ho => ?_
    have hpredicate : Term.iri Vocabulary.rdfType = .iri "x:p" :=
      congrArg Quad.predicate (List.mem_singleton.mp ho)
    exact absurd hpredicate (by decide)
  refine ⟨⟨_, _, Term.built_iff_normal.mpr (hnormal "1" (by decide)),
    Term.built_iff_normal.mpr (hnormal "1.0" (by decide)), by decide, by decide +kernel⟩,
    .iri "x:g", .iri "x:s", .iri Vocabulary.rdfType, [q], ?_, ?_, ?_, ?_⟩
  · exact List.forall_mem_singleton.mpr rfl
  · exact List.forall_mem_singleton.mpr hstorable
  · exact List.forall_mem_singleton.mpr rfl
  · rw [htypes, Set.ncard_empty]
    decide +kernel

end LinkedData
end DualStore
