import DualStore.Proofs.LinkedValues

/-! Node objects of linked-data documents. A node object says the same as the quads that it was
made of: the same types, and for each property the same values in the same order
(`typeTerms_nodeQuads`, `propertyTerms_nodeQuads`). Hence it is read back as these quads
(`mem_nodeQuads`), and they make up the same node object (`nodeOf_nodeQuads`). -/

namespace DualStore.LinkedData

variable {g s : Term} {qs : List Quad} {q : Quad} {key : String} {defaultType : Bool}

/-- A quad that may be stored, in the graph `g`, whose terms have been built and whose object is no
double. -/
structure Writable (g : Term) (q : Quad) : Prop where
  graph : q.graph = g
  storable : q.Storable
  normal : q.Normal
  notDouble : q.object.datatype ≠ some Vocabulary.xsdDouble

/-- The predicate of a quad that may be stored is a well-formed IRI. -/
theorem exists_predicate (h : q.Storable) :
    ∃ value, q.predicate = .iri value ∧ Term.checkIri value = .ok () := by
  have hcheck := h.terms q.predicate (by simp)
  obtain ⟨value, hp⟩ := Term.exists_of_isIri h.predicate
  exact ⟨value, hp, by rwa [hp] at hcheck⟩

/-! ## What a node object says -/

/-- The types that quads give. -/
def typeTerms (qs : List Quad) : List Term := ((qs.filter isTypeQuad).map (·.object)).eraseDups

/-- The quads that are shown under a key. -/
def showsUnder (key : String) (q : Quad) : Bool := !isTypeQuad q && q.predicate.lexical = key

/-- The values that quads give to a property. -/
def propertyTerms (qs : List Quad) (key : String) : List Term :=
  ((qs.filter (showsUnder key)).map (·.object)).eraseDups

/-- The types that are shown: a resource without a type is shown as one if asked for. -/
def shownTypes (qs : List Quad) (defaultType : Bool) : List Term :=
  if (typeTerms qs).isEmpty && defaultType then [.iri Vocabulary.rdfsResource] else typeTerms qs

theorem showsUnder_iff : showsUnder key q = true ↔
    isTypeQuad q = false ∧ q.predicate.lexical = key := by
  rw [showsUnder, Bool.and_eq_true_iff, Bool.not_eq_true', decide_eq_true_iff]

theorem isTypeQuad_iff : isTypeQuad q = true ↔
    q.predicate.lexical = Vocabulary.rdfType ∧ q.object.isIri = true := by
  rw [isTypeQuad, Bool.and_eq_true_iff, decide_eq_true_iff]

theorem mem_typeTerms {t : Term} :
    t ∈ typeTerms qs ↔ ∃ q ∈ qs, isTypeQuad q = true ∧ q.object = t := by
  simp only [typeTerms, List.mem_eraseDups, List.mem_map, List.mem_filter, and_assoc]

theorem mem_propertyTerms {t : Term} :
    t ∈ propertyTerms qs key ↔ ∃ q ∈ qs, showsUnder key q = true ∧ q.object = t := by
  simp only [propertyTerms, List.mem_eraseDups, List.mem_map, List.mem_filter, and_assoc]

theorem shownTypes_isIri : ∀ t ∈ shownTypes qs defaultType, t.isIri = true := by
  intro t ht
  unfold shownTypes at ht
  split at ht
  · exact List.mem_singleton.mp ht ▸ rfl
  · obtain ⟨q, -, hq, rfl⟩ := mem_typeTerms.mp ht
    exact (isTypeQuad_iff.mp hq).2

theorem nodup_shownTypes : (shownTypes qs defaultType).Nodup := by
  unfold shownTypes
  split
  · exact List.nodup_singleton _
  · exact nodup_eraseDups _

/-- Once types are shown, they are all that there is to show. -/
theorem shownTypes_of_typeTerms {qs' : List Quad}
    (h : typeTerms qs' = shownTypes qs defaultType) :
    shownTypes qs' defaultType = shownTypes qs defaultType := by
  rw [shownTypes, h]
  split
  next hempty =>
    obtain ⟨hnil, rfl⟩ := Bool.and_eq_true_iff.mp hempty
    rw [shownTypes, Bool.and_true] at hnil ⊢
    split at hnil
    · cases hnil
    next hne => exact absurd hnil hne
  · rfl

/-- A key that something is shown under is a well-formed IRI. -/
theorem checkIri_of_propertyTerms (hqs : ∀ q ∈ qs, q.Storable)
    (h : propertyTerms qs key ≠ []) : Term.checkIri key = .ok () := by
  obtain ⟨t, ht⟩ := List.exists_mem_of_ne_nil _ h
  obtain ⟨q, hq, hshows, -⟩ := mem_propertyTerms.mp ht
  obtain ⟨value, hp, hcheck⟩ := exists_predicate (hqs q hq)
  obtain ⟨-, hkey⟩ := showsUnder_iff.mp hshows
  rw [hp] at hkey
  exact hkey ▸ hcheck

/-- No property has the name of a keyword. -/
theorem propertyTerms_of_keyword (hqs : ∀ q ∈ qs, q.Storable) (h : isKeyword key = true) :
    propertyTerms qs key = [] := by
  refine not_not.mp fun hprop => ?_
  rw [isKeyword_of_checkIri (checkIri_of_propertyTerms hqs hprop)] at h
  cases h

/-! ## Members -/

theorem normal_of_propertyTerms (hqs : ∀ q ∈ qs, Writable g q) :
    ∀ t ∈ propertyTerms qs key, t.Normal ∧ t.datatype ≠ some Vocabulary.xsdDouble := by
  intro t ht
  obtain ⟨q, hq, -, rfl⟩ := mem_propertyTerms.mp ht
  exact ⟨(hqs q hq).normal.object, (hqs q hq).notDouble⟩

theorem normal_rdfsResource : (Term.iri Vocabulary.rdfsResource).Normal := by decide +kernel

theorem normal_of_shownTypes (hqs : ∀ q ∈ qs, Writable g q) :
    ∀ t ∈ shownTypes qs defaultType, t.Normal := by
  intro t ht
  unfold shownTypes at ht
  split at ht
  · exact List.mem_singleton.mp ht ▸ normal_rdfsResource
  · obtain ⟨q, hq, -, rfl⟩ := mem_typeTerms.mp ht
    exact (hqs q hq).normal.object

theorem typesOf_eq (qs : List Quad) :
    typesOf qs = (typeTerms qs).map fun t => Json.string (nodeId t) := by
  have hmap : ((qs.filter isTypeQuad).map fun q => Json.string (nodeId q.object)) =
      ((qs.filter isTypeQuad).map (·.object)).map fun t => Json.string (nodeId t) := by
    rw [List.map_map]
    rfl
  rw [typesOf, hmap]
  refine foldl_addNew fun t ht u hu => ?_
  have hiri : ∀ t ∈ (qs.filter isTypeQuad).map (·.object), ∃ value, t = .iri value := by
    intro t ht
    obtain ⟨q, hq, rfl⟩ := List.mem_map.mp ht
    exact Term.exists_of_isIri (isTypeQuad_iff.mp (List.mem_filter.mp hq).2).2
  obtain ⟨v, rfl⟩ := hiri t ht
  obtain ⟨w, rfl⟩ := hiri u hu
  rw [(Flat.string _).beq_iff (.string _), Json.string.injEq, Term.iri.injEq]
  rfl

/-- The values of a property are those of its terms if these have different values. -/
theorem valuesOf_eq_map (h : ∀ t ∈ propertyTerms qs key, ∀ u ∈ propertyTerms qs key,
    (valueOf t == valueOf u) = true ↔ t = u) :
    valuesOf qs key = (propertyTerms qs key).map valueOf := by
  have hmap : ((qs.filter (showsUnder key)).map fun q => valueOf q.object) =
      ((qs.filter (showsUnder key)).map (·.object)).map valueOf := by
    rw [List.map_map]
    rfl
  change ((qs.filter (showsUnder key)).map fun q => valueOf q.object).foldl addNew [] = _
  rw [hmap]
  exact foldl_addNew fun t ht u hu =>
    h t (List.mem_eraseDups.mpr ht) u (List.mem_eraseDups.mpr hu)

theorem valuesOf_eq (hqs : ∀ q ∈ qs, Writable g q) (key : String) :
    valuesOf qs key = (propertyTerms qs key).map valueOf := by
  have hterm : ∀ t ∈ propertyTerms qs key,
      t.Normal ∧ t.datatype ≠ some Vocabulary.xsdDouble := normal_of_propertyTerms hqs
  exact valuesOf_eq_map fun t ht u hu =>
    valueOf_beq_iff (hterm t ht).1 (hterm t ht).2 (hterm u hu).1 (hterm u hu).2

theorem mem_propertiesOf : key ∈ propertiesOf qs ↔ propertyTerms qs key ≠ [] := by
  rw [List.ne_nil_iff_exists_cons, propertiesOf, List.mem_eraseDups, List.mem_map]
  constructor
  · rintro ⟨q, hq, hkey⟩
    obtain ⟨hq, htype⟩ := List.mem_filter.mp hq
    have hshows : showsUnder key q = true := showsUnder_iff.mpr ⟨by simpa using htype, hkey⟩
    exact List.exists_cons_of_ne_nil (List.ne_nil_of_mem
      (mem_propertyTerms.mpr ⟨q, hq, hshows, rfl⟩))
  · rintro ⟨t, ts, hts⟩
    obtain ⟨q, hq, hshows, -⟩ := mem_propertyTerms.mp (hts ▸ List.mem_cons_self (a := t))
    obtain ⟨htype, hkey⟩ := showsUnder_iff.mp hshows
    exact ⟨q, List.mem_filter.mpr ⟨hq, by rw [htype]; rfl⟩, hkey⟩

/-- What is shown under a key. -/
def member? (qs : List Quad) (defaultType : Bool) (subject : Term) (key : String) : Option Json :=
  if propertyTerms qs key ≠ [] then some (oneOrMany ((propertyTerms qs key).map valueOf))
  else if key = "@type" ∧ shownTypes qs defaultType ≠ [] then
    some (oneOrMany ((shownTypes qs defaultType).map fun t => .string (nodeId t)))
  else if key = "@id" then some (.string (nodeId subject))
  else none

/-- A node object holds the values of its properties, its types and its name. -/
theorem exists_toList_nodeOf (qs : List Quad) (defaultType : Bool) (s : Term) :
    ∃ m : SortedMap String Json, nodeOf s qs defaultType = .object m.toList ∧ ∀ key, m.get? key =
      if key ∈ propertiesOf qs then some (oneOrMany (valuesOf qs key))
      else if key = "@type" ∧ shownTypes qs defaultType ≠ [] then
        some (oneOrMany ((shownTypes qs defaultType).map fun t => .string (nodeId t)))
      else if key = "@id" then some (.string (nodeId s))
      else none := by
  have hshown : (if (typesOf qs).isEmpty && defaultType then [.string Vocabulary.rdfsResource]
      else typesOf qs) = (shownTypes qs defaultType).map fun t => Json.string (nodeId t) := by
    rw [typesOf_eq, List.isEmpty_map, shownTypes]
    split <;> rfl
  have hhead : ∀ (types : List Term) (shown : Json) (key : String),
      (("@id", Json.string (nodeId s)) ::
        if types.isEmpty then [] else [("@type", shown)]).reverse.lookup key =
      if key = "@type" ∧ types ≠ [] then some shown
      else if key = "@id" then some (.string (nodeId s)) else none := by
    intro types shown key
    cases types with
    | nil =>
      change [("@id", Json.string (nodeId s))].lookup key = _
      rw [lookup_cons_eq, if_neg (fun h : key = "@type" ∧ ([] : List Term) ≠ [] => h.2 rfl)]
      rfl
    | cons t ts =>
      change [("@type", shown), ("@id", Json.string (nodeId s))].lookup key = _
      rw [lookup_cons_eq, lookup_cons_eq]
      simp only [ne_eq, List.cons_ne_nil, not_false_eq_true, and_true]
      rfl
  simp only [nodeOf, hshown, List.isEmpty_map]
  refine ⟨_, rfl, fun key => ?_⟩
  -- the last member of a key counts, so properties are looked up before types and the name
  rw [SortedMap.get?_ofList, List.reverse_append, ← List.map_reverse, List.lookup_append,
    lookup_map_self, hhead]
  simp only [List.mem_reverse]
  by_cases hprop : key ∈ propertiesOf qs
  · rw [if_pos hprop, if_pos hprop, Option.some_or]
  · rw [if_neg hprop, if_neg hprop, Option.none_or]

private theorem exists_map (hqs : ∀ q ∈ qs, Writable g q) (defaultType : Bool) (s : Term) :
    ∃ m : SortedMap String Json, nodeOf s qs defaultType = .object m.toList ∧
      ∀ key, m.get? key = member? qs defaultType s key := by
  obtain ⟨m, hm, hget⟩ := exists_toList_nodeOf qs defaultType s
  refine ⟨m, hm, fun key => ?_⟩
  rw [hget, member?]
  simp only [mem_propertiesOf, valuesOf_eq hqs]

/-- The members of a node object. -/
def nodeMembers (s : Term) (qs : List Quad) (defaultType : Bool) : List (String × Json) :=
  ((nodeOf s qs defaultType).asObject?).getD []

theorem nodeOf_eq (s : Term) (qs : List Quad) (defaultType : Bool) :
    nodeOf s qs defaultType = .object (nodeMembers s qs defaultType) := rfl

section

variable (hqs : ∀ q ∈ qs, Writable g q)
include hqs

theorem member?_of_keyword (h : isKeyword key = true) : member? qs defaultType s key =
    if key = "@type" ∧ shownTypes qs defaultType ≠ [] then
      some (oneOrMany ((shownTypes qs defaultType).map fun t => .string (nodeId t)))
    else if key = "@id" then some (.string (nodeId s))
    else none :=
  if_neg (not_not.mpr (propertyTerms_of_keyword (fun q hq => (hqs q hq).storable) h))

theorem lookup?_nodeMembers (key : String) :
    Json.lookup? key (nodeMembers s qs defaultType) = member? qs defaultType s key := by
  obtain ⟨m, hm, hget⟩ := exists_map hqs defaultType s
  rw [nodeMembers, hm, ← hget]
  exact m.lookup_reverse_toList key

theorem mem_nodeMembers {value : Json} :
    (key, value) ∈ nodeMembers s qs defaultType ↔ member? qs defaultType s key = some value := by
  obtain ⟨m, hm, hget⟩ := exists_map hqs defaultType s
  rw [nodeMembers, hm, ← hget, SortedMap.get?_eq_some_iff]
  rfl

theorem nodup_nodeMembers : (nodeMembers s qs defaultType).Nodup := by
  obtain ⟨m, hm, -⟩ := exists_map hqs defaultType s
  rw [nodeMembers, hm]
  exact m.nodup_keys.of_map _

/-- A node object is determined by its types and its values. -/
theorem nodeOf_congr {qs' : List Quad} (hqs' : ∀ q ∈ qs', Writable g q)
    (htypes : shownTypes qs' defaultType = shownTypes qs defaultType)
    (hvalues : ∀ key, propertyTerms qs' key = propertyTerms qs key) (s : Term) :
    nodeOf s qs' defaultType = nodeOf s qs defaultType := by
  obtain ⟨m, hm, hget⟩ := exists_map hqs defaultType s
  obtain ⟨m', hm', hget'⟩ := exists_map hqs' defaultType s
  have hmap : m' = m := by
    refine SortedMap.ext fun key => ?_
    rw [hget, hget', member?, member?, htypes, hvalues]
  rw [hm, hm', hmap]

end

/-! ## Reading members back -/

/-- Reading one member of a node object. -/
def readMember (g : Term) (c : Context) (s : Term) (m : String × Json) : Reader (List Quad) :=
  if m.1 = "@context" ∨ m.1 = "@id" then pure []
  else if m.1 = "@type" then liftM (typeQuads g c s m.2)
  else if isKeyword m.1 then throw (.nodeKeyword m.1)
  else liftM (c.expand m.1 true) >>= fun p => readValue g c s p m.2

theorem readMembers_cons (c : Context) (m : String × Json) (ms : List (String × Json)) :
    readMembers g c s (m :: ms) = readMember g c s m >>= fun quads =>
      readMembers g c s ms >>= fun more => pure (quads ++ more) := by
  obtain ⟨key, value⟩ := m
  rw [readMembers, readMember]
  dsimp only
  split
  · rfl
  split
  · rfl
  split
  · rfl
  · exact (bind_assoc ..).symm

/-- The quads that a member stands for. -/
def memberQuads (g s : Term) (qs : List Quad) (defaultType : Bool) (key : String) : List Quad :=
  if key = "@id" then []
  else if key = "@type" then
    (shownTypes qs defaultType).map (⟨s, .iri Vocabulary.rdfType, ·, g⟩)
  else (propertyTerms qs key).map (⟨s, .iri key, ·, g⟩)

/-- The quads that a node object is read back as. -/
def nodeQuads (g s : Term) (qs : List Quad) (defaultType : Bool) : List Quad :=
  (nodeMembers s qs defaultType).flatMap fun m => memberQuads g s qs defaultType m.1

theorem keys_apart {value : String} (h : Term.checkIri value = .ok ()) :
    value ≠ "@context" ∧ value ≠ "@id" ∧ value ≠ "@type" ∧ value ≠ "@graph" ∧ value ≠ "@value" := by
  have hkeyword := isKeyword_of_checkIri h
  refine ⟨?_, ?_, ?_, ?_, ?_⟩ <;>
  · rintro rfl
    cases hkeyword

theorem returns_readMember (hqs : ∀ q ∈ qs, Writable g q) {m : String × Json}
    (hm : m ∈ nodeMembers s qs defaultType) :
    Returns (readMember g {} s m) (memberQuads g s qs defaultType m.1) := by
  obtain ⟨key, value⟩ := m
  have hmember := (mem_nodeMembers hqs).mp hm
  rw [member?] at hmember
  split at hmember
  next hprop =>
    have hcheck := checkIri_of_propertyTerms (fun q hq => (hqs q hq).storable) hprop
    obtain ⟨hcontext, hid, htype, -⟩ := keys_apart hcheck
    obtain rfl := Option.some.inj hmember
    have hread : readMember g {} s (key, oneOrMany ((propertyTerms qs key).map valueOf)) =
        liftM (Context.expand {} key true) >>= fun p =>
          readValue g {} s p (oneOrMany ((propertyTerms qs key).map valueOf)) := by
      rw [readMember, if_neg (not_or.mpr ⟨hcontext, hid⟩), if_neg htype,
        isKeyword_of_checkIri hcheck, if_neg Bool.false_ne_true]
    rw [hread, memberQuads, if_neg hid, if_neg htype]
    exact (Returns.lift (Context.expand_iri hcheck true)).bind
      (readValue_oneOrMany (normal_of_propertyTerms hqs))
  split at hmember
  next htype =>
    obtain ⟨rfl, -⟩ := htype
    obtain rfl := Option.some.inj hmember
    exact Returns.lift (typeQuads_oneOrMany fun t ht =>
      ⟨normal_of_shownTypes hqs t ht, shownTypes_isIri t ht⟩)
  next =>
    rw [Option.ite_none_right_eq_some] at hmember
    obtain ⟨rfl, -⟩ := hmember
    exact .pure []

/-- A node object is read back as the quads of its members. -/
theorem returns_readNode (hqs : ∀ q ∈ qs, Writable g q) (hs : s.Normal) (hl : s.isLiteral = false) :
    Returns (readNode g {} (nodeMembers s qs defaultType)) (nodeQuads g s qs defaultType) := by
  have hmembers : ∀ members ⊆ nodeMembers s qs defaultType,
      Returns (readMembers g {} s members)
        (members.flatMap fun m => memberQuads g s qs defaultType m.1) := by
    intro members hmem
    induction members with
    | nil => exact .pure []
    | cons m members ih =>
      obtain ⟨hm, hmore⟩ := List.cons_subset.mp hmem
      rw [readMembers_cons]
      exact (returns_readMember hqs hm).bind ((ih hmore).bind (.pure _))
  have hhead : Returns (nodeHead {} (nodeMembers s qs defaultType)) ({}, s) := by
    refine returns_nodeHead ?_ ?_ (expand_nodeId hs hl false)
    · rw [lookup?_nodeMembers hqs, member?_of_keyword hqs rfl]
      rfl
    · rw [lookup?_nodeMembers hqs, member?_of_keyword hqs rfl]
      rfl
  exact hhead.bind (hmembers _ (List.Subset.refl _))

/-! ## The quads of a node object -/

theorem showsUnder_of_memberQuads (hkey : key ≠ "@type")
    (hq : q ∈ memberQuads g s qs defaultType key) : showsUnder key q = true := by
  rw [memberQuads, if_neg hkey] at hq
  split at hq
  · cases hq
  obtain ⟨t, ht, rfl⟩ := List.mem_map.mp hq
  obtain ⟨u, -, hshows, rfl⟩ := mem_propertyTerms.mp ht
  obtain ⟨htype, hkey⟩ := showsUnder_iff.mp hshows
  refine showsUnder_iff.mpr ⟨?_, rfl⟩
  rw [isTypeQuad, hkey] at htype
  exact htype

theorem isTypeQuad_of_memberQuads (hq : q ∈ memberQuads g s qs defaultType "@type") :
    isTypeQuad q = true := by
  obtain ⟨t, ht, rfl⟩ := List.mem_map.mp hq
  exact isTypeQuad_iff.mpr ⟨rfl, shownTypes_isIri t ht⟩

section

variable (hqs : ∀ q ∈ qs, Writable g q)
include hqs

/-- Keeping only some of the quads leaves those of one member. -/
private theorem filter_nodeQuads {p : Quad → Bool} {quads : List Quad}
    (hkey : (memberQuads g s qs defaultType key).filter p = quads)
    (hother : ∀ other, other ≠ key → ∀ q ∈ memberQuads g s qs defaultType other, p q = false)
    (hnone : member? qs defaultType s key = none → quads = []) :
    (nodeQuads g s qs defaultType).filter p = quads := by
  have hother : ∀ other, other ≠ key → (memberQuads g s qs defaultType other).filter p = [] :=
    fun other hne => List.filter_eq_nil_iff.mpr fun q hq => by
      rw [hother other hne q hq]
      exact Bool.false_ne_true
  rw [nodeQuads, List.filter_flatMap]
  cases hmember : member? qs defaultType s key with
  | none =>
    rw [hnone hmember]
    refine List.flatMap_eq_nil_iff.mpr fun m hm => hother _ ?_
    rintro rfl
    rw [(mem_nodeMembers hqs).mp hm] at hmember
    cases hmember
  | some value =>
    -- keys differ, so no other member has a quad that is kept
    rw [flatMap_eq_of_unique (nodup_nodeMembers hqs) ((mem_nodeMembers hqs).mpr hmember), hkey]
    intro m hm hne
    refine hother _ fun hkey => hne ?_
    have hvalue := (mem_nodeMembers hqs).mp hm
    rw [hkey, hmember] at hvalue
    exact Prod.ext hkey (Option.some.inj hvalue).symm

theorem filter_isTypeQuad_nodeQuads : (nodeQuads g s qs defaultType).filter isTypeQuad =
    (shownTypes qs defaultType).map (⟨s, .iri Vocabulary.rdfType, ·, g⟩) := by
  have htypes : (memberQuads g s qs defaultType "@type").filter isTypeQuad =
      (shownTypes qs defaultType).map (⟨s, .iri Vocabulary.rdfType, ·, g⟩) :=
    List.filter_eq_self.mpr fun q hq => isTypeQuad_of_memberQuads hq
  refine filter_nodeQuads hqs htypes (fun other hne q hq => ?_) fun hnone => ?_
  · exact (showsUnder_iff.mp (showsUnder_of_memberQuads hne hq)).1
  · rw [member?_of_keyword hqs rfl] at hnone
    by_cases hshown : shownTypes qs defaultType = []
    · rw [hshown]
      rfl
    · rw [if_pos ⟨rfl, hshown⟩] at hnone
      cases hnone

theorem filter_showsUnder_nodeQuads (key : String) :
    (nodeQuads g s qs defaultType).filter (showsUnder key) =
      (propertyTerms qs key).map (⟨s, .iri key, ·, g⟩) := by
  have hkeep : (memberQuads g s qs defaultType key).filter (showsUnder key) =
      (propertyTerms qs key).map (⟨s, .iri key, ·, g⟩) := by
    by_cases htype : key = "@type"
    · subst htype
      rw [propertyTerms_of_keyword (fun q hq => (hqs q hq).storable) rfl]
      refine List.filter_eq_nil_iff.mpr fun q hq hshows => ?_
      have hfalse := (showsUnder_iff.mp hshows).1
      rw [isTypeQuad_of_memberQuads hq] at hfalse
      cases hfalse
    by_cases hid : key = "@id"
    · subst hid
      rw [propertyTerms_of_keyword (fun q hq => (hqs q hq).storable) rfl]
      rfl
    have hmember : memberQuads g s qs defaultType key =
        (propertyTerms qs key).map (⟨s, .iri key, ·, g⟩) := by
      rw [memberQuads, if_neg hid, if_neg htype]
    rw [← hmember]
    exact List.filter_eq_self.mpr fun q hq => showsUnder_of_memberQuads htype hq
  refine filter_nodeQuads hqs hkeep (fun other hne q hq => ?_) fun hnone => ?_
  · refine Bool.not_eq_true _ ▸ fun hshows => ?_
    obtain ⟨htype, hkey⟩ := showsUnder_iff.mp hshows
    by_cases hother : other = "@type"
    · rw [isTypeQuad_of_memberQuads (hother ▸ hq)] at htype
      cases htype
    · exact hne ((showsUnder_iff.mp (showsUnder_of_memberQuads hother hq)).2.symm.trans hkey)
  · rw [member?] at hnone
    split at hnone
    · cases hnone
    next hprop =>
      rw [not_not.mp hprop]
      rfl

/-- The types are kept. -/
theorem typeTerms_nodeQuads :
    typeTerms (nodeQuads g s qs defaultType) = shownTypes qs defaultType := by
  rw [typeTerms, filter_isTypeQuad_nodeQuads hqs, List.map_map]
  exact (congrArg List.eraseDups (List.map_id _)).trans (eraseDups_of_nodup nodup_shownTypes)

/-- The values are kept, in their order. -/
theorem propertyTerms_nodeQuads (key : String) :
    propertyTerms (nodeQuads g s qs defaultType) key = propertyTerms qs key := by
  rw [propertyTerms, filter_showsUnder_nodeQuads hqs, List.map_map]
  exact (congrArg List.eraseDups (List.map_id _)).trans
    (eraseDups_of_nodup (nodup_eraseDups _))

end

/-- The quad that says of a resource without a type that it is one. -/
def resourceQuad (g s : Term) : Quad :=
  ⟨s, .iri Vocabulary.rdfType, .iri Vocabulary.rdfsResource, g⟩

theorem Writable.resourceQuad (h : Writable g q) :
    Writable g (LinkedData.resourceQuad g q.subject) := by
  have hgraph := h.graph
  have hterms := h.storable.terms
  have hdefault := h.storable.notDefault
  have hskolem := h.storable.notSkolem
  simp only [List.forall_mem_cons, hgraph] at hterms hdefault hskolem
  obtain ⟨hs, -, -, hg, hnil⟩ := hterms
  obtain ⟨hsd, -, -, hdnil⟩ := hdefault
  obtain ⟨hsk, -, -, hgk, hknil⟩ := hskolem
  have htype : (Term.iri Vocabulary.rdfType).Normal := by decide +kernel
  refine ⟨rfl, ⟨?_, h.storable.subject, rfl, hgraph ▸ h.storable.graph, ?_, ?_⟩,
    ⟨h.normal.subject, htype, normal_rdfsResource, hgraph ▸ h.normal.graph⟩, nofun⟩
  · simp only [LinkedData.resourceQuad, List.forall_mem_cons]
    exact ⟨hs, htype.check, normal_rdfsResource.check, hg, hnil⟩
  · simp only [LinkedData.resourceQuad, List.forall_mem_cons]
    exact ⟨hsd, by decide, by decide, hdnil⟩
  · simp only [LinkedData.resourceQuad, List.forall_mem_cons]
    exact ⟨hsk, by decide, by decide, hgk, hknil⟩

section

variable (hqs : ∀ q ∈ qs, Writable g q) (hs : ∀ q ∈ qs, q.subject = s)
include hqs hs

private theorem eq_of_parts (hq : q ∈ qs) :
    (⟨s, .iri q.predicate.lexical, q.object, g⟩ : Quad) = q := by
  obtain ⟨value, hp, -⟩ := exists_predicate (hqs q hq).storable
  obtain rfl := hs q hq
  obtain rfl := (hqs q hq).graph
  rw [hp]
  exact congrArg (fun p => (⟨q.subject, p, q.object, q.graph⟩ : Quad)) hp.symm

/-- The quads of a subject that give types are known by these. -/
theorem mem_iff_of_isTypeQuad (htype : isTypeQuad q = true) :
    q ∈ qs ↔ ∃ t ∈ typeTerms qs, (⟨s, .iri Vocabulary.rdfType, t, g⟩ : Quad) = q := by
  constructor
  · intro hq
    have hself := eq_of_parts hqs hs hq
    rw [(isTypeQuad_iff.mp htype).1] at hself
    exact ⟨q.object, mem_typeTerms.mpr ⟨q, hq, htype, rfl⟩, hself⟩
  · rintro ⟨t, ht, rfl⟩
    obtain ⟨u, hu, hutype, rfl⟩ := mem_typeTerms.mp ht
    have hself := eq_of_parts hqs hs hu
    rw [(isTypeQuad_iff.mp hutype).1] at hself
    exact hself ▸ hu

/-- The other quads of a subject are known by the values of their properties. -/
theorem mem_iff_of_showsUnder (hshows : showsUnder key q = true) :
    q ∈ qs ↔ ∃ t ∈ propertyTerms qs key, (⟨s, .iri key, t, g⟩ : Quad) = q := by
  constructor
  · intro hq
    have hself := eq_of_parts hqs hs hq
    rw [(showsUnder_iff.mp hshows).2] at hself
    exact ⟨q.object, mem_propertyTerms.mpr ⟨q, hq, hshows, rfl⟩, hself⟩
  · rintro ⟨t, ht, rfl⟩
    obtain ⟨u, hu, hushows, rfl⟩ := mem_propertyTerms.mp ht
    have hself := eq_of_parts hqs hs hu
    rw [(showsUnder_iff.mp hushows).2] at hself
    exact hself ▸ hu

/-- A node object is read back as the quads that it was made of, and the one that gives its subject
a type if it has none. -/
theorem mem_nodeQuads : q ∈ nodeQuads g s qs defaultType ↔
    q ∈ qs ∨ (typeTerms qs = [] ∧ defaultType = true) ∧ q = resourceQuad g s := by
  -- only the types give a quad of this kind, and only its own property gives another quad
  cases htype : isTypeQuad q with
  | true =>
    have hmem : q ∈ nodeQuads g s qs defaultType ↔
        q ∈ (nodeQuads g s qs defaultType).filter isTypeQuad := by
      rw [List.mem_filter, htype, and_iff_left rfl]
    rw [hmem, filter_isTypeQuad_nodeQuads hqs, List.mem_map, mem_iff_of_isTypeQuad hqs hs htype,
      shownTypes]
    split
    next hempty =>
      obtain ⟨hnil, hdefault⟩ := Bool.and_eq_true_iff.mp hempty
      have hnil := List.isEmpty_iff.mp hnil
      simp only [hnil, hdefault, List.mem_singleton, List.not_mem_nil, false_and, exists_false,
        false_or, and_self, true_and, exists_eq_left]
      exact eq_comm
    next hne =>
      refine (or_iff_left fun ⟨⟨hnil, hdefault⟩, _⟩ => hne ?_).symm
      rw [hnil, hdefault]
      rfl
  | false =>
    have hshows : showsUnder q.predicate.lexical q = true := showsUnder_iff.mpr ⟨htype, rfl⟩
    have hmem : q ∈ nodeQuads g s qs defaultType ↔
        q ∈ (nodeQuads g s qs defaultType).filter (showsUnder q.predicate.lexical) := by
      rw [List.mem_filter, hshows, and_iff_left rfl]
    rw [hmem, filter_showsUnder_nodeQuads hqs, List.mem_map, mem_iff_of_showsUnder hqs hs hshows]
    refine (or_iff_left ?_).symm
    rintro ⟨-, rfl⟩
    cases htype

end

/-- The quads that a node object is read back as make up the same node object. -/
theorem nodeOf_nodeQuads (hqs : ∀ q ∈ qs, Writable g q)
    (hnode : ∀ q ∈ nodeQuads g s qs defaultType, Writable g q) (t : Term) :
    nodeOf t (nodeQuads g s qs defaultType) defaultType = nodeOf t qs defaultType :=
  nodeOf_congr hqs hnode (shownTypes_of_typeTerms (typeTerms_nodeQuads hqs))
    (propertyTerms_nodeQuads hqs) t

end DualStore.LinkedData
