import DualStore.Proofs.LinkedNodes

/-! Linked-data documents. The document of quads of one graph is read back as these quads, and a
resource that makes up a document without having a type gets one; the document of what was read is
the same document (`quadsOf_documentOf`). -/

namespace DualStore.LinkedData

variable {g s : Term} {qs : List Quad} {q : Quad}

/-! ## Subjects -/

/-- The quads of a subject. -/
def blockOf (qs : List Quad) (s : Term) : List Quad := qs.filter (·.subject = s)

/-- The quads make up a single node object. -/
def isSingle (qs : List Quad) : Bool := (subjectsOf qs).length = 1

/-- The quads that the document of some quads is read back as. -/
def documentQuads (g : Term) (qs : List Quad) : List Quad :=
  (subjectsOf qs).flatMap fun s => nodeQuads g s (blockOf qs s) (isSingle qs)

theorem mem_blockOf : q ∈ blockOf qs s ↔ q ∈ qs ∧ q.subject = s := by
  rw [blockOf, List.mem_filter, decide_eq_true_iff]

theorem mem_subjectsOf : s ∈ subjectsOf qs ↔ ∃ q ∈ qs, q.subject = s := by
  rw [subjectsOf, List.mem_eraseDups, List.mem_map]

theorem subjectsOf_eq_singleton :
    subjectsOf qs = [s] ↔ qs ≠ [] ∧ ∀ q ∈ qs, q.subject = s := by
  constructor
  · intro h
    refine ⟨?_, fun q hq => ?_⟩
    · rintro rfl
      cases h
    · have hmem : q.subject ∈ subjectsOf qs := mem_subjectsOf.mpr ⟨q, hq, rfl⟩
      rwa [h, List.mem_singleton] at hmem
  · rintro ⟨hne, hall⟩
    exact eraseDups_of_forall_eq (mt List.map_eq_nil_iff.mp hne) (List.forall_mem_map.mpr hall)

theorem blockOf_eq_self (h : subjectsOf qs = [s]) : blockOf qs s = qs :=
  List.filter_eq_self.mpr fun q hq => decide_eq_true ((subjectsOf_eq_singleton.mp h).2 q hq)

theorem documentOf_single (h : subjectsOf qs = [s]) :
    documentOf qs = nodeOf s (blockOf qs s) true := by
  rw [documentOf, h, blockOf_eq_self h]

theorem documentOf_many (h : isSingle qs = false) : documentOf qs =
    .object [("@graph", .array ((subjectsOf qs).map fun s => nodeOf s (blockOf qs s) false))] := by
  rw [isSingle, decide_eq_false_iff_not] at h
  unfold documentOf
  split
  next heq =>
    rw [heq] at h
    exact absurd rfl h
  next => rfl

section

variable (hqs : ∀ q ∈ qs, Writable g q)
include hqs

theorem writable_blockOf : ∀ q ∈ blockOf qs s, Writable g q := fun q hq =>
  hqs q (mem_blockOf.mp hq).1

theorem mem_nodeQuads_blockOf {defaultType : Bool} : q ∈ nodeQuads g s (blockOf qs s) defaultType ↔
    (q ∈ qs ∧ q.subject = s) ∨
      (typeTerms (blockOf qs s) = [] ∧ defaultType = true) ∧ q = resourceQuad g s := by
  rw [← mem_blockOf]
  exact mem_nodeQuads (writable_blockOf hqs) fun q hq => (mem_blockOf.mp hq).2

theorem mem_documentQuads : q ∈ documentQuads g qs ↔
    q ∈ qs ∨ ∃ s, subjectsOf qs = [s] ∧ typeTerms qs = [] ∧ q = resourceQuad g s := by
  rw [documentQuads, List.mem_flatMap]
  constructor
  · rintro ⟨s, hs, hq⟩
    rcases (mem_nodeQuads_blockOf hqs).mp hq with ⟨hq, -⟩ | ⟨⟨htypes, hsingle⟩, rfl⟩
    · exact .inl hq
    · obtain ⟨s', hs'⟩ := List.length_eq_one_iff.mp (of_decide_eq_true hsingle)
      obtain rfl : s = s' := List.mem_singleton.mp (hs' ▸ hs)
      rw [blockOf_eq_self hs'] at htypes
      exact .inr ⟨s, hs', htypes, rfl⟩
  · rintro (hq | ⟨s, hs, htypes, rfl⟩)
    · exact ⟨q.subject, mem_subjectsOf.mpr ⟨q, hq, rfl⟩,
        (mem_nodeQuads_blockOf hqs).mpr (.inl ⟨hq, rfl⟩)⟩
    · refine ⟨s, hs ▸ List.mem_singleton_self s,
        (mem_nodeQuads_blockOf hqs).mpr (.inr ⟨⟨?_, ?_⟩, rfl⟩)⟩
      · rw [blockOf_eq_self hs, htypes]
      · rw [isSingle, hs]
        rfl

/-- Everything that is read back may be stored. -/
theorem writable_documentQuads : ∀ q ∈ documentQuads g qs, Writable g q := by
  intro q hq
  rcases (mem_documentQuads hqs).mp hq with hq | ⟨s, hs, -, rfl⟩
  · exact hqs q hq
  · have hmem : s ∈ subjectsOf qs := hs ▸ List.mem_singleton_self s
    obtain ⟨u, hu, rfl⟩ := mem_subjectsOf.mp hmem
    exact (hqs u hu).resourceQuad

theorem subject_of_nodeQuads : ∀ q ∈ nodeQuads g s (blockOf qs s) (isSingle qs), q.subject = s := by
  intro q hq
  rcases (mem_nodeQuads_blockOf hqs).mp hq with ⟨-, hsubject⟩ | ⟨-, rfl⟩
  · exact hsubject
  · rfl

theorem nodeQuads_ne_nil (hs : s ∈ subjectsOf qs) :
    nodeQuads g s (blockOf qs s) (isSingle qs) ≠ [] := by
  obtain ⟨q, hq, rfl⟩ := mem_subjectsOf.mp hs
  exact List.ne_nil_of_mem ((mem_nodeQuads_blockOf hqs).mpr (.inl ⟨hq, rfl⟩))

end

/-! ## Blocks of quads -/

section

variable {ss : List Term} {f : Term → List Quad} (hss : ss.Nodup)
  (hf : ∀ s ∈ ss, ∀ q ∈ f s, q.subject = s)
include hss hf

theorem subjectsOf_flatMap (hne : ∀ s ∈ ss, f s ≠ []) : subjectsOf (ss.flatMap f) = ss := by
  induction ss with
  | nil => rfl
  | cons s ss ih =>
    obtain ⟨hs, hss⟩ := List.nodup_cons.mp hss
    obtain ⟨hfs, hfss⟩ := List.forall_mem_cons.mp hf
    obtain ⟨hnes, hness⟩ := List.forall_mem_cons.mp hne
    -- the first quads have one subject, and it does not come back
    have hfirst : ((f s).map (·.subject)).eraseDups = [s] :=
      eraseDups_of_forall_eq (mt List.map_eq_nil_iff.mp hnes) (List.forall_mem_map.mpr hfs)
    have hrest : ((ss.flatMap f).map (·.subject)).removeAll ((f s).map (·.subject)) =
        (ss.flatMap f).map (·.subject) := by
      refine List.filter_eq_self.mpr fun t ht => ?_
      obtain ⟨q, hq, rfl⟩ := List.mem_map.mp ht
      obtain ⟨u, hu, hq⟩ := List.mem_flatMap.mp hq
      have hnot : q.subject ∉ (f s).map (·.subject) := by
        rw [hfss u hu q hq]
        intro hmem
        obtain ⟨v, hv, rfl⟩ := List.mem_map.mp hmem
        exact hs (hfs v hv ▸ hu)
      simpa using hnot
    rw [subjectsOf, List.flatMap_cons, List.map_append, List.eraseDups_append, hfirst, hrest]
    exact congrArg (s :: ·) (ih hss hfss hness)

theorem blockOf_flatMap (hs : s ∈ ss) : blockOf (ss.flatMap f) s = f s := by
  have hself : (f s).filter (·.subject = s) = f s :=
    List.filter_eq_self.mpr fun q hq => decide_eq_true (hf s hs q hq)
  rw [blockOf, List.filter_flatMap, flatMap_eq_of_unique hss hs, hself]
  intro t ht hne
  refine List.filter_eq_nil_iff.mpr fun q hq hsubject => hne ?_
  rw [← hf t ht q hq]
  exact of_decide_eq_true hsubject

end

section

variable (hqs : ∀ q ∈ qs, Writable g q)
include hqs

theorem subjectsOf_documentQuads : subjectsOf (documentQuads g qs) = subjectsOf qs :=
  subjectsOf_flatMap (nodup_eraseDups _) (fun _ _ => subject_of_nodeQuads hqs)
    fun _ hs => nodeQuads_ne_nil hqs hs

theorem nodeOf_documentQuads (hs : s ∈ subjectsOf qs) :
    nodeOf s (blockOf (documentQuads g qs) s) (isSingle qs) =
      nodeOf s (blockOf qs s) (isSingle qs) := by
  have hblock : blockOf (documentQuads g qs) s = nodeQuads g s (blockOf qs s) (isSingle qs) :=
    blockOf_flatMap (nodup_eraseDups _) (fun _ _ => subject_of_nodeQuads hqs) hs
  rw [hblock]
  refine nodeOf_nodeQuads (writable_blockOf hqs) (fun q hq => ?_) s
  exact writable_documentQuads hqs q (List.mem_flatMap.mpr ⟨s, hs, hq⟩)

/-- The document of what is read back is the same document. -/
theorem documentOf_documentQuads : documentOf (documentQuads g qs) = documentOf qs := by
  have hsubjects := subjectsOf_documentQuads hqs
  have hnode := fun s (hs : s ∈ subjectsOf qs) => nodeOf_documentQuads hqs hs
  cases hsingle : isSingle qs with
  | true =>
    obtain ⟨s, hs⟩ := List.length_eq_one_iff.mp (of_decide_eq_true hsingle)
    rw [documentOf_single (hsubjects.trans hs), documentOf_single hs]
    have := hnode s (hs ▸ List.mem_singleton_self s)
    rwa [hsingle] at this
  | false =>
    have hsingle' : isSingle (documentQuads g qs) = false := by
      rw [isSingle, hsubjects]
      exact hsingle
    rw [documentOf_many hsingle', documentOf_many hsingle, hsubjects]
    rw [hsingle] at hnode
    rw [List.map_congr_left hnode]

/-! ## Reading documents back -/

theorem returns_blockOf (hs : s ∈ subjectsOf qs) {defaultType : Bool} :
    Returns (readNode g {} (nodeMembers s (blockOf qs s) defaultType))
      (nodeQuads g s (blockOf qs s) defaultType) := by
  obtain ⟨q, hq, rfl⟩ := mem_subjectsOf.mp hs
  have h := hqs q hq
  exact returns_readNode (writable_blockOf hqs) h.normal.subject
    (Term.isLiteral_of_isIri_or h.storable.subject)

/-- Each node object of a document is read back by itself. -/
theorem returns_readNodes (fault : DocumentFault) {ss : List Term} (hss : ss ⊆ subjectsOf qs)
    (defaultType : Bool) :
    Returns (readNodes g {} fault (ss.map fun s => nodeOf s (blockOf qs s) defaultType))
      (ss.flatMap fun s => nodeQuads g s (blockOf qs s) defaultType) := by
  induction ss with
  | nil => exact .pure []
  | cons s ss ih =>
    obtain ⟨hs, hss⟩ := List.cons_subset.mp hss
    rw [List.map_cons, nodeOf_eq, readNodes]
    exact (returns_blockOf hqs hs).bind ((ih hss).bind (.pure _))

theorem returns_readDocument :
    Returns (readDocument (documentOf qs) (some g)) (documentQuads g qs) := by
  cases hsingle : isSingle qs with
  | true =>
    obtain ⟨s, hs⟩ := List.length_eq_one_iff.mp (of_decide_eq_true hsingle)
    have hgraph : Json.lookup? "@graph" (nodeMembers s (blockOf qs s) true) = none := by
      rw [lookup?_nodeMembers (writable_blockOf hqs), member?_of_keyword (writable_blockOf hqs) rfl]
      rfl
    rw [documentOf_single hs, nodeOf_eq, readDocument, hgraph, documentQuads, hs, hsingle,
      List.flatMap_singleton]
    exact returns_blockOf hqs (hs ▸ List.mem_singleton_self s)
  | false =>
    rw [documentOf_many hsingle, documentQuads, hsingle]
    exact returns_readNodes hqs .badGraphItem (List.Subset.refl _) false

end

theorem checkAll_eq_ok : checkAll qs = .ok () ↔ ∀ q ∈ qs, q.Storable := by
  induction qs with
  | nil => exact iff_of_true rfl (List.forall_mem_nil _)
  | cons q qs ih =>
    rw [checkAll, check_bind_eq_ok, mapError_eq_ok, Quad.checkStorable_eq_ok, ih,
      List.forall_mem_cons]

/-! ## The round trip -/

theorem typeTerms_eq_nil (hqs : ∀ q ∈ qs, q.predicate.isIri = true) : typeTerms qs = [] ↔
    ∀ q ∈ qs, q.predicate = .iri Vocabulary.rdfType → q.object.isIri = false := by
  rw [List.eq_nil_iff_forall_not_mem]
  constructor
  · intro h q hq hp
    refine Bool.not_eq_true _ ▸ fun hiri => h q.object (mem_typeTerms.mpr ⟨q, hq, ?_, rfl⟩)
    exact isTypeQuad_iff.mpr ⟨by rw [hp]; rfl, hiri⟩
  · intro h t ht
    obtain ⟨q, hq, htype, rfl⟩ := mem_typeTerms.mp ht
    obtain ⟨hp, hiri⟩ := isTypeQuad_iff.mp htype
    obtain ⟨value, hpredicate⟩ := Term.exists_of_isIri (hqs q hq)
    rw [hpredicate] at hp
    rw [h q hq (hpredicate.trans (congrArg Term.iri hp))] at hiri
    cases hiri

/-- The document of quads of one graph is read back, without new blank nodes, as these quads, and a
type for a single subject that has none. They have the same document. -/
theorem quadsOf_documentOf (hgraph : ∀ q ∈ qs, q.graph = g) (hstorable : ∀ q ∈ qs, q.Storable)
    (hbuilt : ∀ q ∈ qs, ∀ t ∈ [q.subject, q.predicate, q.object, q.graph], t.Built)
    (hdouble : ∀ q ∈ qs, q.object.datatype ≠ some Vocabulary.xsdDouble) (next : Nat) :
    ∃ quads, quadsOf (documentOf qs) (some g) next = .ok (quads, next) ∧
      (∀ q, q ∈ quads ↔ q ∈ qs ∨ ∃ s, (qs ≠ [] ∧ ∀ u ∈ qs, u.subject = s) ∧
        (∀ u ∈ qs, u.predicate = .iri Vocabulary.rdfType → u.object.isIri = false) ∧
        q = ⟨s, .iri Vocabulary.rdfType, .iri Vocabulary.rdfsResource, g⟩) ∧
      documentOf quads = documentOf qs := by
  have hqs : ∀ q ∈ qs, Writable g q := fun q hq =>
    ⟨hgraph q hq, hstorable q hq, Quad.normal_of_built (hbuilt q hq), hdouble q hq⟩
  refine ⟨documentQuads g qs, ?_, fun q => ?_, documentOf_documentQuads hqs⟩
  · have hcheck := checkAll_eq_ok.mpr fun q hq => (writable_documentQuads hqs q hq).storable
    rw [quadsOf]
    refine bind_eq_ok.mpr ⟨_, returns_readDocument hqs next, ?_⟩
    exact check_bind_eq_ok.mpr ⟨hcheck, rfl⟩
  · rw [mem_documentQuads hqs]
    simp only [subjectsOf_eq_singleton, typeTerms_eq_nil fun q hq => (hstorable q hq).predicate]
    rfl

/-- A blank node whose type is no IRI is read back with one that is. -/
theorem quadsOf_documentOf_untyped :
    let g : Term := .iri "x:g"
    let qs : List Quad :=
      [⟨.blank "b", .iri Vocabulary.rdfType, .blank "c", g⟩,
        ⟨.blank "b", .iri "x:p", .literal ⟨"5", some Vocabulary.xsdInteger, none⟩, g⟩,
        ⟨.blank "b", .iri "x:p", .literal ⟨"v", none, some "en"⟩, g⟩]
    ∃ quads, quadsOf (documentOf qs) (some g) 0 = .ok (quads, 0) ∧
      ⟨.blank "b", .iri Vocabulary.rdfType, .iri Vocabulary.rdfsResource, g⟩ ∈ quads ∧
      documentOf quads = documentOf qs := by
  intro g qs
  have hchecks : ∀ q ∈ qs, q.checkStorable = .ok () := by decide +kernel
  have hnormal : ∀ q ∈ qs, ∀ t ∈ [q.subject, q.predicate, q.object, q.graph], t.Normal := by
    decide +kernel
  have hgraph : ∀ q ∈ qs, q.graph = g := by decide
  have hdouble : ∀ q ∈ qs, q.object.datatype ≠ some Vocabulary.xsdDouble := by decide
  have hsubject : qs ≠ [] ∧ ∀ q ∈ qs, q.subject = .blank "b" := by decide
  have htype : ∀ q ∈ qs, q.predicate = .iri Vocabulary.rdfType → q.object.isIri = false := by
    decide
  obtain ⟨quads, hread, hmem, hdocument⟩ := quadsOf_documentOf hgraph
    (fun q hq => Quad.checkStorable_eq_ok.mp (hchecks q hq))
    (fun q hq t ht => Term.built_iff_normal.mpr (hnormal q hq t ht)) hdouble 0
  exact ⟨quads, hread, (hmem _).mpr (.inr ⟨_, hsubject, htype, rfl⟩), hdocument⟩

end DualStore.LinkedData
