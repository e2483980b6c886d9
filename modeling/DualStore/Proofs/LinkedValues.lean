import DualStore.LinkedData.Read
import DualStore.LinkedData.Write
import DualStore.Proofs.BuiltTerms
import DualStore.Proofs.Collections

/-! The values of properties in linked-data documents. What is written for a term is read back as
that term (`readValue_valueOf`), so different terms have different values (`valueOf_beq_iff`).
Literals with the datatype of doubles are left out: their numbers may be written differently. -/

namespace DualStore

/-- A well-formed IRI starts with a letter and has a colon. -/
theorem Term.exists_of_checkIri {value : String} (h : checkIri value = .ok ()) :
    ∃ c cs, value.toList = c :: cs ∧ c.isAlpha = true ∧ ':' ∈ value.toList := by
  unfold checkIri at h
  split at h
  · cases h
  next scheme rest hsplit =>
    obtain ⟨colon, hcolon, hvalue, -⟩ := Text.splitAt?_eq_some hsplit
    obtain rfl := of_decide_eq_true hcolon
    have hmem : ':' ∈ value.toList := hvalue ▸ List.mem_append_right _ List.mem_cons_self
    split at h
    · cases h
    next hscheme =>
      rw [Bool.not_eq_true', Bool.not_eq_false] at hscheme
      cases scheme with
      | nil => cases hscheme
      | cons c cs => exact ⟨c, _, hvalue, (Bool.and_eq_true_iff.mp hscheme).1, hmem⟩

namespace LinkedData

variable {t u : Term} {value lexical : String} {g s p : Term}

/-! ## Names -/

theorem isKeyword_of_checkIri (h : Term.checkIri value = .ok ()) : isKeyword value = false := by
  obtain ⟨c, cs, hvalue, hc, -⟩ := Term.exists_of_checkIri h
  rw [isKeyword, hvalue, List.head?_cons, decide_eq_false_iff_not]
  rintro hat
  rw [Option.some.inj hat] at hc
  cases hc

namespace Context

private theorem expandPrefix?_empty (value : String) : expandPrefix? ∅ value = none := by
  unfold expandPrefix?
  split
  · rfl
  split <;> rfl

/-- Without a context, a well-formed IRI stands for itself. -/
theorem expand_iri (h : Term.checkIri value = .ok ()) (vocabulary : Bool) :
    expand {} value vocabulary = .ok (.iri value) := by
  obtain ⟨c, cs, hvalue, hc, hcolon⟩ := Term.exists_of_checkIri h
  have hblank : ['_', ':'].isPrefixOf value.toList = false := by
    have hne : '_' ≠ c := by
      rintro rfl
      cases hc
    rw [hvalue, List.isPrefixOf, beq_false_of_ne hne, Bool.false_and]
  have hterm : (if vocabulary then (∅ : SortedMap String String).get? value else none) = none := by
    cases vocabulary <;> rfl
  have hof : Term.ofIri value = .ok (.iri value) := check_bind_eq_ok.mpr ⟨h, rfl⟩
  have hcontains : value.toList.contains ':' = true := List.contains_iff_mem.mpr hcolon
  unfold expand
  rw [hblank, if_neg Bool.false_ne_true, hterm, expandPrefix?_empty]
  simp only [hcontains, if_true, hof, mapError_ok]

theorem expand_blank {label : String} (h : Term.checkLabel label = .ok ()) (vocabulary : Bool) :
    expand {} ("_:" ++ label) vocabulary = .ok (.blank label) := by
  have hlist : ("_:" ++ label).toList = '_' :: ':' :: label.toList := String.toList_append
  have hof : Term.ofLabel ("_:" ++ label) = .ok (.blank label) := by
    refine check_bind_eq_ok.mpr ?_
    rw [hlist]
    change Term.checkLabel (String.ofList label.toList) = .ok () ∧
      pure (Term.blank (String.ofList label.toList)) = Except.ok (Term.blank label)
    rw [String.ofList_toList]
    exact ⟨h, rfl⟩
  have hblank : ['_', ':'].isPrefixOf ('_' :: ':' :: label.toList) = true := rfl
  unfold expand
  rw [hlist, hblank, if_pos rfl, hof, mapError_ok]

end Context

theorem expand_nodeId (ht : t.Normal) (hl : t.isLiteral = false) (vocabulary : Bool) :
    Context.expand {} (nodeId t) vocabulary = .ok t := by
  cases t with
  | iri value => exact Context.expand_iri ht.checkIri vocabulary
  | blank label => exact Context.expand_blank ht.checkLabel vocabulary
  | literal l => cases hl

/-! ## Reading without new blank nodes -/

/-- Reading returns `a` and makes up no blank node. -/
def Returns {α : Type} (r : Reader α) (a : α) : Prop := ∀ next, r next = .ok (a, next)

namespace Returns

variable {α β : Type} {r : Reader α} {a b : α}

protected theorem pure (a : α) : Returns (pure a) a := fun _ => rfl

theorem lift {x : Except DocumentFault α} (h : x = .ok a) : Returns (liftM x) a := by
  intro next
  rw [h]
  rfl

theorem bind_eq {f : α → Reader β} (h : Returns r a) : r >>= f = f a := by
  funext next
  change (r next >>= fun x => f x.1 x.2) = _
  rw [h next]
  rfl

theorem bind {f : α → Reader β} {b : β} (h : Returns r a) (hf : Returns (f a) b) :
    Returns (r >>= f) b := by
  rwa [h.bind_eq]

theorem unique (h : Returns r a) (h' : Returns r b) : a = b := by
  have := (h 0).symm.trans (h' 0)
  cases this
  rfl

end Returns

/-! ## Values -/

/-- How terms are shown where no doubles are. -/
inductive Shown : Term → Json → Prop
  | node {t : Term} (h : t.isLiteral = false) : Shown t (.object [("@id", .string (nodeId t))])
  | plain (lexical : String) : Shown (.plain lexical) (.string lexical)
  | integer (n : Int) :
      Shown (.literal ⟨toString n, some Vocabulary.xsdInteger, none⟩) (.integer n)
  | bool (b : Bool) :
      Shown (.literal ⟨(Json.bool b).write, some Vocabulary.xsdBoolean, none⟩) (.bool b)
  | typed (lexical datatype : String) : Shown (.literal ⟨lexical, some datatype, none⟩)
      (.object [("@type", .string datatype), ("@value", .string lexical)])
  | tagged (lexical tag : String) : Shown (.literal ⟨lexical, none, some tag⟩)
      (.object [("@language", .string tag), ("@value", .string lexical)])

private theorem shown_native {datatype : String} {j : Json}
    (hd : datatype ≠ Vocabulary.xsdDouble) (h : native? lexical datatype = some j) :
    Shown (.literal ⟨lexical, some datatype, none⟩) j := by
  unfold native? at h
  split at h
  next hinteger =>
    obtain ⟨n, -, hn⟩ := Option.bind_eq_some_iff.mp h
    rw [Option.ite_none_right_eq_some] at hn
    obtain ⟨rfl, hj⟩ := hn
    cases hj
    exact hinteger ▸ .integer n
  split at h
  next hbool =>
    subst hbool
    split at h
    next htrue =>
      cases h
      exact htrue ▸ .bool true
    next =>
      rw [Option.ite_none_right_eq_some] at h
      obtain ⟨rfl, hj⟩ := h
      cases hj
      exact .bool false
  · cases h

/-- The members of a value object by increasing key. -/
private theorem ofMembers_value {key : String} (h : compare key "@value" = .lt) (a b : Json) :
    Json.ofMembers [("@value", a), (key, b)] = .object [(key, b), ("@value", a)] := by
  rw [Json.ofMembers, SortedMap.ofList, List.foldl_cons, List.foldl_cons, List.foldl_nil]
  simp only [SortedMap.insert, SortedMap.empty, SortedMap.insertList, h]

theorem valueOf_typed (lexical datatype : String) :
    valueOf (.literal ⟨lexical, some datatype, none⟩) = (native? lexical datatype).getD
      (.ofMembers [("@value", .string lexical), ("@type", .string datatype)]) := rfl

/-- A literal that no value stands for by itself is shown with its datatype. -/
theorem shown_of_native?_eq_none {datatype : String} (h : native? lexical datatype = none) :
    Shown (.literal ⟨lexical, some datatype, none⟩)
      (valueOf (.literal ⟨lexical, some datatype, none⟩)) := by
  rw [valueOf_typed, h, Option.getD_none, ofMembers_value (by decide)]
  exact .typed lexical datatype

theorem shown_valueOf (ht : t.Normal) (hd : t.datatype ≠ some Vocabulary.xsdDouble) :
    Shown t (valueOf t) := by
  cases t with
  | iri value => exact .node rfl
  | blank label => exact .node rfl
  | literal l =>
    obtain ⟨lexical, datatype, language⟩ := l
    rcases ht.literal_cases with ⟨hd', hl⟩ | ⟨d, hd', hl, -⟩ | ⟨tag, hd', hl, -⟩ <;>
      obtain rfl := hd' <;> obtain rfl := hl
    · exact .plain lexical
    · cases hnative : native? lexical d with
      | some j =>
        rw [valueOf_typed, hnative]
        exact shown_native (fun h => hd (congrArg some h)) hnative
      | none => exact shown_of_native?_eq_none hnative
    · rw [valueOf]
      dsimp only
      rw [ofMembers_value (by decide)]
      exact .tagged lexical tag

/-! ## Equality -/

/-- A text, an integer, a boolean or an object with texts. -/
inductive Flat : Json → Prop
  | string (s : String) : Flat (.string s)
  | integer (n : Int) : Flat (.integer n)
  | bool (b : Bool) : Flat (.bool b)
  | texts (members : List (String × String)) :
      Flat (.object (members.map fun m => (m.1, .string m.2)))

private theorem beqMembers_texts {ms ms' : List (String × String)} :
    Json.beqMembers (ms.map fun m => (m.1, .string m.2)) (ms'.map fun m => (m.1, .string m.2)) =
      true ↔ ms = ms' := by
  induction ms generalizing ms' with
  | nil => cases ms' <;> simp [Json.beqMembers]
  | cons m ms ih =>
    cases ms' with
    | nil => simp [Json.beqMembers]
    | cons m' ms' => simp [Json.beqMembers, Json.beq, ih, Prod.ext_iff]

/-- These values are equal only if they are the same. -/
theorem Flat.beq_iff {j j' : Json} (h : Flat j) (h' : Flat j') : (j == j') = true ↔ j = j' := by
  change Json.beq j j' = true ↔ _
  cases h with
  | texts ms =>
    cases h' with
    | texts ms' =>
      rw [Json.beq, beqMembers_texts]
      refine ⟨fun h => h ▸ rfl, fun h => ?_⟩
      have hinj : Function.Injective fun m : String × String => (m.1, Json.string m.2) := by
        intro m m' hm
        simpa [Prod.ext_iff] using hm
      exact hinj.list_map (Json.object.inj h)
    | _ => simp [Json.beq]
  | _ => cases h' <;> simp [Json.beq]

theorem Shown.flat {j : Json} (h : Shown t j) : Flat j := by
  cases h with
  | node => exact .texts [("@id", nodeId t)]
  | plain lexical => exact .string lexical
  | integer n => exact .integer n
  | bool b => exact .bool b
  | typed lexical datatype => exact .texts [("@type", datatype), ("@value", lexical)]
  | tagged lexical tag => exact .texts [("@language", tag), ("@value", lexical)]

/-! ## Reading values back -/

/-- The head of a node object without a context. -/
theorem returns_nodeHead {c : Context} {members : List (String × Json)} {id : String}
    (hc : Json.lookup? "@context" members = none)
    (hid : Json.lookup? "@id" members = some (.string id))
    (ht : c.expand id false = .ok t) : Returns (nodeHead c members) (c, t) := by
  simp only [nodeHead, hc, hid]
  exact (Returns.pure c).bind ((Returns.lift ht).bind (.pure _))

theorem Shown.returns {j : Json} (h : Shown t j) (ht : t.Normal) :
    Returns (readValue g {} s p j) [⟨s, p, t, g⟩] := by
  cases h with
  | node hl =>
    have hhead : Returns (nodeHead {} [("@id", .string (nodeId t))]) ({}, t) :=
      returns_nodeHead rfl rfl (expand_nodeId ht hl false)
    rw [readValue]
    exact hhead.bind (.pure _)
  | plain lexical => exact fun _ => rfl
  | integer n =>
    have hscalar : scalar (.integer n) =
        .ok (.literal ⟨toString n, some Vocabulary.xsdInteger, none⟩) :=
      congrArg (·.mapError DocumentFault.term) ht
    exact (Returns.lift hscalar).bind (.pure _)
  | bool b =>
    have hscalar : scalar (.bool b) =
        .ok (.literal ⟨(Json.bool b).write, some Vocabulary.xsdBoolean, none⟩) :=
      congrArg (·.mapError DocumentFault.term) ht
    exact (Returns.lift hscalar).bind (.pure _)
  | typed lexical datatype =>
    have hvalue : valueObject {} [("@type", .string datatype), ("@value", .string lexical)]
        (.string lexical) = .ok (.literal ⟨lexical, some datatype, none⟩) := by
      have hexpand := Context.expand_iri (Term.checkIri_of_typed ht (by exact nofun)) true
      have hadd : ValueParts.add {} {} "@type" (.string datatype) =
          .ok { datatype := some (.iri datatype) } := by
        rw [ValueParts.add, hexpand]
        rfl
      rw [valueObject, List.foldlM_cons, hadd]
      exact congrArg (·.mapError DocumentFault.term) ht
    exact (Returns.lift hvalue).bind (.pure _)
  | tagged lexical tag =>
    have hvalue : valueObject {} [("@language", .string tag), ("@value", .string lexical)]
        (.string lexical) = .ok (.literal ⟨lexical, none, some tag⟩) :=
      congrArg (·.mapError DocumentFault.term) ht
    exact (Returns.lift hvalue).bind (.pure _)

theorem readValue_valueOf (ht : t.Normal) (hd : t.datatype ≠ some Vocabulary.xsdDouble) :
    Returns (readValue g {} s p (valueOf t)) [⟨s, p, t, g⟩] := (shown_valueOf ht hd).returns ht

/-- Different terms have different values. -/
theorem valueOf_beq_iff (ht : t.Normal) (hd : t.datatype ≠ some Vocabulary.xsdDouble)
    (hu : u.Normal) (hd' : u.datatype ≠ some Vocabulary.xsdDouble) :
    (valueOf t == valueOf u) = true ↔ t = u := by
  rw [(shown_valueOf ht hd).flat.beq_iff (shown_valueOf hu hd').flat]
  refine ⟨fun h => ?_, congrArg valueOf⟩
  -- the value is read back as both terms
  have hread : Returns (readValue t {} t t (valueOf t)) [⟨t, t, u, t⟩] :=
    h ▸ readValue_valueOf hu hd'
  exact congrArg Quad.object (List.singleton_injective ((readValue_valueOf ht hd).unique hread))

/-! ## Several values -/

variable {ts : List Term}

/-- Several values are told apart as the terms are that they stand for. -/
theorem foldl_addNew {f : Term → Json} (h : ∀ t ∈ ts, ∀ u ∈ ts, (f t == f u) = true ↔ t = u) :
    (ts.map f).foldl addNew [] = ts.eraseDups.map f := by
  -- from the end of the list, as a value is compared with those before it
  induction ts using List.reverseRecOn with
  | nil => rfl
  | append_singleton ts t ih =>
    have ht : t ∈ ts ++ [t] := List.mem_append_right _ (List.mem_singleton_self t)
    have hany : ((ts.eraseDups.map f).any (· == f t)) = true ↔ t ∈ ts := by
      rw [List.any_map, List.any_eq_true]
      constructor
      · rintro ⟨u, hu, heq⟩
        have hu := List.mem_eraseDups.mp hu
        exact (h u (List.mem_append_left _ hu) t ht).mp heq ▸ hu
      · intro hmem
        exact ⟨t, List.mem_eraseDups.mpr hmem, (h t ht t ht).mpr rfl⟩
    rw [List.map_append, List.foldl_append, ih fun t ht u hu =>
      h t (List.mem_append_left _ ht) u (List.mem_append_left _ hu), eraseDups_concat]
    change addNew _ (f t) = _
    rw [addNew]
    by_cases hmem : t ∈ ts
    · rw [if_pos (hany.mpr hmem), if_pos hmem]
    · rw [if_neg (fun h => hmem (hany.mp h)), if_neg hmem, List.map_append]
      rfl

theorem readValues_map (ht : ∀ t ∈ ts, t.Normal ∧ t.datatype ≠ some Vocabulary.xsdDouble) :
    Returns (readValues g {} s p (ts.map valueOf)) (ts.map (⟨s, p, ·, g⟩)) := by
  induction ts with
  | nil => exact .pure []
  | cons t ts ih =>
    obtain ⟨⟨hnormal, hd⟩, hts⟩ := List.forall_mem_cons.mp ht
    rw [List.map_cons, readValues]
    exact (readValue_valueOf hnormal hd).bind ((ih hts).bind (.pure _))

/-- One value or an array of values is read back as the terms that it stands for. -/
theorem readValue_oneOrMany
    (ht : ∀ t ∈ ts, t.Normal ∧ t.datatype ≠ some Vocabulary.xsdDouble) :
    Returns (readValue g {} s p (oneOrMany (ts.map valueOf))) (ts.map (⟨s, p, ·, g⟩)) := by
  match ts, ht with
  | [], ht => exact readValues_map ht
  | [t], ht =>
    obtain ⟨hnormal, hd⟩ := ht t (List.mem_singleton_self t)
    exact readValue_valueOf hnormal hd
  | t :: u :: ts, ht => exact readValues_map ht

/-- Types are read back as they are named. -/
theorem typeQuads_oneOrMany (ht : ∀ t ∈ ts, t.Normal ∧ t.isIri = true) :
    typeQuads g {} s (oneOrMany (ts.map fun t => .string (nodeId t))) =
      .ok (ts.map (⟨s, .iri Vocabulary.rdfType, ·, g⟩)) := by
  have hnames : typeNames (oneOrMany (ts.map fun t => .string (nodeId t))) =
      .ok (ts.map nodeId) := by
    match ts with
    | [] => rfl
    | [t] => rfl
    | t :: u :: ts =>
      change ((t :: u :: ts).map fun t => Json.string (nodeId t)).mapM _ = _
      rw [List.mapM_map]
      exact mapM_ok fun t _ => rfl
  rw [typeQuads, hnames]
  change (ts.map nodeId).mapM _ = _
  rw [List.mapM_map]
  refine mapM_ok fun t hmem => ?_
  obtain ⟨hnormal, hiri⟩ := ht t hmem
  have hliteral : t.isLiteral = false := Term.isLiteral_of_isIri_or (by rw [hiri]; rfl)
  rw [Function.comp_apply, expand_nodeId hnormal hliteral]
  rfl

end LinkedData
end DualStore
