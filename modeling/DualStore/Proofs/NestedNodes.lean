import DualStore.Proofs.DocumentRoundTrip
import Mathlib.Algebra.BigOperators.Group.List.Basic
import Mathlib.Algebra.Order.Monoid.Unbundled.WithTop
import Mathlib.Algebra.Order.Group.Multiset

/-! Nested node objects. A document whose node objects all have an `@id` and no context says the
same as the list of these node objects, each with references in place of those that were nested in
it: reading either of them gives the same quads, or both are refused (`quadsOf_listed`). -/

namespace DualStore.LinkedData

variable {g s p : Term} {c : Context} {key : String} {members : List (String × Json)}

/-! ## Listing -/

/-- An object that stands for a node, and not for a literal or a collection. -/
def isNode (members : List (String × Json)) : Bool :=
  ["@value", "@list", "@set"].all fun key => (Json.lookup? key members).isNone

/-- The `@id` of an object that stands for a node. -/
def nodeId? (members : List (String × Json)) : Option Json :=
  if isNode members then Json.lookup? "@id" members else none

mutual

/-- A value with references in place of the node objects in it. -/
def refer : Json → Json
  | .array items => .array (referItems items)
  | .object members => match nodeId? members with
    | some id => .object [("@id", id)]
    | none => .object members
  | j => j

@[inherit_doc refer]
def referItems : List Json → List Json
  | [] => []
  | j :: items => refer j :: referItems items

end

/-- A member of a node object with references in its value. -/
def ownMember (m : String × Json) : String × Json :=
  if isKeyword m.1 then m else (m.1, refer m.2)

/-- A node object with references in place of the node objects in it. -/
def ownMembers (members : List (String × Json)) : List (String × Json) := members.map ownMember

mutual

/-- The node objects in a value, each with references in place of those in it. -/
def nodesIn : Json → List (List (String × Json))
  | .array items => nodesInItems items
  | .object members =>
    if isNode members then ownMembers members :: nodesInMembers members else []
  | _ => []

@[inherit_doc nodesIn]
def nodesInItems : List Json → List (List (String × Json))
  | [] => []
  | j :: items => nodesIn j ++ nodesInItems items

/-- The node objects in the properties of a node object. -/
def nodesInMembers : List (String × Json) → List (List (String × Json))
  | [] => []
  | (key, value) :: members =>
    (if isKeyword key then [] else nodesIn value) ++ nodesInMembers members

end

mutual

/-- All node objects in a value have an `@id`, and none has a context. -/
def named : Json → Bool
  | .array items => namedItems items
  | .object members => !isNode members ||
      (Json.lookup? "@id" members).isSome && (Json.lookup? "@context" members).isNone &&
        namedMembers members
  | _ => true

@[inherit_doc named]
def namedItems : List Json → Bool
  | [] => true
  | j :: items => named j && namedItems items

@[inherit_doc named]
def namedMembers : List (String × Json) → Bool
  | [] => true
  | (key, value) :: members => (isKeyword key || named value) && namedMembers members

end

/-- A node object without `@graph`, or node objects in an array. -/
def isNodeDocument : Json → Bool
  | .object members => isNode members && (Json.lookup? "@graph" members).isNone
  | .array items => items.all fun j => j.asObject?.any isNode
  | _ => false

theorem named_node (hnode : isNode members = true) (h : named (.object members) = true) :
    Json.lookup? "@context" members = none ∧ (∃ id, Json.lookup? "@id" members = some id) ∧
      namedMembers members = true := by
  rw [named, hnode] at h
  simp only [Bool.not_true, Bool.false_or, Bool.and_eq_true, Option.isSome_iff_exists,
    Option.isNone_iff_eq_none] at h
  exact ⟨h.1.2, h.1.1, h.2⟩

theorem lookup?_value_of_isNode (h : isNode members = true) :
    Json.lookup? "@value" members = none := by
  simp only [isNode, List.all_cons, Bool.and_eq_true, Option.isNone_iff_eq_none] at h
  exact h.1

theorem lookup?_ownMembers (h : isKeyword key = true) :
    Json.lookup? key (ownMembers members) = Json.lookup? key members := by
  rw [Json.lookup?, Json.lookup?, ownMembers, ← List.map_reverse]
  induction members.reverse with
  | nil => rfl
  | cons m l ih =>
    rw [List.map_cons, lookup_cons_eq, lookup_cons_eq, ih]
    by_cases hm : isKeyword m.1 = true
    · rw [ownMember, if_pos hm]
    · have hkey : key ≠ m.1 := fun he => hm (he ▸ h)
      rw [ownMember, if_neg hm, if_neg hkey, if_neg hkey]

mutual

theorem refer_refer : (j : Json) → refer (refer j) = refer j
  | .array items => by rw [refer, refer, referItems_referItems items]
  | .object members => by
    cases h : nodeId? members with
    | none => rw [refer, h, refer, h]
    | some id =>
      rw [refer, h]
      rfl
  | .null | .bool _ | .integer _ | .double _ | .string _ => rfl

theorem referItems_referItems : (items : List Json) →
    referItems (referItems items) = referItems items
  | [] => rfl
  | j :: items => by rw [referItems, referItems, refer_refer j, referItems_referItems items]

end

theorem ownMembers_ownMembers : ownMembers (ownMembers members) = ownMembers members := by
  rw [ownMembers, ownMembers, List.map_map]
  refine List.map_congr_left fun m _ => ?_
  rw [Function.comp_apply]
  by_cases h : isKeyword m.1 = true
  · have hown : ownMember m = m := if_pos h
    rw [hown, hown]
  · have hown : ownMember m = (m.1, refer m.2) := if_neg h
    rw [hown, ownMember, if_neg h, refer_refer]

mutual

theorem ownMembers_of_mem_nodesIn {node : List (String × Json)} :
    (j : Json) → node ∈ nodesIn j → ownMembers node = node
  | .array items, h => ownMembers_of_mem_nodesInItems items h
  | .object members, h => by
    rw [nodesIn] at h
    split at h
    · rcases List.mem_cons.mp h with rfl | h
      · exact ownMembers_ownMembers
      · exact ownMembers_of_mem_nodesInMembers members h
    · cases h

theorem ownMembers_of_mem_nodesInItems {node : List (String × Json)} :
    (items : List Json) → node ∈ nodesInItems items → ownMembers node = node
  | j :: items, h => (List.mem_append.mp h).elim (ownMembers_of_mem_nodesIn j)
    (ownMembers_of_mem_nodesInItems items)

theorem ownMembers_of_mem_nodesInMembers {node : List (String × Json)} :
    (members : List (String × Json)) → node ∈ nodesInMembers members → ownMembers node = node
  | (key, value) :: members, h => by
    rcases List.mem_append.mp h with h | h
    · split at h
      · cases h
      · exact ownMembers_of_mem_nodesIn value h
    · exact ownMembers_of_mem_nodesInMembers members h

end

/-! ## How reading ends -/

/-- How reading ends: with quads in some order, or with a fault, which is `⊤` and stays `⊤` whatever
else is read. -/
abbrev Reading := WithTop (Multiset Quad)

/-- Reading stops with a fault, whatever the number of the next blank node. -/
def Fails {α : Type} (r : Reader α) : Prop := ∀ next, ∃ fault, r next = .error fault

namespace Fails

variable {α β : Type} {r : Reader α} {f : α → Reader β}

protected theorem throw (fault : DocumentFault) : Fails (throw fault : Reader α) :=
  fun _ => ⟨fault, rfl⟩

theorem lift {x : Except DocumentFault α} {fault : DocumentFault} (h : x = .error fault) :
    Fails (liftM x : Reader α) := by
  intro next
  rw [h]
  exact ⟨fault, rfl⟩

theorem bind (h : Fails r) : Fails (r >>= f) := by
  intro next
  obtain ⟨fault, h⟩ := h next
  refine ⟨fault, ?_⟩
  change (r next >>= fun x => f x.1 x.2) = _
  rw [h]
  rfl

theorem of_bind (h : ∀ a, Fails (f a)) : Fails (r >>= f) := by
  intro next
  change ∃ fault, (r next >>= fun x => f x.1 x.2) = _
  cases r next with
  | error fault => exact ⟨fault, rfl⟩
  | ok x => exact h x.1 x.2

end Fails

/-- Reading ends in this way, with quads of the graph `g`, and makes up no blank node. -/
inductive Yields (g : Term) (r : Reader (List Quad)) : Reading → Prop
  | fault : Fails r → Yields g r ⊤
  | quads {quads : List Quad} : Returns r quads → (∀ q ∈ quads, q.graph = g) →
      Yields g r ((quads : Multiset Quad) : Reading)

namespace Yields

variable {r r' : Reader (List Quad)} {o o' : Reading}

theorem nil : Yields g (pure []) 0 := .quads (.pure []) (List.forall_mem_nil _)

theorem single (s p o : Term) :
    Yields g (pure [⟨s, p, o, g⟩]) (({⟨s, p, o, g⟩} : Multiset Quad) : Reading) :=
  .quads (.pure [(⟨s, p, o, g⟩ : Quad)]) fun _ hq => List.mem_singleton.mp hq ▸ rfl

/-- What is read in two parts. -/
theorem append (h : Yields g r o) (h' : Yields g r' o') :
    Yields g (r >>= fun quads => r' >>= fun more => pure (quads ++ more)) (o + o') := by
  cases h with
  | fault h =>
    rw [WithTop.top_add]
    exact .fault h.bind
  | quads h hgraph =>
    cases h' with
    | fault h' =>
      rw [WithTop.add_top]
      exact .fault (.of_bind fun _ => h'.bind)
    | quads h' hgraph' =>
      rw [← WithTop.coe_add, Multiset.coe_add]
      exact .quads (h.bind (h'.bind (.pure _))) (List.forall_mem_append.mpr ⟨hgraph, hgraph'⟩)

theorem lift {x : Except DocumentFault (List Quad)}
    (h : ∀ quads, x = .ok quads → ∀ q ∈ quads, q.graph = g) : ∃ o, Yields g (liftM x) o := by
  cases hx : x with
  | error fault => exact ⟨⊤, .fault (.lift rfl)⟩
  | ok quads => exact ⟨_, .quads (.lift rfl) (h quads hx)⟩

end Yields

/-! ## Node objects one by one -/

/-- How reading ends with blank nodes numbered from zero. -/
def readingOf (r : Reader (List Quad)) : Reading :=
  match r 0 with
  | .ok (quads, _) => (quads : Multiset Quad)
  | .error _ => ⊤

theorem Yields.readingOf_eq {r : Reader (List Quad)} {o : Reading} (h : Yields g r o) :
    readingOf r = o := by
  cases h with
  | fault h =>
    obtain ⟨fault, h⟩ := h 0
    rw [readingOf, h]
  | quads h => rw [readingOf, h 0]

/-- A node object that is read without making up blank nodes. -/
def Steady (g : Term) (c : Context) (members : List (String × Json)) : Prop :=
  ∃ o, Yields g (readNode g c members) o

/-- What reading node objects one by one ends with, taken together. -/
def totalOf (g : Term) (c : Context) (nodes : List (List (String × Json))) : Reading :=
  (nodes.map fun members => readingOf (readNode g c members)).sum

theorem totalOf_append (g : Term) (c : Context) (nodes nodes' : List (List (String × Json))) :
    totalOf g c (nodes ++ nodes') = totalOf g c nodes + totalOf g c nodes' := by
  rw [totalOf, List.map_append, List.sum_append, totalOf, totalOf]

theorem totalOf_cons (nodes : List (List (String × Json))) {o : Reading}
    (h : Yields g (readNode g c members) o) :
    totalOf g c (members :: nodes) = o + totalOf g c nodes := by
  rw [totalOf, List.map_cons, List.sum_cons, h.readingOf_eq, totalOf]

theorem totalOf_perm {nodes nodes' : List (List (String × Json))} (h : nodes.Perm nodes') :
    totalOf g c nodes = totalOf g c nodes' := (h.map _).sum_eq

/-- Reading ends with what the node objects of a list give together. -/
structure ReadsAs (g : Term) (c : Context) (nodes : List (List (String × Json)))
    (r : Reader (List Quad)) : Prop where
  steady : ∀ node ∈ nodes, Steady g c node
  yields : Yields g r (totalOf g c nodes)

theorem readsAs_readNodes {nodes : List (List (String × Json))} (fault : DocumentFault)
    (h : ∀ node ∈ nodes, Steady g c node) :
    ReadsAs g c nodes (readNodes g c fault (nodes.map .object)) := by
  refine ⟨h, ?_⟩
  induction nodes with
  | nil => exact .nil
  | cons members nodes ih =>
    obtain ⟨⟨o, hnode⟩, hnodes⟩ := List.forall_mem_cons.mp h
    rw [List.map_cons, readNodes, totalOf_cons nodes hnode]
    exact hnode.append (ih hnodes)

/-- What is read as a whole is read in parts: the part `own`, and the node objects of a list. -/
structure Splits (g : Term) (c : Context) (nodes : List (List (String × Json)))
    (own whole : Reader (List Quad)) : Prop where
  steady : ∀ node ∈ nodes, Steady g c node
  parts : ∃ o, Yields g own o ∧ Yields g whole (o + totalOf g c nodes)

namespace Splits

variable {own own' whole whole' : Reader (List Quad)} {nodes nodes' : List (List (String × Json))}

theorem of_yields {o : Reading} (h : Yields g whole o) : Splits g c [] whole whole := by
  refine ⟨List.forall_mem_nil _, o, h, ?_⟩
  rwa [totalOf, List.map_nil, List.sum_nil, add_zero]

theorem append (h : Splits g c nodes own whole) (h' : Splits g c nodes' own' whole') :
    Splits g c (nodes ++ nodes') (own >>= fun quads => own' >>= fun more => pure (quads ++ more))
      (whole >>= fun quads => whole' >>= fun more => pure (quads ++ more)) := by
  obtain ⟨hnodes, o, hown, hwhole⟩ := h
  obtain ⟨hnodes', o', hown', hwhole'⟩ := h'
  refine ⟨List.forall_mem_append.mpr ⟨hnodes, hnodes'⟩, o + o', hown.append hown', ?_⟩
  rw [totalOf_append, add_add_add_comm]
  exact hwhole.append hwhole'

end Splits

/-! ## Node objects -/

theorem mem_of_lookup? {value : Json} (h : Json.lookup? key members = some value) :
    (key, value) ∈ members := by
  obtain ⟨before, after, hmembers, -⟩ := List.lookup_eq_some_iff.mp h
  exact List.mem_reverse.mp (hmembers ▸ List.mem_append_right _ List.mem_cons_self)

/-- The head of a node object with an `@id` and no context depends on the `@id` alone. -/
theorem nodeHead_cases (c : Context) (id : Json) :
    (∃ t, ∀ members, Json.lookup? "@context" members = none →
      Json.lookup? "@id" members = some id → Returns (nodeHead c members) (c, t)) ∨
    ∀ members, Json.lookup? "@context" members = none →
      Json.lookup? "@id" members = some id → Fails (nodeHead c members) := by
  cases id with
  | string id =>
    cases ht : c.expand id false with
    | ok t => exact .inl ⟨t, fun members hc hid => returns_nodeHead hc hid ht⟩
    | error fault =>
      refine .inr fun members hc hid => ?_
      simp only [nodeHead, hc, hid, (Returns.pure c).bind_eq]
      exact (Fails.lift ht).bind
  | _ =>
    refine .inr fun members hc hid => ?_
    simp only [nodeHead, hc, hid]
    exact .of_bind fun _ => .throw _

theorem graph_of_typeQuads {value : Json} {quads : List Quad}
    (h : typeQuads g c s value = .ok quads) : ∀ q ∈ quads, q.graph = g := by
  obtain ⟨names, -, h⟩ := bind_eq_ok.mp h
  intro q hq
  obtain ⟨name, -, hname⟩ := exists_of_mapM_eq_ok h q hq
  obtain ⟨t, -, rfl⟩ := map_eq_ok.mp hname
  rfl

/-- Members under keywords hold no nodes. -/
theorem exists_yields_keyword {m : String × Json} (h : isKeyword m.1 = true) (s : Term) :
    ∃ o, Yields g (readMember g c s m) o := by
  unfold readMember
  split
  · exact ⟨0, .nil⟩
  split
  · exact Yields.lift fun _ => graph_of_typeQuads
  · exact ⟨⊤, .fault (.throw _)⟩

theorem splits_readMember {m : String × Json}
    (hvalue : isKeyword m.1 = false → ∀ p,
      Splits g c (nodesIn m.2) (readValue g c s p (refer m.2)) (readValue g c s p m.2)) :
    Splits g c (if isKeyword m.1 then [] else nodesIn m.2) (readMember g c s (ownMember m))
      (readMember g c s m) := by
  cases h : isKeyword m.1 with
  | true =>
    have hown : ownMember m = m := if_pos h
    obtain ⟨o, ho⟩ := exists_yields_keyword h s
    rw [hown]
    exact .of_yields ho
  | false =>
    have hne : m.1 ≠ "@context" ∧ m.1 ≠ "@id" ∧ m.1 ≠ "@type" := by
      refine ⟨?_, ?_, ?_⟩ <;>
      · intro he
        rw [he] at h
        cases h
    have hread : ∀ value, readMember g c s (m.1, value) =
        liftM (c.expand m.1 true) >>= fun p => readValue g c s p value := by
      intro value
      rw [readMember, if_neg (not_or.mpr ⟨hne.1, hne.2.1⟩), if_neg hne.2.2, h,
        if_neg Bool.false_ne_true]
    have hown : ownMember m = (m.1, refer m.2) := if_neg (Bool.eq_false_iff.mp h)
    rw [hown, hread, hread, if_neg Bool.false_ne_true]
    cases hp : c.expand m.1 true with
    | ok p =>
      rw [(Returns.lift rfl).bind_eq, (Returns.lift rfl).bind_eq]
      exact hvalue h p
    | error fault =>
      -- the node objects are still to be read by themselves, whatever the property is called
      refine ⟨(hvalue h s).steady, ⊤, .fault (Fails.lift rfl).bind, ?_⟩
      rw [WithTop.top_add]
      exact .fault (Fails.lift rfl).bind

section

variable {id : Json} (hcontext : Json.lookup? "@context" members = none)
  (hid : Json.lookup? "@id" members = some id)
  (hmembers : ∀ s, Splits g c (nodesInMembers members) (readMembers g c s (ownMembers members))
    (readMembers g c s members))
include hcontext hid hmembers

/-- A node object is read as it stands by itself, and as the node objects in it. -/
theorem readsAs_readNode :
    ReadsAs g c (ownMembers members :: nodesInMembers members) (readNode g c members) := by
  have hcontext' : Json.lookup? "@context" (ownMembers members) = none :=
    (lookup?_ownMembers rfl).trans hcontext
  have hid' : Json.lookup? "@id" (ownMembers members) = some id :=
    (lookup?_ownMembers rfl).trans hid
  rcases nodeHead_cases c id with ⟨t, hhead⟩ | hhead
  · obtain ⟨hnodes, o, hown, hwhole⟩ := hmembers t
    have hread : Yields g (readNode g c (ownMembers members)) o := by
      rwa [readNode, (hhead _ hcontext' hid').bind_eq]
    refine ⟨List.forall_mem_cons.mpr ⟨⟨o, hread⟩, hnodes⟩, ?_⟩
    rwa [totalOf_cons _ hread, readNode, (hhead _ hcontext hid).bind_eq]
  · have hread : Yields g (readNode g c (ownMembers members)) ⊤ :=
      .fault (hhead _ hcontext' hid').bind
    refine ⟨List.forall_mem_cons.mpr ⟨⟨⊤, hread⟩, (hmembers g).steady⟩, ?_⟩
    rw [totalOf_cons _ hread, WithTop.top_add]
    exact .fault (hhead _ hcontext hid).bind

/-- A nested node object is read as a reference to it, and as the node objects that there are. -/
theorem splits_node (hvalue : Json.lookup? "@value" members = none) (s p : Term) :
    Splits g c (ownMembers members :: nodesInMembers members)
      (readValue g c s p (.object [("@id", id)])) (readValue g c s p (.object members)) := by
  obtain ⟨hsteady, hnode⟩ := readsAs_readNode hcontext hid hmembers
  have hread : ∀ {members : List (String × Json)}, Json.lookup? "@value" members = none →
      readValue g c s p (.object members) = nodeHead c members >>= fun head =>
        readMembers g head.1 head.2 members >>= fun quads =>
          pure (quads ++ [⟨s, p, head.2, g⟩]) := by
    intro members hvalue
    rw [readValue, hvalue]
  have hreference : Json.lookup? "@value" [("@id", id)] = none := rfl
  rw [hread hvalue, hread hreference]
  refine ⟨hsteady, ?_⟩
  rcases nodeHead_cases c id with ⟨t, hhead⟩ | hhead
  · rw [readNode, (hhead _ hcontext hid).bind_eq] at hnode
    rw [(hhead _ hcontext hid).bind_eq, (hhead [("@id", id)] rfl rfl).bind_eq]
    -- in the nested document the quad that refers to the node comes last
    refine ⟨_, .single s p t, ?_⟩
    rw [add_comm]
    exact hnode.append (.single s p t)
  · refine ⟨⊤, .fault (hhead [("@id", id)] rfl rfl).bind, ?_⟩
    rw [WithTop.top_add]
    exact .fault (hhead _ hcontext hid).bind

end

/-! ## Values -/

/-- A list and a set are refused. -/
theorem fails_readMembers {value : Json} (hkey : key = "@list" ∨ key = "@set")
    (hmem : (key, value) ∈ members) (c : Context) (s : Term) :
    Fails (readMembers g c s members) := by
  induction members with
  | nil => cases hmem
  | cons m members ih =>
    rw [readMembers_cons]
    rcases List.mem_cons.mp hmem with rfl | hmem
    · have hread : readMember g c s (key, value) = throw (.nodeKeyword key) := by
        rcases hkey with rfl | rfl <;> simp [readMember, isKeyword]
      rw [hread]
      exact (Fails.throw _).bind
    · exact .of_bind fun _ => (ih hmem).bind

theorem exists_yields_literal (x : Except DocumentFault Term) (s p : Term) :
    ∃ o, Yields g (liftM x >>= fun t => pure [⟨s, p, t, g⟩]) o := by
  cases x with
  | error fault => exact ⟨⊤, .fault (Fails.lift rfl).bind⟩
  | ok t =>
    rw [(Returns.lift rfl).bind_eq]
    exact ⟨_, .single s p t⟩

/-- Objects that stand for no node are read as a literal or refused. -/
theorem exists_yields_object (h : isNode members = false) (s p : Term) :
    ∃ o, Yields g (readValue g c s p (.object members)) o := by
  cases hvalue : Json.lookup? "@value" members with
  | some value =>
    rw [readValue, hvalue]
    exact exists_yields_literal _ s p
  | none =>
    obtain ⟨key, value, hkey, hlookup⟩ : ∃ key value, (key = "@list" ∨ key = "@set") ∧
        Json.lookup? key members = some value := by
      cases hlist : Json.lookup? "@list" members with
      | some value => exact ⟨_, value, .inl rfl, hlist⟩
      | none =>
        have hset : (Json.lookup? "@set" members).isSome = true := by
          simpa [isNode, hvalue, hlist] using h
        obtain ⟨value, hset⟩ := Option.isSome_iff_exists.mp hset
        exact ⟨_, value, .inr rfl, hset⟩
    rw [readValue, hvalue]
    exact ⟨⊤, .fault (.of_bind fun _ =>
      (fails_readMembers hkey (mem_of_lookup? hlookup) _ _).bind)⟩

mutual

theorem splits_readValue : (j : Json) → named j = true → (s p : Term) →
    Splits g c (nodesIn j) (readValue g c s p (refer j)) (readValue g c s p j)
  | .null, _, _, _ => .of_yields .nil
  | .array items, h, s, p => by
    rw [refer, readValue, readValue]
    exact splits_readValues items h s p
  | .object members, h, s, p => by
    cases hnode : isNode members with
    | false =>
      obtain ⟨o, ho⟩ := exists_yields_object hnode s p
      rw [nodesIn, refer, nodeId?, hnode, if_neg Bool.false_ne_true, if_neg Bool.false_ne_true]
      exact .of_yields ho
    | true =>
      obtain ⟨hcontext, ⟨id, hid⟩, hmembers⟩ := named_node hnode h
      rw [nodesIn, refer, nodeId?, hnode, if_pos rfl, if_pos rfl, hid]
      exact splits_node hcontext hid (splits_readMembers members hmembers)
        (lookup?_value_of_isNode hnode) s p
  | .bool _, _, s, p | .integer _, _, s, p | .double _, _, s, p | .string _, _, s, p =>
    have ⟨_, h⟩ := exists_yields_literal (scalar _) s p
    .of_yields h

theorem splits_readValues : (items : List Json) → namedItems items = true → (s p : Term) →
    Splits g c (nodesInItems items) (readValues g c s p (referItems items))
      (readValues g c s p items)
  | [], _, _, _ => .of_yields .nil
  | j :: items, h, s, p => by
    obtain ⟨hj, hitems⟩ := Bool.and_eq_true_iff.mp h
    rw [nodesInItems, referItems, readValues, readValues]
    exact (splits_readValue j hj s p).append (splits_readValues items hitems s p)

theorem splits_readMembers : (members : List (String × Json)) → namedMembers members = true →
    (s : Term) → Splits g c (nodesInMembers members) (readMembers g c s (ownMembers members))
      (readMembers g c s members)
  | [], _, _ => .of_yields .nil
  | (key, value) :: members, h, s => by
    obtain ⟨hvalue, hmembers⟩ := Bool.and_eq_true_iff.mp h
    rw [nodesInMembers, ownMembers, List.map_cons, readMembers_cons, readMembers_cons]
    refine (splits_readMember (m := (key, value)) fun hkey p => ?_).append
      (splits_readMembers members hmembers s)
    have hnamed := (Bool.or_eq_true_iff.mp hvalue).resolve_left (Bool.eq_false_iff.mp hkey)
    exact splits_readValue value hnamed s p

end

/-! ## Documents -/

theorem readsAs_node (hnode : isNode members = true) (h : named (.object members) = true) :
    ReadsAs g c (nodesIn (.object members)) (readNode g c members) := by
  obtain ⟨hcontext, ⟨id, hid⟩, hmembers⟩ := named_node hnode h
  rw [nodesIn, if_pos hnode]
  exact readsAs_readNode hcontext hid (splits_readMembers members hmembers)

/-- The node objects of an array are read one after the other. -/
theorem readsAs_items (fault : DocumentFault) {items : List Json}
    (hitems : ∀ j ∈ items, ∃ members, j = .object members ∧ isNode members = true)
    (h : namedItems items = true) :
    ReadsAs g c (nodesInItems items) (readNodes g c fault items) := by
  induction items with
  | nil => exact ⟨List.forall_mem_nil _, .nil⟩
  | cons j items ih =>
    obtain ⟨⟨members, rfl, hnode⟩, hrest⟩ := List.forall_mem_cons.mp hitems
    obtain ⟨hj, hnamed⟩ := Bool.and_eq_true_iff.mp h
    obtain ⟨hsteady, hyields⟩ := readsAs_node hnode hj
    obtain ⟨hmore, hyields'⟩ := ih hrest hnamed
    rw [nodesInItems, readNodes]
    refine ⟨List.forall_mem_append.mpr ⟨hsteady, hmore⟩, ?_⟩
    rw [totalOf_append]
    exact hyields.append hyields'

/-- A document is read as all its node objects. -/
theorem readsAs_document {document : Json} (hdocument : isNodeDocument document = true)
    (h : named document = true) (graph : Option Term) :
    ReadsAs (graph.getD .defaultGraph) {} (nodesIn document) (readDocument document graph) := by
  cases document with
  | object members =>
    obtain ⟨hnode, hgraph⟩ := Bool.and_eq_true_iff.mp hdocument
    rw [readDocument, Option.isNone_iff_eq_none.mp hgraph]
    exact readsAs_node hnode h
  | array items =>
    refine readsAs_items _ (fun j hj => ?_) h
    have hitem := List.all_eq_true.mp hdocument j hj
    cases j with
    | object members => exact ⟨members, rfl, hitem⟩
    | _ => cases hitem
  | _ => cases hdocument

namespace Yields

variable {document : Json} {graph : Option Term} {o : Reading}

/-- A document is accepted if no fault ends its reading and all its quads may be stored. -/
theorem accepted_iff (h : Yields g (readDocument document graph) o) (next : Nat) :
    (∃ quads last, quadsOf document graph next = .ok (quads, last)) ↔
      ∃ quads : Multiset Quad, o = quads ∧ ∀ q ∈ quads, q.Storable := by
  cases h with
  | fault h =>
    refine iff_of_false ?_ fun ⟨_, h, _⟩ => WithTop.top_ne_coe h
    rintro ⟨quads, last, hread⟩
    obtain ⟨fault, h⟩ := h next
    obtain ⟨_, hread, -⟩ := bind_eq_ok.mp hread
    cases h.symm.trans hread
  | @quads quads h hgraph =>
    constructor
    · rintro ⟨quads', last, hread⟩
      obtain ⟨_, hread, hcheck⟩ := bind_eq_ok.mp hread
      cases (h next).symm.trans hread
      obtain ⟨hcheck, -⟩ := check_bind_eq_ok.mp hcheck
      exact ⟨quads, rfl, checkAll_eq_ok.mp hcheck⟩
    · rintro ⟨quads', heq, hstorable⟩
      obtain rfl := WithTop.coe_injective heq
      refine ⟨quads, next, bind_eq_ok.mpr ⟨_, h next, ?_⟩⟩
      exact check_bind_eq_ok.mpr ⟨checkAll_eq_ok.mpr hstorable, rfl⟩

theorem of_quadsOf (h : Yields g (readDocument document graph) o) {next last : Nat}
    {quads : List Quad} (hread : quadsOf document graph next = .ok (quads, last)) :
    o = (quads : Multiset Quad) ∧ ∀ q ∈ quads, q.graph = g := by
  obtain ⟨_, hread, hcheck⟩ := bind_eq_ok.mp hread
  cases h with
  | fault h =>
    obtain ⟨fault, h⟩ := h next
    cases h.symm.trans hread
  | quads h hgraph =>
    cases (h next).symm.trans hread
    obtain ⟨-, hquads⟩ := check_bind_eq_ok.mp hcheck
    cases hquads
    exact ⟨rfl, hgraph⟩

end Yields

/-- Nesting is notation. Let all node objects of a document have an `@id` and none a context, and
let `nodes` list them in any order, each with references in place of the node objects in it. The
document is accepted exactly if the array of these node objects is, and then both have the same
quads up to order, all in the graph that was asked for. -/
theorem quadsOf_listed {document : Json} (hdocument : isNodeDocument document = true)
    (hnamed : named document = true) {nodes : List (List (String × Json))}
    (hnodes : nodes.Perm (nodesIn document)) (graph : Option Term) (next next' : Nat) :
    (∀ node ∈ nodes, ownMembers node = node) ∧
    ((∃ quads last, quadsOf document graph next = .ok (quads, last)) ↔
      ∃ quads last, quadsOf (.array (nodes.map .object)) graph next' = .ok (quads, last)) ∧
    ∀ quads last quads' last', quadsOf document graph next = .ok (quads, last) →
      quadsOf (.array (nodes.map .object)) graph next' = .ok (quads', last') →
        quads.Perm quads' ∧ ∀ q ∈ quads, q.graph = graph.getD .defaultGraph := by
  obtain ⟨hsteady, hyields⟩ := readsAs_document hdocument hnamed graph
  have hlisted : Yields (graph.getD .defaultGraph)
      (readDocument (.array (nodes.map .object)) graph)
      (totalOf (graph.getD .defaultGraph) {} (nodesIn document)) := by
    rw [← totalOf_perm hnodes]
    exact (readsAs_readNodes _ fun node hnode => hsteady node (hnodes.mem_iff.mp hnode)).yields
  refine ⟨fun node hnode => ownMembers_of_mem_nodesIn document (hnodes.mem_iff.mp hnode),
    (hyields.accepted_iff next).trans (hlisted.accepted_iff next').symm,
    fun quads last quads' last' hread hread' => ?_⟩
  obtain ⟨htotal, hgraph⟩ := hyields.of_quadsOf hread
  obtain ⟨htotal', -⟩ := hlisted.of_quadsOf hread'
  exact ⟨Multiset.coe_eq_coe.mp (WithTop.coe_injective (htotal.symm.trans htotal')), hgraph⟩

/-- A node object in an array in an array, next to a null and a literal, listed before the node
object that refers to it. -/
theorem quadsOf_listed_inner :
    let literal : Json := .object [("@language", .string "en"), ("@value", .string "v")]
    let document : Json := .object [("@id", .string "x:a"), ("x:p", .array
      [.array [.object [("@id", .string "x:b"), ("x:q", .string "1")]], .null, literal])]
    let nodes : List (List (String × Json)) := [[("@id", .string "x:b"), ("x:q", .string "1")],
      [("@id", .string "x:a"),
        ("x:p", .array [.array [.object [("@id", .string "x:b")]], .null, literal])]]
    isNodeDocument document = true ∧ named document = true ∧ nodes.Perm (nodesIn document) ∧
      ∃ quads last quads' last', quadsOf document none 0 = .ok (quads, last) ∧
        quadsOf (.array (nodes.map .object)) none 0 = .ok (quads', last') ∧
        quads.length = 3 ∧ quads.Perm quads' := by
  intro literal document nodes
  have hdocument : isNodeDocument document = true := by decide +kernel
  have hnamed : named document = true := by decide +kernel
  have hlisted : nodesIn document = nodes.reverse := by
    simp [document, nodes, literal, nodesIn, nodesInItems, nodesInMembers, ownMembers, ownMember,
      refer, referItems, nodeId?, isNode, isKeyword, Json.lookup?, lookup_cons_eq]
  have hnodes : nodes.Perm (nodesIn document) := hlisted ▸ (List.reverse_perm nodes).symm
  have hread : quadsOf document none 0 = .ok ([
      ⟨.iri "x:b", .iri "x:q", .plain "1", .defaultGraph⟩,
      ⟨.iri "x:a", .iri "x:p", .iri "x:b", .defaultGraph⟩,
      ⟨.iri "x:a", .iri "x:p", .literal ⟨"v", none, some "en"⟩, .defaultGraph⟩], 0) := by
    decide +kernel
  obtain ⟨-, haccepted, hquads⟩ := quadsOf_listed hdocument hnamed hnodes none 0 0
  obtain ⟨quads', last', hread'⟩ := haccepted.mp ⟨_, _, hread⟩
  exact ⟨hdocument, hnamed, hnodes, _, _, quads', last', hread, hread', rfl,
    (hquads _ _ _ _ hread hread').1⟩

end DualStore.LinkedData
