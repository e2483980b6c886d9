import DualStore.LinkedData.Context
import DualStore.Proofs.Collections
import DualStore.Proofs.Outcomes
import Mathlib.Logic.Relation
import Mathlib.Order.WellFoundedSet

/-! What a context object does to the context that it is put on top of. Its definitions are entered
one by one, and then every text in force is expanded once, also those that were there before. So a
name that is not defined anew keeps its text only if this text starts with no term by now
(`Context.extend_changesOnly_iff`), and a text that starts with a term whose own text is expanded
is left half expanded (`Context.extend_fullExpansion_iff`). -/

namespace DualStore
namespace LinkedData

variable {terms : SortedMap String String} {text rest iri iri' name name' : String}

/-! ## Full expansion -/

/-- A text with the term that it starts with replaced, if there is one. -/
def expandOnce (terms : SortedMap String String) (text : String) : String :=
  (expandPrefix? terms text).getD text

/-- One term is replaced. -/
def Expands (terms : SortedMap String String) (text iri : String) : Prop :=
  expandPrefix? terms text = some iri

/-- Terms are replaced again and again, until the text starts with none. -/
def FullExpansion (terms : SortedMap String String) (text iri : String) : Prop :=
  Relation.ReflTransGen (Expands terms) text iri ∧ expandPrefix? terms iri = none

theorem expands_rightUnique (terms : SortedMap String String) :
    Relator.RightUnique (Expands terms) :=
  fun _ _ _ h h' => Option.some.inj (h.symm.trans h')

theorem eq_of_expandPrefix?_eq_none (hnone : expandPrefix? terms text = none)
    (h : Relation.ReflTransGen (Expands terms) text iri) : text = iri := by
  rcases h.cases_head with rfl | ⟨_, hstep, -⟩
  · rfl
  · rw [Expands, hnone] at hstep
    cases hstep

theorem FullExpansion.head (h : Expands terms text iri)
    (hfull : FullExpansion terms iri iri') : FullExpansion terms text iri' :=
  ⟨.head h hfull.1, hfull.2⟩

theorem FullExpansion.unique (h : FullExpansion terms text iri)
    (h' : FullExpansion terms text iri') : iri = iri' := by
  rcases Relation.ReflTransGen.total_of_right_unique (expands_rightUnique terms) h.1 h'.1 with
    hsteps | hsteps
  · exact eq_of_expandPrefix?_eq_none h.2 hsteps
  · exact (eq_of_expandPrefix?_eq_none h'.2 hsteps).symm

theorem expandOnce_steps (terms : SortedMap String String) (text : String) :
    Relation.ReflTransGen (Expands terms) text (expandOnce terms text) := by
  rw [expandOnce]
  cases h : expandPrefix? terms text with
  | none => exact .refl
  | some iri => exact .single h

/-- One step is all there is to do if no other step follows. -/
theorem FullExpansion.expandOnce_eq_iff (h : FullExpansion terms text iri) :
    expandOnce terms text = iri ↔ expandPrefix? terms (expandOnce terms text) = none := by
  constructor
  · rintro rfl
    exact h.2
  · exact fun hnone => FullExpansion.unique ⟨expandOnce_steps terms text, hnone⟩ h

/-! ## References -/

/-- The name that a text starts with and what stands behind its colon, unless two slashes do. -/
def splitName? (text : String) : Option (String × String) :=
  match Text.splitAt? (· = ':') text.toList with
  | none => none
  | some (before, rest) =>
    if ['/', '/'].isPrefixOf rest then none else some (String.ofList before, String.ofList rest)

theorem expandPrefix?_eq_some : expandPrefix? terms text = some iri ↔
    ∃ name rest start, splitName? text = some (name, rest) ∧ terms.get? name = some start ∧
      start ++ rest = iri := by
  rw [expandPrefix?, splitName?]
  cases Text.splitAt? (· = ':') text.toList with
  | none => simp
  | some parts =>
    dsimp only
    split
    · simp
    · simp only [Option.map_eq_some_iff, Option.some.injEq, Prod.mk.injEq, and_assoc,
        exists_and_left, exists_eq_left']

/-- What follows a text with a colon does not change the name that it starts with. -/
theorem exists_splitName?_of_append (hcolon : ':' ∈ text.toList) {rest' : String}
    (h : splitName? (text ++ rest) = some (name, rest')) :
    ∃ rest₀, splitName? text = some (name, rest₀) := by
  cases hsplit : Text.splitAt? (· = ':') text.toList with
  | none =>
    have hno := Text.splitAt?_eq_none_iff.mp hsplit _ hcolon
    exact absurd hno (by decide)
  | some parts =>
    obtain ⟨before, after⟩ := parts
    rw [splitName?, String.toList_append, Text.splitAt?_append hsplit] at h
    dsimp only at h
    rw [Option.ite_none_left_eq_some] at h
    obtain ⟨hslashes, hparts⟩ := h
    have hslashes' : ¬['/', '/'].isPrefixOf after = true := by
      refine fun hafter => hslashes ?_
      rw [List.isPrefixOf_iff_prefix] at hafter ⊢
      exact hafter.trans (List.prefix_append _ _)
    rw [splitName?, hsplit]
    dsimp only
    rw [if_neg hslashes']
    obtain ⟨rfl, -⟩ := Prod.mk.inj (Option.some.inj hparts)
    exact ⟨_, rfl⟩

/-- The text of a term starts with another term. -/
def RefersTo (terms : SortedMap String String) (name name' : String) : Prop :=
  ∃ text rest, terms.get? name = some text ∧ splitName? text = some (name', rest) ∧
    name' ∈ terms.keys

/-- Where no term refers to itself, references come to an end. -/
theorem wellFoundedOn_refersTo (h : ∀ name, ¬Relation.TransGen (RefersTo terms) name name) :
    Set.WellFoundedOn {name | name ∈ terms.keys} (flip (RefersTo terms)) := by
  have htrans : IsTrans String (Relation.TransGen (flip (RefersTo terms))) :=
    ⟨fun _ _ _ => Relation.TransGen.trans⟩
  have hirrefl : Std.Irrefl (Relation.TransGen (flip (RefersTo terms))) :=
    ⟨fun name hname => h name (Relation.transGen_swap.mp hname)⟩
  have horder : IsStrictOrder String (Relation.TransGen (flip (RefersTo terms))) := ⟨⟩
  have hclosure : Set.WellFoundedOn {name | name ∈ terms.keys}
      (Relation.TransGen (flip (RefersTo terms))) := terms.keys.finite_toSet.wellFoundedOn
  exact hclosure.mono (fun _ _ => Relation.TransGen.single) subset_rfl

/-- Texts with a colon can be expanded in full if they do not refer to each other in a circle. -/
theorem exists_fullExpansion
    (hcolon : ∀ name text, terms.get? name = some text → ':' ∈ text.toList)
    (hacyclic : ∀ name, ¬Relation.TransGen (RefersTo terms) name name)
    (h : terms.get? name = some text) (rest : String) :
    ∃ iri, FullExpansion terms (text ++ rest) iri := by
  have hmem : name ∈ terms.keys := SortedMap.mem_keys.mpr ⟨text, h⟩
  -- any rest, since each step puts one behind the text of the next term
  refine (wellFoundedOn_refersTo hacyclic).induction
    (P := fun name => ∀ text rest, terms.get? name = some text →
      ∃ iri, FullExpansion terms (text ++ rest) iri)
    hmem (fun name hmem ih text rest h => ?_) text rest h
  cases hstep : expandPrefix? terms (text ++ rest) with
  | none => exact ⟨_, .refl, hstep⟩
  | some next =>
    obtain ⟨name', rest', start, hsplit, hstart, rfl⟩ := expandPrefix?_eq_some.mp hstep
    obtain ⟨rest₀, hsplit₀⟩ := exists_splitName?_of_append (hcolon name text h) hsplit
    have hmem' : name' ∈ terms.keys := SortedMap.mem_keys.mpr ⟨start, hstart⟩
    obtain ⟨iri, hfull⟩ := ih name' hmem' ⟨text, rest₀, h, hsplit₀, hmem'⟩ start rest' hstart
    exact ⟨iri, hfull.head hstep⟩

namespace Context

variable {c c' : Context} {value : Json} {m : String × Json} {members : List (String × Json)}

/-! ## Definitions -/

/-- The text of a definition, which may be wrapped in an object. -/
def text? : Json → Option String
  | .string s => some s
  | .object [("@id", .string s)] => some s
  | _ => none

/-- What a context object may have as a member: a null, or the text of a term or the vocabulary. -/
def IsDefinition (m : String × Json) : Prop :=
  m.2 = .null ∨ (∃ text, text? m.2 = some text) ∧ (m.1 = "@vocab" ∨ isKeyword m.1 = false)

/-- Enters a definition. A member without a text is taken for a null. -/
def enter (c : Context) (m : String × Json) : Context :=
  match text? m.2 with
  | none => { c with terms := c.terms.erase m.1 }
  | some text =>
    if m.1 = "@vocab" then { c with vocab := some text }
    else { c with terms := c.terms.insert m.1 text }

/-- A context with definitions entered, before they are expanded. -/
def enterAll (c : Context) (members : List (String × Json)) : Context := members.foldl enter c

theorem definition_eq_ok :
    definition name value = .ok text ↔ text? value = some text := by
  unfold definition
  split
  · simp [text?]
  · simp [text?]
  next members hid => simp [text?.eq_3 (.object members) nofun fun s h => hid s (Json.object.inj h)]
  next hstring hid _ => simp [text?.eq_3 value hstring hid]

theorem define_of_text? (h : text? value = some text) (c : Context) (name : String) :
    c.define name value =
      if name = "@vocab" then .ok { c with vocab := some text }
      else if isKeyword name then .error (.contextKeyword name)
      else .ok { c with terms := c.terms.insert name text } := by
  have hnull : value ≠ .null := by
    rintro rfl
    cases h
  rw [define.eq_2 c name value hnull, definition_eq_ok.mpr h]
  by_cases hname : name = "@vocab"
  · rw [if_pos hname]
    exact if_pos hname
  · rw [if_neg hname]
    refine (if_neg hname).trans ?_
    cases isKeyword name <;> rfl

theorem define_eq_ok : c.define m.1 m.2 = .ok c' ↔ IsDefinition m ∧ c.enter m = c' := by
  obtain ⟨name, value⟩ := m
  rw [IsDefinition, enter]
  cases htext : text? value with
  | some text =>
    have hnull : value ≠ .null := by
      rintro rfl
      cases htext
    rw [define_of_text? htext]
    by_cases hname : name = "@vocab"
    · simp [hname]
    · cases isKeyword name <;> simp [hname, hnull]
  | none =>
    -- only a null passes without a text
    by_cases hnull : value = .null
    · simp [hnull, define]
    · rw [define.eq_2 c name value hnull, bind_eq_ok]
      simp [definition_eq_ok, htext, hnull]

theorem extend_object_eq_ok : c.extend (.object members) = .ok c' ↔
    (∀ m ∈ members, IsDefinition m) ∧ (c.enterAll members).expandTerms = c' := by
  have hfold : ∀ c₁ : Context,
      members.foldlM (fun (c : Context) m => c.define m.1 m.2) c = .ok c₁ ↔
        (∀ m ∈ members, IsDefinition m) ∧ c.enterAll members = c₁ := by
    induction members generalizing c with
    | nil => simp [enterAll, pure_eq_ok]
    | cons m members ih =>
      intro c₁
      rw [List.foldlM_cons, bind_eq_ok, List.forall_mem_cons]
      simp only [define_eq_ok, ih, and_assoc, exists_and_left, exists_eq_left']
      rfl
  rw [extend, extendBy, map_eq_ok]
  simp only [hfold, and_assoc, exists_and_left, exists_eq_left']

/-! ## Look-up -/

/-- What no definition changes is kept. -/
private theorem enterAll_frame {α : Type} {f : Context → α}
    (h : ∀ m ∈ members, ∀ c : Context, f (c.enter m) = f c) (c : Context) :
    f (c.enterAll members) = f c := by
  induction members generalizing c with
  | nil => rfl
  | cons m members ih =>
    obtain ⟨hm, hmembers⟩ := List.forall_mem_cons.mp h
    exact (ih hmembers (c.enter m)).trans (hm c)

/-- What one definition alone changes is as that definition leaves it. -/
private theorem exists_enterAll {α : Type} {f : Context → α} (hkeys : (members.map (·.1)).Nodup)
    (hm : m ∈ members) (h : ∀ m' : String × Json, m'.1 ≠ m.1 → ∀ c : Context, f (c.enter m') = f c)
    (c : Context) : ∃ c₀ : Context, f c₀ = f c ∧ f (c.enterAll members) = f (c₀.enter m) := by
  induction members generalizing c with
  | nil => cases hm
  | cons m' members ih =>
    rw [List.map_cons, List.nodup_cons] at hkeys
    rcases List.mem_cons.mp hm with rfl | hm
    · refine ⟨c, rfl, enterAll_frame (fun m' hm' => h m' fun hname => hkeys.1 ?_) (c.enter m)⟩
      exact List.mem_map.mpr ⟨m', hm', hname⟩
    · obtain ⟨c₀, hc₀, hlast⟩ := ih hkeys.2 hm (c.enter m')
      have hne : m'.1 ≠ m.1 := fun hname => hkeys.1 (List.mem_map.mpr ⟨m, hm, hname.symm⟩)
      exact ⟨c₀, hc₀.trans (h m' hne c), hlast⟩

theorem get?_enter_of_ne (h : m.1 ≠ name) (c : Context) :
    (c.enter m).terms.get? name = c.terms.get? name := by
  rw [enter]
  split
  · rw [SortedMap.get?_erase, if_neg (Ne.symm h)]
  · split
    · rfl
    · rw [SortedMap.get?_insert, if_neg (Ne.symm h)]

theorem get?_enter_self (h : m.1 = "@vocab" → text? m.2 = none) (c : Context) :
    (c.enter m).terms.get? m.1 = text? m.2 := by
  rw [enter]
  split
  next hnone => rw [SortedMap.get?_erase, if_pos rfl, hnone]
  next text htext =>
    have hname : m.1 ≠ "@vocab" := fun hname => by
      rw [h hname] at htext
      cases htext
    rw [if_neg hname, SortedMap.get?_insert, if_pos rfl, htext]

theorem vocab_enter (c : Context) (m : String × Json) :
    (c.enter m).vocab = if m.1 = "@vocab" then (text? m.2).or c.vocab else c.vocab := by
  rw [enter]
  cases text? m.2 with
  | none => rw [Option.none_or, ite_self]
  | some text =>
    dsimp only
    split <;> rfl

theorem get?_enterAll_of_not_mem (h : name ∉ members.map (·.1)) (c : Context) :
    (c.enterAll members).terms.get? name = c.terms.get? name :=
  enterAll_frame (f := fun c => c.terms.get? name) (fun _ hm => get?_enter_of_ne fun hname =>
    h (List.mem_map.mpr ⟨_, hm, hname⟩)) c

theorem vocab_enterAll_of_not_mem (h : "@vocab" ∉ members.map (·.1)) (c : Context) :
    (c.enterAll members).vocab = c.vocab := by
  refine enterAll_frame (f := vocab) (fun m hm c => ?_) c
  rw [vocab_enter, if_neg fun hname => h (List.mem_map.mpr ⟨m, hm, hname⟩)]

section

variable (hkeys : (members.map (·.1)).Nodup)
include hkeys

theorem get?_enterAll (hm : (name, value) ∈ members) (h : name = "@vocab" → text? value = none)
    (c : Context) : (c.enterAll members).terms.get? name = text? value := by
  obtain ⟨c₀, -, hlast⟩ := exists_enterAll (f := fun c => c.terms.get? name) hkeys hm
    (fun _ hne => get?_enter_of_ne hne) c
  exact hlast.trans (get?_enter_self h c₀)

/-- A null leaves the vocabulary as it is. -/
theorem vocab_enterAll (hm : ("@vocab", value) ∈ members) (c : Context) :
    (c.enterAll members).vocab = (text? value).or c.vocab := by
  obtain ⟨c₀, hc₀, hlast⟩ := exists_enterAll (f := vocab) hkeys hm
    (fun m hne c => by rw [vocab_enter, if_neg hne]) c
  rw [hlast, vocab_enter, if_pos rfl, hc₀]

end

theorem get?_expandTerms (c : Context) (name : String) :
    c.expandTerms.terms.get? name = (c.terms.get? name).map (expandOnce c.terms) :=
  SortedMap.get?_map ..

private theorem map_eq_self_iff {α : Type} {f : α → α} {o : Option α} :
    o.map f = o ↔ ∀ a, o = some a → f a = a := by
  cases o <;> simp

theorem expandTerms_eq_self_iff : c.expandTerms = c ↔
    ∀ name text, c.terms.get? name = some text → expandOnce c.terms text = text := by
  have hterms : c.expandTerms = c ↔ ∀ name, c.expandTerms.terms.get? name = c.terms.get? name := by
    refine ⟨fun h name => by rw [h], fun h => ?_⟩
    exact congrArg (Context.mk c.vocab) (SortedMap.ext h)
  rw [hterms]
  exact forall_congr' fun name => by rw [get?_expandTerms, map_eq_self_iff]

/-! ## What a context object changes -/

/-- Only names of the members have a new meaning, and those of nulls have none. -/
structure ChangesOnly (members : List (String × Json)) (c c' : Context) : Prop where
  terms : ∀ name ∉ members.map (·.1), c'.terms.get? name = c.terms.get? name
  vocab : "@vocab" ∉ members.map (·.1) → c'.vocab = c.vocab
  nullTerm : ∀ name, (name, .null) ∈ members → c'.terms.get? name = none
  nullVocab : ("@vocab", .null) ∈ members → c'.vocab = none

/-- A context object changes its own names only if the texts of all other names stay as they are
when they are expanded, and if there is no vocabulary that a null would take back. An empty one
changes nothing only if all texts in force stay as they are. -/
theorem extend_changesOnly_iff (hkeys : (members.map (·.1)).Nodup)
    (h : c.extend (.object members) = .ok c') :
    (ChangesOnly members c c' ↔
      (∀ name ∉ members.map (·.1), ∀ text, c.terms.get? name = some text →
        expandOnce (c.enterAll members).terms text = text) ∧
      (("@vocab", .null) ∈ members → c.vocab = none)) ∧
    (c.extend (.object []) = .ok c ↔
      ∀ name text, c.terms.get? name = some text → expandOnce c.terms text = text) := by
  obtain ⟨-, rfl⟩ := extend_object_eq_ok.mp h
  have hvocab : (c.enterAll members).expandTerms.vocab = (c.enterAll members).vocab := rfl
  have hnull : ("@vocab", .null) ∈ members → (c.enterAll members).expandTerms.vocab = c.vocab :=
    fun hm => hvocab.trans (vocab_enterAll hkeys hm c)
  have hterms : ∀ name ∉ members.map (·.1),
      (c.enterAll members).expandTerms.terms.get? name = c.terms.get? name ↔
        ∀ text, c.terms.get? name = some text →
          expandOnce (c.enterAll members).terms text = text := fun name hname => by
    rw [get?_expandTerms, get?_enterAll_of_not_mem hname, map_eq_self_iff]
  refine ⟨⟨fun hchanges => ⟨fun name hname => ?_, fun hm => ?_⟩, fun ⟨hkept, hnone⟩ => ?_⟩, ?_⟩
  · exact (hterms name hname).mp (hchanges.terms name hname)
  · exact (hnull hm).symm.trans (hchanges.nullVocab hm)
  · refine ⟨fun name hname => (hterms name hname).mpr (hkept name hname), fun hm => ?_,
      fun name hm => ?_, fun hm => (hnull hm).trans (hnone hm)⟩
    · rw [hvocab, vocab_enterAll_of_not_mem hm]
    · rw [get?_expandTerms, get?_enterAll hkeys hm fun _ => rfl]
      rfl
  · rw [extend_object_eq_ok, and_iff_right (List.forall_mem_nil _)]
    exact expandTerms_eq_self_iff

/-- A term is expanded by another one that comes later, and a null leaves the vocabulary. -/
theorem extend_changesOnly_later :
    let c : Context := { vocab := some "http://v/", terms := .ofList [("knows", "ex:knows")] }
    let members : List (String × Json) := [("@vocab", .null), ("ex", .string "http://e/")]
    ∃ c', c.extend (.object members) = .ok c' ∧ c'.terms.get? "knows" = some "http://e/knows" ∧
      c'.vocab = some "http://v/" ∧ ¬ChangesOnly members c c' ∧ c.extend (.object []) = .ok c := by
  intro c members
  have hkeys : (members.map (·.1)).Nodup := by decide
  have hkept : ∀ e ∈ c.terms.toList, expandOnce c.terms e.2 = e.2 := by decide +kernel
  let c' := (c.enterAll members).expandTerms
  have h : c.extend (.object members) = .ok c' := by decide +kernel
  obtain ⟨hiff, hempty⟩ := extend_changesOnly_iff hkeys h
  refine ⟨c', h, by decide +kernel, by decide +kernel, fun hchanges => ?_, hempty.mpr ?_⟩
  · have hknows := (hiff.mp hchanges).1 "knows" (by decide) "ex:knows" (by decide +kernel)
    exact absurd hknows (by decide +kernel)
  · exact fun name text hterm => hkept (name, text) (SortedMap.get?_eq_some_iff.mp hterm)

/-! ## Terms of a context object -/

/-- A context object by itself binds each term to its text, expanded once. This is the full
expansion if it starts with no term. Texts with a colon that do not refer to each other in a circle
can be expanded in full. -/
theorem extend_fullExpansion_iff (hkeys : (members.map (·.1)).Nodup)
    (hmembers : ∀ m ∈ members, IsDefinition m) :
    let terms := (enterAll {} members).terms
    ∃ c', extend {} (.object members) = .ok c' ∧
      ∀ name value text, (name, value) ∈ members → name ≠ "@vocab" → text? value = some text →
        c'.terms.get? name = some (expandOnce terms text) ∧
        (∀ iri, FullExpansion terms text iri →
          (c'.terms.get? name = some iri ↔ expandPrefix? terms (expandOnce terms text) = none)) ∧
        ((∀ name text, terms.get? name = some text → ':' ∈ text.toList) →
          (∀ name, ¬Relation.TransGen (RefersTo terms) name name) →
          ∃! iri, FullExpansion terms text iri) := by
  intro terms
  refine ⟨_, extend_object_eq_ok.mpr ⟨hmembers, rfl⟩, fun name value text hm hname htext => ?_⟩
  have hterm : terms.get? name = some text :=
    (get?_enterAll hkeys hm (fun h => absurd h hname) {}).trans htext
  have hbound : (enterAll {} members).expandTerms.terms.get? name =
      some (expandOnce terms text) := by rw [get?_expandTerms, hterm, Option.map_some]
  refine ⟨hbound, fun iri hfull => ?_, fun hcolon hacyclic => ?_⟩
  · rw [hbound, Option.some.injEq]
    exact hfull.expandOnce_eq_iff
  · obtain ⟨iri, hfull⟩ := exists_fullExpansion hcolon hacyclic hterm ""
    rw [String.append_empty] at hfull
    exact ⟨iri, hfull, fun iri' hfull' => hfull'.unique hfull⟩

/-- Of three terms in a chain, the second is expanded in full, and the first is not. -/
theorem extend_fullExpansion_chain :
    let members : List (String × Json) :=
      [("a", .string "b:x"), ("b", .object [("@id", .string "c:y")]), ("c", .string "http://e/")]
    let terms := (enterAll {} members).terms
    ∃ c', extend {} (.object members) = .ok c' ∧
      (c'.terms.get? "a" = some "c:yx" ∧ ∃ iri, FullExpansion terms "b:x" iri ∧ iri ≠ "c:yx") ∧
      ∃ iri, FullExpansion terms "c:y" iri ∧ c'.terms.get? "b" = some iri := by
  intro members terms
  have hmembers : ∀ m ∈ members, IsDefinition m := by
    refine List.forall_mem_cons.mpr ⟨.inr ⟨⟨_, rfl⟩, .inr rfl⟩, ?_⟩
    refine List.forall_mem_cons.mpr ⟨.inr ⟨⟨_, rfl⟩, .inr rfl⟩, ?_⟩
    exact List.forall_mem_singleton.mpr (.inr ⟨⟨_, rfl⟩, .inr rfl⟩)
  have hcolon : ∀ name text, terms.get? name = some text → ':' ∈ text.toList := by
    have hall : ∀ e ∈ terms.toList, ':' ∈ e.2.toList := by decide +kernel
    exact fun name text h => hall (name, text) (SortedMap.get?_eq_some_iff.mp h)
  -- every term refers to later ones only
  have hlater : ∀ {name name'}, RefersTo terms name name' → name < name' := by
    have hall : ∀ e ∈ terms.toList, ∀ name ∈ terms.keys,
        (splitName? e.2).map (·.1) = some name → e.1 < name := by decide +kernel
    rintro name name' ⟨text, rest, h, hsplit, hmem⟩
    exact hall (name, text) (SortedMap.get?_eq_some_iff.mp h) name' hmem (by rw [hsplit]; rfl)
  have hacyclic : ∀ name, ¬Relation.TransGen (RefersTo terms) name name := by
    have htrans : ∀ {name name'}, Relation.TransGen (RefersTo terms) name name' → name < name' := by
      intro name name' h
      induction h with
      | single h => exact hlater h
      | tail _ h ih => exact String.lt_trans ih (hlater h)
    exact fun name h => String.lt_irrefl name (htrans h)
  obtain ⟨c', h, hterms⟩ := extend_fullExpansion_iff (by decide) hmembers
  obtain ⟨ha, hafull, haiff⟩ := hterms "a" _ "b:x" List.mem_cons_self (by decide) rfl
  obtain ⟨-, hbfull, hbiff⟩ := hterms "b" _ "c:y" (.tail _ List.mem_cons_self) (by decide) rfl
  obtain ⟨iri, hiri, -⟩ := haiff hcolon hacyclic
  obtain ⟨iri', hiri', -⟩ := hbiff hcolon hacyclic
  have hstep : expandOnce terms "b:x" = "c:yx" := by decide +kernel
  refine ⟨c', h, ⟨ha.trans (congrArg some hstep), iri, hiri, ?_⟩, iri', hiri', ?_⟩
  · rintro rfl
    exact absurd ((hafull _ hiri).mp (ha.trans (congrArg some hstep))) (by decide +kernel)
  · exact (hbfull iri' hiri').mpr (by decide +kernel)

end Context
end LinkedData
end DualStore
