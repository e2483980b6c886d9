import DualStore.Proofs.ParsedRequests
import DualStore.Proofs.ReadQueries
import Mathlib.Data.List.TakeWhile

/-! Readers look at the tokens that they pass and at the next one. So what they have read they read
again with something else behind it that starts alike, or with a closing brace, which ends whatever
can end at all (`Local`). -/

namespace DualStore.Grammar

variable {α : Type} {s : Scope} {place : Place} {position : Position}
  {ts ts₁ ts₂ rest rest' : List Token}

/-! ## Heads -/

theorem punct?_eq_some {c : Char} {r : Read Unit ts} (h : punct? c ts = some r) :
    ts = .punct c :: r.rest := by
  cases ts with
  | nil => cases h
  | cons t ts =>
    rw [punct?, Option.ite_none_right_eq_some] at h
    obtain ⟨rfl, h⟩ := h
    cases h
    rfl

theorem punct_eq_ok {c : Char} {r : Read Unit ts} (h : punct c ts = .ok r) :
    ts = .punct c :: r.rest := by
  rw [punct] at h
  split at h
  next hr =>
    cases h
    exact punct?_eq_some hr
  next => cases h

theorem punct?_eq_none_iff {c : Char} : punct? c ts = none ↔ ts.head? ≠ some (.punct c) := by
  cases ts <;> simp [punct?]

theorem startsWithPunct_iff {marks : List Char} :
    startsWithPunct marks ts = true ↔ ∃ c ∈ marks, ts.head? = some (.punct c) := by
  cases ts with
  | nil => simp [startsWithPunct]
  | cons t ts => cases t <;> simp [startsWithPunct]

theorem endsString_iff : EndsString ts ↔
    ts.head? ≠ some .datatypeMark ∧ ∀ tag, ts.head? ≠ some (.language tag) := by
  cases ts with
  | nil => simp [EndsString]
  | cons t ts => cases t <;> simp [EndsString]

/-- What may come in the place of a rest. -/
def MayFollow (rest rest' : List Token) : Prop :=
  rest'.head? = rest.head? ∨ rest'.head? = some (.punct '\x7d')

namespace MayFollow

theorem cons (t : Token) (rest rest' : List Token) : MayFollow (t :: rest) (t :: rest') := .inl rfl

theorem append (h : MayFollow rest rest') (front : List Token) :
    MayFollow (front ++ rest) (front ++ rest') := by
  cases front with
  | nil => exact h
  | cons t front => exact .cons t _ _

/-- Nothing is met that was not there before. -/
theorem head?_ne {t : Token} (h : MayFollow rest rest') (ht : t ≠ .punct '\x7d')
    (hrest : rest.head? ≠ some t) : rest'.head? ≠ some t := by
  rcases h with h | h
  · rwa [h]
  · rw [h]
    exact fun heq => ht (Option.some.inj heq).symm

theorem punct?_eq_none {c : Char} (h : MayFollow rest rest') (hc : c ≠ '\x7d')
    (hrest : punct? c rest = none) : punct? c rest' = none :=
  punct?_eq_none_iff.mpr
    (h.head?_ne (fun heq => hc (Token.punct.inj heq)) (punct?_eq_none_iff.mp hrest))

theorem endsString (h : MayFollow rest rest') (hrest : EndsString rest) : EndsString rest' := by
  obtain ⟨hdatatype, hlanguage⟩ := endsString_iff.mp hrest
  refine endsString_iff.mpr ⟨h.head?_ne (by decide) hdatatype, fun tag => ?_⟩
  exact h.head?_ne (fun heq => by cases heq) (hlanguage tag)

/-- What a closing brace ends ends as well. -/
theorem startsWithPunct {marks : List Char} (h : MayFollow rest rest') (hmarks : '\x7d' ∈ marks)
    (hrest : startsWithPunct marks rest = true) : Grammar.startsWithPunct marks rest' = true := by
  obtain ⟨c, hc, hhead⟩ := startsWithPunct_iff.mp hrest
  rcases h with h | h
  · exact startsWithPunct_iff.mpr ⟨c, hc, h.trans hhead⟩
  · exact startsWithPunct_iff.mpr ⟨_, hmarks, h⟩

end MayFollow

/-- The front of the tokens is passed, with the rest behind it or with whatever may come there. -/
def Local (Passes : List Token → List Token → Prop) (ts rest : List Token) : Prop :=
  ∃ front, ts = front ++ rest ∧ ∀ rest', MayFollow rest rest' → Passes (front ++ rest') rest'

/-- One front after the other. -/
theorem Local.trans {P Q : List Token → List Token → Prop} (h : Local P ts ts₁)
    (h' : Local Q ts₁ rest) : Local (fun ts rest => ∃ ts₁, P ts ts₁ ∧ Q ts₁ rest) ts rest := by
  obtain ⟨front, rfl, hP⟩ := h
  obtain ⟨front', rfl, hQ⟩ := h'
  refine ⟨front ++ front', (List.append_assoc ..).symm, fun rest' hrest => ?_⟩
  rw [List.append_assoc]
  exact ⟨_, hP _ (hrest.append front'), hQ rest' hrest⟩

/-! ## Terms -/

variable {n : Node}

theorem readIri_local {t : Term} (h : Reads (readIri s ts) t rest) :
    Local (fun ts rest => Reads (readIri s ts) t rest) ts rest := by
  obtain ⟨hlt, h⟩ := h
  unfold readIri at h
  split at h
  · obtain ⟨t, ht, heq⟩ := map_eq_ok.mp h
    cases heq
    refine ⟨[_], rfl, fun rest' _ => ?_⟩
    change Reads ((Scope.ofIri _).map _) _ _
    rw [ht]
    exact ⟨_, rfl⟩
  · obtain ⟨t, ht, heq⟩ := map_eq_ok.mp h
    cases heq
    refine ⟨[_], rfl, fun rest' _ => ?_⟩
    change Reads ((s.expand _ _).map _) _ _
    rw [ht]
    exact ⟨_, rfl⟩
  · cases h

private theorem readLiteral_local {content : String} {rest : Rest ts}
    (h : readLiteral s content ts = .ok (n, rest)) :
    Local (fun ts rest => ∃ hle, readLiteral s content ts = .ok (n, ⟨rest, hle⟩)) ts rest.1 := by
  unfold readLiteral at h
  split at h
  · obtain ⟨n', hn, heq⟩ := map_eq_ok.mp h
    cases heq
    refine ⟨[_], rfl, fun rest' _ => ⟨Nat.le_succ _, ?_⟩⟩
    change (liftTerm (Term.tagged content _)).map _ = _
    rw [hn]
    rfl
  · obtain ⟨datatype, hdatatype, h⟩ := bind_eq_ok.mp h
    obtain ⟨n', hn, h⟩ := bind_eq_ok.mp h
    cases h
    obtain ⟨front, hfront, hlocal⟩ := readIri_local ⟨datatype.shorter, hdatatype⟩
    refine ⟨.datatypeMark :: front, congrArg _ hfront, fun rest' hrest => ?_⟩
    obtain ⟨hlt, hread⟩ := hlocal rest' hrest
    rw [List.cons_append, readLiteral, hread]
    change ∃ hle, liftTerm (Term.typed content datatype.value.lexical) >>= _ = _
    rw [hn]
    exact ⟨_, rfl⟩
  · next hlanguage hdatatype =>
    cases h
    refine ⟨[], rfl, fun rest' hrest => ⟨Nat.le_refl _, readLiteral_plain content ?_⟩⟩
    refine hrest.endsString ?_
    change EndsString ts
    unfold EndsString
    split
    · exact hlanguage _ _ rfl
    · exact hdatatype _ rfl
    · trivial

private theorem readNode_cons {t : Token} (h : ∀ content, t ≠ .string content) (ts : List Token) :
    readNode s place position (t :: ts) =
      (nodeOfToken s place position t).map fun n => (Read.head t ts).map fun _ => n := by
  cases t with
  | string content => exact absurd rfl (h content)
  | _ => rfl

theorem readNode_local (h : Reads (readNode s place position ts) n rest) :
    Local (fun ts rest => Reads (readNode s place position ts) n rest) ts rest := by
  obtain ⟨hlt, h⟩ := h
  unfold readNode at h
  split at h
  · cases h
  · obtain ⟨⟨n, rest⟩, hliteral, heq⟩ := map_eq_ok.mp h
    cases heq
    obtain ⟨front, hfront, hlocal⟩ := readLiteral_local hliteral
    refine ⟨.string _ :: front, congrArg _ hfront, fun rest' hrest => ?_⟩
    obtain ⟨hle, hread⟩ := hlocal rest' hrest
    rw [List.cons_append, readNode, hread]
    exact ⟨_, rfl⟩
  · next ht =>
    obtain ⟨n, hn, heq⟩ := map_eq_ok.mp h
    cases heq
    refine ⟨[_], rfl, fun rest' _ => ?_⟩
    change Reads (readNode s place position (_ :: rest')) _ _
    rw [readNode_cons ht, hn]
    exact ⟨_, rfl⟩

/-- A token that is none of the marks and words that readers of blocks look for. -/
structure StartsTerm (ts : List Token) : Prop where
  punct? : ∀ c, Grammar.punct? c ts = none
  startsWithPunct : ∀ marks, Grammar.startsWithPunct marks ts = false
  keyword? : Grammar.keyword? "GRAPH" ts = none
  startsWithKeyword : Grammar.startsWithKeyword "GRAPH" ts = false
  oneOf? : Grammar.oneOf? unsupportedElements ts = none

private theorem startsTerm_of_ne {t : Token} (hpunct : ∀ c, t ≠ .punct c)
    (hword : ∀ keyword ∈ "GRAPH" :: unsupportedElements, t.isKeyword keyword = false)
    (ts : List Token) : StartsTerm (t :: ts) where
  punct? c := if_neg (hpunct c)
  startsWithPunct marks := by
    cases t with
    | punct c => exact absurd rfl (hpunct c)
    | _ => rfl
  keyword? := by
    rw [Grammar.keyword?, hword _ List.mem_cons_self]
    rfl
  startsWithKeyword := hword _ List.mem_cons_self
  oneOf? := List.find?_eq_none.mpr fun keyword hkeyword => by
    rw [Grammar.startsWithKeyword, List.head?_cons, Option.any_some,
      hword keyword (List.mem_cons_of_mem _ hkeyword)]
    exact Bool.false_ne_true

private theorem startsTerm_of_nodeOfToken {t : Token} (h : nodeOfToken s place position t = .ok n)
    (ts : List Token) : StartsTerm (t :: ts) := by
  unfold nodeOfToken at h
  split at h
  iterate 8 exact startsTerm_of_ne (fun c hc => by cases hc) (fun _ _ => rfl) ts
  iterate 2 exact startsTerm_of_ne (fun c hc => by cases hc) (by decide) ts
  iterate 4 cases h
  · split at h
    next hverb =>
      rw [hverb.1]
      exact startsTerm_of_ne (fun c hc => by cases hc) (by decide) ts
    next => cases h

theorem startsTerm_of_readNode (h : Reads (readNode s place position ts) n rest) :
    StartsTerm ts := by
  obtain ⟨hlt, h⟩ := h
  unfold readNode at h
  split at h
  · cases h
  · exact startsTerm_of_ne (fun c hc => by cases hc) (fun _ _ => rfl) _
  · obtain ⟨n, hn, -⟩ := map_eq_ok.mp h
    exact startsTerm_of_nodeOfToken hn _

/-! ## Objects -/

/-- Objects up to some rest, with commas between them. -/
inductive ObjectsTo (s : Scope) (place : Place) : List Token → List Node → List Token → Prop
  | last {ts rest : List Token} {o : Node} (ho : Reads (readNode s place .object ts) o rest)
    (hcomma : punct? ',' rest = none) : ObjectsTo s place ts [o] rest
  | comma {ts ts₁ rest : List Token} {o : Node} {more : List Node}
    (ho : Reads (readNode s place .object ts) o (.punct ',' :: ts₁))
    (h : ObjectsTo s place ts₁ more rest) : ObjectsTo s place ts (o :: more) rest

variable {os : List Node}

theorem ObjectsTo.reads (h : ObjectsTo s place ts os rest) :
    Reads (readObjects s place ts) os rest := by
  induction h with
  | last ho hcomma =>
    obtain ⟨hlt, ho⟩ := ho
    rw [readObjects]
    simp only [ho, bind, Except.bind, hcomma]
    exact ⟨_, rfl⟩
  | comma ho h ih =>
    obtain ⟨hlt, ho⟩ := ho
    obtain ⟨hlt', ih⟩ := ih
    rw [readObjects]
    simp only [ho, bind, Except.bind, punct?_self, ih]
    exact ⟨_, rfl⟩

theorem objectsTo_of_readObjects (h : Reads (readObjects s place ts) os rest) :
    ObjectsTo s place ts os rest := by
  induction ts using readObjects.induct generalizing os with
  | case1 ts ih =>
    obtain ⟨hlt, h⟩ := h
    rw [readObjects] at h
    obtain ⟨o, ho, h⟩ := bind_eq_ok.mp h
    split at h
    next hcomma =>
      cases h
      exact .last ⟨_, ho⟩ hcomma
    next comma hcomma =>
      obtain ⟨more, hmore, h⟩ := bind_eq_ok.mp h
      cases h
      have hobject : Reads (readNode s place .object ts) o.value (.punct ',' :: comma.rest) := by
        rw [← punct?_eq_some hcomma]
        exact ⟨o.shorter, ho⟩
      exact .comma hobject (ih o comma ⟨_, hmore⟩)

theorem ObjectsTo.local (h : ObjectsTo s place ts os rest) :
    Local (fun ts rest => ObjectsTo s place ts os rest) ts rest := by
  induction h with
  | last ho hcomma =>
    obtain ⟨front, rfl, hlocal⟩ := readNode_local ho
    refine ⟨front, rfl, fun rest' hrest => .last (hlocal rest' hrest) ?_⟩
    exact hrest.punct?_eq_none (by decide) hcomma
  | comma ho h ih =>
    obtain ⟨front, rfl, hlocal⟩ := readNode_local ho
    obtain ⟨front', rfl, hlocal'⟩ := ih
    refine ⟨front ++ .punct ',' :: front', by simp, fun rest' hrest => ?_⟩
    rw [List.append_assoc]
    exact .comma (hlocal _ (.cons _ _ _)) (hlocal' rest' hrest)

theorem readObjects_local (h : Reads (readObjects s place ts) os rest) :
    Local (fun ts rest => Reads (readObjects s place ts) os rest) ts rest := by
  obtain ⟨front, hfront, hlocal⟩ := (objectsTo_of_readObjects h).local
  exact ⟨front, hfront, fun rest' hrest => (hlocal rest' hrest).reads⟩

theorem startsTerm_of_readObjects (h : Reads (readObjects s place ts) os rest) :
    StartsTerm ts := by
  cases objectsTo_of_readObjects h with
  | last ho => exact startsTerm_of_readNode ho
  | comma ho => exact startsTerm_of_readNode ho

/-! ## Properties -/

/-- A mark is passed, and all that are like it. -/
def PassesMarks (c : Char) (ts rest : List Token) : Prop :=
  ∃ ts₁, ts = .punct c :: ts₁ ∧ skipPunct c ts₁ = rest

theorem PassesMarks.local {c : Char} (h : PassesMarks c ts rest) (hc : c ≠ '\x7d') :
    Local (PassesMarks c) ts rest := by
  obtain ⟨ts, rfl, rfl⟩ := h
  refine ⟨.punct c :: ts.takeWhile (· = .punct c), ?_, fun rest' hrest =>
    ⟨ts.takeWhile (· = .punct c) ++ rest', rfl, ?_⟩⟩
  · rw [skipPunct, List.cons_append, List.takeWhile_append_dropWhile]
  · have hmarks : ∀ t ∈ ts.takeWhile (· = .punct c), decide (t = .punct c) = true := by
      intro t ht
      exact List.mem_takeWhile_imp (p := fun t => decide (t = Token.punct c)) ht
    have hskip : (skipPunct c ts).head? ≠ some (.punct c) := by
      intro h
      have hnot := List.head?_dropWhile_not (fun t => decide (t = Token.punct c)) ts
      rw [skipPunct] at h
      simp [h] at hnot
    have hhead := hrest.head?_ne (fun heq => hc (Token.punct.inj heq)) hskip
    rw [skipPunct, List.dropWhile_append_of_pos hmarks]
    cases rest' with
    | nil => rfl
    | cons t rest' => exact List.dropWhile_cons_of_neg (by simpa using hhead)

/-- Predicates with their objects up to some rest, with semicolons between them and maybe behind
them. -/
inductive PropertiesTo (s : Scope) (place : Place) :
    List Token → List (Node × List Node) → List Token → Prop
  | last {ts ts₁ rest : List Token} {p : Node} {os : List Node}
    (hp : Reads (readNode s place .predicate ts) p ts₁)
    (hos : Reads (readObjects s place ts₁) os rest) (hmark : punct? ';' rest = none) :
    PropertiesTo s place ts [(p, os)] rest
  | ended {ts ts₁ ts₂ rest : List Token} {p : Node} {os : List Node}
    (hp : Reads (readNode s place .predicate ts) p ts₁)
    (hos : Reads (readObjects s place ts₁) os ts₂) (hmarks : PassesMarks ';' ts₂ rest)
    (hend : startsWithPunct ['.', '\x7d'] rest = true) : PropertiesTo s place ts [(p, os)] rest
  | semicolon {ts ts₁ ts₂ ts₃ rest : List Token} {p : Node} {os : List Node}
    {more : List (Node × List Node)} (hp : Reads (readNode s place .predicate ts) p ts₁)
    (hos : Reads (readObjects s place ts₁) os ts₂) (hmarks : PassesMarks ';' ts₂ ts₃)
    (h : PropertiesTo s place ts₃ more rest) : PropertiesTo s place ts ((p, os) :: more) rest

variable {ps : List (Node × List Node)}

theorem PropertiesTo.startsTerm (h : PropertiesTo s place ts ps rest) : StartsTerm ts := by
  cases h with
  | last hp => exact startsTerm_of_readNode hp
  | ended hp => exact startsTerm_of_readNode hp
  | semicolon hp => exact startsTerm_of_readNode hp

theorem PropertiesTo.reads (h : PropertiesTo s place ts ps rest) :
    Reads (readProperties s place ts) ps rest := by
  induction h with
  | last hp hos hmark =>
    have hpath := (startsTerm_of_readObjects hos).startsWithPunct ['/', '|', '^', '*', '+', '?']
    obtain ⟨hlt, hp⟩ := hp
    obtain ⟨hlt', hos⟩ := hos
    rw [readProperties]
    simp only [hp, bind, Except.bind, hpath, Bool.false_eq_true, if_false, hos, hmark]
    exact ⟨_, rfl⟩
  | ended hp hos hmarks hend =>
    have hpath := (startsTerm_of_readObjects hos).startsWithPunct ['/', '|', '^', '*', '+', '?']
    obtain ⟨ts₃, rfl, rfl⟩ := hmarks
    obtain ⟨hlt, hp⟩ := hp
    obtain ⟨hlt', hos⟩ := hos
    rw [readProperties]
    simp only [hp, bind, Except.bind, hpath, Bool.false_eq_true, if_false, hos, punct?_self, hend,
      if_true]
    exact ⟨_, rfl⟩
  | semicolon hp hos hmarks h ih =>
    have hpath := (startsTerm_of_readObjects hos).startsWithPunct ['/', '|', '^', '*', '+', '?']
    have hend := h.startsTerm.startsWithPunct ['.', '\x7d']
    obtain ⟨ts₃, rfl, rfl⟩ := hmarks
    obtain ⟨hlt, hp⟩ := hp
    obtain ⟨hlt', hos⟩ := hos
    obtain ⟨hlt'', ih⟩ := ih
    rw [readProperties]
    simp only [hp, bind, Except.bind, hpath, Bool.false_eq_true, if_false, hos, punct?_self, hend,
      ih]
    exact ⟨_, rfl⟩

theorem propertiesTo_of_readProperties (h : Reads (readProperties s place ts) ps rest) :
    PropertiesTo s place ts ps rest := by
  induction ts using readProperties.induct generalizing ps with
  | case1 ts ih =>
    obtain ⟨hlt, h⟩ := h
    rw [readProperties] at h
    obtain ⟨p, hp, h⟩ := bind_eq_ok.mp h
    split at h
    · cases h
    obtain ⟨os, hos, h⟩ := bind_eq_ok.mp h
    split at h
    next hmark =>
      cases h
      exact .last ⟨_, hp⟩ ⟨_, hos⟩ hmark
    next mark hmark =>
      have hmarks : PassesMarks ';' os.rest (skipPunct ';' mark.rest) :=
        ⟨mark.rest, punct?_eq_some hmark, rfl⟩
      split at h
      next hend =>
        cases h
        exact .ended ⟨_, hp⟩ ⟨_, hos⟩ hmarks hend
      next =>
        obtain ⟨more, hmore, h⟩ := bind_eq_ok.mp h
        cases h
        exact .semicolon ⟨_, hp⟩ ⟨_, hos⟩ hmarks (ih p os mark ⟨_, hmore⟩)

theorem PropertiesTo.local (h : PropertiesTo s place ts ps rest) :
    Local (fun ts rest => PropertiesTo s place ts ps rest) ts rest := by
  induction h with
  | last hp hos hmark =>
    obtain ⟨front, hfront, hlocal⟩ := (readNode_local hp).trans (readObjects_local hos)
    refine ⟨front, hfront, fun rest' hrest => ?_⟩
    obtain ⟨ts₁, hp', hos'⟩ := hlocal rest' hrest
    exact .last hp' hos' (hrest.punct?_eq_none (by decide) hmark)
  | ended hp hos hmarks hend =>
    have hone := (readNode_local hp).trans (readObjects_local hos)
    obtain ⟨front, hfront, hlocal⟩ := hone.trans (hmarks.local (by decide))
    refine ⟨front, hfront, fun rest' hrest => ?_⟩
    obtain ⟨ts₂, ⟨ts₁, hp', hos'⟩, hmarks'⟩ := hlocal rest' hrest
    exact .ended hp' hos' hmarks' (hrest.startsWithPunct (by decide) hend)
  | semicolon hp hos hmarks h ih =>
    have hone := (readNode_local hp).trans (readObjects_local hos)
    obtain ⟨front, hfront, hlocal⟩ := (hone.trans (hmarks.local (by decide))).trans ih
    refine ⟨front, hfront, fun rest' hrest => ?_⟩
    obtain ⟨ts₃, ⟨ts₂, ⟨ts₁, hp', hos'⟩, hmarks'⟩, h'⟩ := hlocal rest' hrest
    exact .semicolon hp' hos' hmarks' h'

theorem readProperties_local (h : Reads (readProperties s place ts) ps rest) :
    Local (fun ts rest => Reads (readProperties s place ts) ps rest) ts rest := by
  obtain ⟨front, hfront, hlocal⟩ := (propertiesTo_of_readProperties h).local
  exact ⟨front, hfront, fun rest' hrest => (hlocal rest' hrest).reads⟩

/-! ## Triples -/

variable {triples : List TriplePattern}

theorem readSubject_local (h : Reads (readSubject s place ts) triples rest) :
    Local (fun ts rest => Reads (readSubject s place ts) triples rest) ts rest := by
  obtain ⟨hlt, h⟩ := h
  rw [readSubject] at h
  obtain ⟨subject, hsubject, h⟩ := bind_eq_ok.mp h
  obtain ⟨ps, hps, h⟩ := bind_eq_ok.mp h
  cases h
  obtain ⟨front, hfront, hlocal⟩ :=
    (readNode_local ⟨subject.shorter, hsubject⟩).trans (readProperties_local ⟨ps.shorter, hps⟩)
  refine ⟨front, hfront, fun rest' hrest => ?_⟩
  obtain ⟨ts₁, ⟨hlt', hsubject'⟩, ⟨hlt'', hps'⟩⟩ := hlocal rest' hrest
  rw [readSubject]
  simp only [hsubject', bind, Except.bind, hps']
  exact ⟨_, rfl⟩

/-- What ends the triples of a subject is passed. -/
def Ends (ts rest : List Token) : Prop := ∃ h, endOfTriples ts = .ok ⟨rest, h⟩

/-- A brace or a `GRAPH`, which ends triples without being passed. -/
def Stops (ts : List Token) : Prop :=
  startsWithPunct ['\x7b', '\x7d'] ts = true ∨ startsWithKeyword "GRAPH" ts = true

theorem ends_iff : Ends ts rest ↔ ts = .punct '.' :: rest ∨ ts = rest ∧ Stops ts := by
  have hstops : Stops ts ↔
      (startsWithPunct ['\x7b', '\x7d'] ts || startsWithKeyword "GRAPH" ts) = true :=
    Bool.or_eq_true_iff.symm
  rw [Ends, endOfTriples]
  cases hpoint : punct? '.' ts with
  | some r =>
    have hts := punct?_eq_some hpoint
    have hnot : ¬Stops ts := by
      rw [hts]
      rintro (h | h) <;> cases h
    rw [or_iff_left fun h => hnot h.2]
    constructor
    · rintro ⟨_, h⟩
      cases h
      exact hts
    · intro h
      obtain rfl := (List.cons.inj (hts.symm.trans h)).2
      exact ⟨_, rfl⟩
  | none =>
    have hne : ts ≠ .punct '.' :: rest := by
      rintro rfl
      rw [punct?_self] at hpoint
      cases hpoint
    rw [or_iff_right hne, hstops]
    dsimp only
    split
    next hif =>
      rw [and_iff_left hif]
      constructor
      · rintro ⟨_, h⟩
        cases h
        rfl
      · rintro rfl
        exact ⟨Nat.le_refl _, rfl⟩
    next hif =>
      refine iff_of_false ?_ fun h => hif h.2
      rintro ⟨_, h⟩
      cases h

theorem MayFollow.stops (h : MayFollow rest rest') (hrest : Stops rest) : Stops rest' := by
  rcases hrest with hrest | hrest
  · exact .inl (h.startsWithPunct (by decide) hrest)
  · rcases h with h | h
    · exact .inr (by rwa [startsWithKeyword, h])
    · exact .inl (startsWithPunct_iff.mpr ⟨_, by decide, h⟩)

/-- What may come in the place of a rest that may end the triples before it without being passed. -/
def MayEnd (rest rest' : List Token) : Prop := Stops rest → MayFollow rest rest'

theorem MayEnd.append (h : MayEnd rest rest') (front : List Token) :
    MayEnd (front ++ rest) (front ++ rest') := by
  cases front with
  | nil => exact h
  | cons t front => exact fun _ => .cons t _ _

/-- The triples of a subject, and their end, with something else behind them. -/
theorem subject_local (hsubject : Reads (readSubject s place ts) triples ts₁)
    (hend : Ends ts₁ ts₂) : ∃ front, ts = front ++ ts₂ ∧ ∀ rest, MayEnd ts₂ rest →
      ∃ ts₁, Reads (readSubject s place (front ++ rest)) triples ts₁ ∧ Ends ts₁ rest := by
  obtain ⟨front, rfl, hlocal⟩ := readSubject_local hsubject
  rcases ends_iff.mp hend with rfl | ⟨rfl, hstops⟩
  · refine ⟨front ++ [.punct '.'], by simp, fun rest _ => ?_⟩
    rw [List.append_assoc]
    exact ⟨_, hlocal _ (.cons _ _ _), ends_iff.mpr (.inl rfl)⟩
  · refine ⟨front, rfl, fun rest hrest => ?_⟩
    have hfollow := hrest hstops
    exact ⟨rest, hlocal rest hfollow, ends_iff.mpr (.inr ⟨rfl, hfollow.stops hstops⟩)⟩

/-! ## Runs over triples -/

/-- A run over triples: subjects with their triples are read and points are passed, up to some
rest. -/
inductive TriplesTo (s : Scope) (place : Place) :
    List Token → List TriplePattern → List Token → Prop
  | done (ts : List Token) : TriplesTo s place ts [] ts
  | point {ts rest : List Token} {triples : List TriplePattern}
    (h : TriplesTo s place ts triples rest) : TriplesTo s place (.punct '.' :: ts) triples rest
  | subject {ts ts₁ ts₂ rest : List Token} {triples more : List TriplePattern}
    (hsubject : Reads (readSubject s place ts) triples ts₁) (hend : Ends ts₁ ts₂)
    (h : TriplesTo s place ts₂ more rest) : TriplesTo s place ts (triples ++ more) rest

/-- The run over the same triples with something else behind them. -/
theorem TriplesTo.local (h : TriplesTo s place ts triples rest) : ∃ front, ts = front ++ rest ∧
    ∀ rest', MayEnd rest rest' → TriplesTo s place (front ++ rest') triples rest' := by
  induction h with
  | done ts => exact ⟨[], rfl, fun rest' _ => .done rest'⟩
  | point h ih =>
    obtain ⟨front, rfl, hlocal⟩ := ih
    exact ⟨.punct '.' :: front, rfl, fun rest' hrest => .point (hlocal rest' hrest)⟩
  | subject hsubject hend h ih =>
    obtain ⟨front, rfl, hlocal⟩ := subject_local hsubject hend
    obtain ⟨front', rfl, hlocal'⟩ := ih
    refine ⟨front ++ front', (List.append_assoc ..).symm, fun rest' hrest => ?_⟩
    obtain ⟨ts₁, hsubject', hend'⟩ := hlocal _ (hrest.append front')
    rw [List.append_assoc]
    exact .subject hsubject' hend' (hlocal' rest' hrest)

theorem startsTerm_of_readSubject (h : Reads (readSubject s place ts) triples rest) :
    StartsTerm ts := by
  obtain ⟨hlt, h⟩ := h
  obtain ⟨subject, hsubject, -⟩ := bind_eq_ok.mp h
  exact startsTerm_of_readNode ⟨subject.shorter, hsubject⟩

/-! ## Readers of blocks along a run -/

section

variable {β : Type} {f : TriplePattern → β} {ts' : List Token}
  {reader : (ts : List Token) → Except SyntaxFault (Read (List β) ts)} {all : List β}

theorem reads_iff {a : α} {x : Except SyntaxFault (Read α ts)} :
    Reads x a rest ↔ ∃ r, x = .ok r ∧ r.value = a ∧ r.rest = rest := by
  constructor
  · rintro ⟨hlt, h⟩
    exact ⟨_, h, rfl, rfl⟩
  · rintro ⟨r, rfl, rfl, rfl⟩
    exact ⟨r.shorter, rfl⟩

/-- Something is made of the value, and the rest is left as it is. -/
theorem reads_map {b : β} {x : Except SyntaxFault (Read α ts')} {f : α → β}
    {g : Read α ts' → Read β ts} (hg : ∀ r, (g r).value = f r.value ∧ (g r).rest = r.rest) :
    Reads (x.map g) b rest ↔ ∃ a, Reads x a rest ∧ b = f a := by
  simp only [reads_iff, map_eq_ok]
  constructor
  · rintro ⟨_, ⟨r, hr, rfl⟩, hvalue, hrest⟩
    exact ⟨r.value, ⟨r, hr, rfl, (hg r).2 ▸ hrest⟩, hvalue ▸ (hg r).1⟩
  · rintro ⟨_, ⟨r, hr, rfl, hrest⟩, rfl⟩
    exact ⟨_, ⟨r, hr, rfl⟩, (hg r).1, (hg r).2.trans hrest⟩

/-- The value is left as it is, too. -/
theorem reads_map_id {a : α} {x : Except SyntaxFault (Read α ts')} {g : Read α ts' → Read α ts}
    (hg : ∀ r, (g r).value = r.value ∧ (g r).rest = r.rest) :
    Reads (x.map g) a rest ↔ Reads x a rest := by
  rw [reads_map (f := id) hg]
  simp

/-- A reader of blocks makes something of the triples of each subject, one by one, and goes on with
what is behind them. -/
structure ReadsBlocks (s : Scope) (place : Place) (f : TriplePattern → β)
    (reader : (ts : List Token) → Except SyntaxFault (Read (List β) ts)) : Prop where
  point : ∀ {ts rest all}, Reads (reader (.punct '.' :: ts)) all rest ↔ Reads (reader ts) all rest
  subject : ∀ {ts ts₁ ts₂ rest triples all}, Reads (readSubject s place ts) triples ts₁ →
    Ends ts₁ ts₂ → (Reads (reader ts) all rest ↔
      ∃ more, Reads (reader ts₂) more rest ∧ all = triples.map f ++ more)

/-- Such a reader goes on where the run over the triples ends. -/
theorem ReadsBlocks.run (h : ReadsBlocks s place f reader)
    (hrun : TriplesTo s place ts triples rest) : Reads (reader ts) all rest' ↔
      ∃ more, Reads (reader rest) more rest' ∧ all = triples.map f ++ more := by
  induction hrun generalizing all with
  | done ts => simp
  | point hrun ih => rw [h.point, ih]
  | subject hsubject hend hrun ih =>
    rw [h.subject hsubject hend]
    constructor
    · rintro ⟨_, hread, rfl⟩
      obtain ⟨more, hmore, rfl⟩ := ih.mp hread
      exact ⟨more, hmore, by rw [List.map_append, List.append_assoc]⟩
    · rintro ⟨more, hmore, rfl⟩
      exact ⟨_, ih.mpr ⟨more, hmore, rfl⟩, by rw [List.map_append, List.append_assoc]⟩

theorem readsBlocks_readTriples : ReadsBlocks s place id (readTriples s place) where
  point := by
    intro ts rest all
    have hclose : punct? '\x7d' (.punct '.' :: ts) = none := rfl
    rw [readTriples, hclose, punct?_self]
    exact reads_map_id fun r => ⟨rfl, rfl⟩
  subject := by
    intro ts ts₁ ts₂ rest triples all hsubject hend
    have hstarts := startsTerm_of_readSubject hsubject
    obtain ⟨hlt, hsubject⟩ := hsubject
    obtain ⟨hle, hend⟩ := hend
    rw [readTriples, hstarts.punct?, hstarts.punct?]
    simp only [hstarts.startsWithKeyword, hstarts.startsWithPunct, Bool.or_false,
      Bool.false_eq_true, if_false, hsubject, hend, bind, Except.bind]
    rw [List.map_id]
    exact reads_map fun more => ⟨rfl, rfl⟩

theorem readsBlocks_readTemplateBody :
    ReadsBlocks s place (⟨·, none⟩) (readTemplateBody s place) where
  point := by
    intro ts rest all
    have hclose : punct? '\x7d' (.punct '.' :: ts) = none := rfl
    rw [readTemplateBody, hclose, punct?_self]
    exact reads_map_id fun r => ⟨rfl, rfl⟩
  subject := by
    intro ts ts₁ ts₂ rest triples all hsubject hend
    have hstarts := startsTerm_of_readSubject hsubject
    obtain ⟨hlt, hsubject⟩ := hsubject
    obtain ⟨hle, hend⟩ := hend
    rw [readTemplateBody, hstarts.punct?, hstarts.punct?, hstarts.keyword?]
    simp only [hsubject, hend, bind, Except.bind]
    exact reads_map fun more => ⟨rfl, rfl⟩

theorem readsBlocks_readGroupBody : ReadsBlocks s .pattern .triple (readGroupBody s) where
  point := by
    intro ts rest all
    have hclose : punct? '\x7d' (.punct '.' :: ts) = none := rfl
    rw [readGroupBody, hclose, punct?_self]
    exact reads_map_id fun r => ⟨rfl, rfl⟩
  subject := by
    intro ts ts₁ ts₂ rest triples all hsubject hend
    have hstarts := startsTerm_of_readSubject hsubject
    obtain ⟨hlt, hsubject⟩ := hsubject
    obtain ⟨hle, hend⟩ := hend
    rw [readGroupBody, hstarts.punct?, hstarts.punct?, hstarts.punct?, hstarts.keyword?,
      hstarts.oneOf?]
    simp only [hsubject, hend, bind, Except.bind]
    exact reads_map fun more => ⟨rfl, rfl⟩

end

/-! ## Whole blocks -/

variable {templates : List QuadTemplate}

/-- Triples that are read are run over up to the brace that closes them. -/
theorem triplesTo_of_readTriples (h : Reads (readTriples s place ts) triples rest) :
    TriplesTo s place ts triples (.punct '\x7d' :: rest) := by
  obtain ⟨hlt, h⟩ := h
  induction ts using readTriples.induct generalizing triples with
  | case1 ts close hclose =>
    rw [readTriples, hclose] at h
    cases h
    rw [← punct?_eq_some hclose]
    exact .done ts
  | case2 ts hclose point hpoint hlt ih =>
    rw [readTriples, hclose, hpoint] at h
    obtain ⟨more, hmore, h⟩ := map_eq_ok.mp h
    cases h
    have hrun := TriplesTo.point (ih more.shorter hmore)
    rwa [← punct?_eq_some hpoint] at hrun
  | case3 ts hclose hpoint hgraph =>
    rw [readTriples, hclose, hpoint] at h
    simp [hgraph, expected] at h
  | case4 ts hclose hpoint hgraph ih =>
    rw [readTriples, hclose, hpoint] at h
    simp only [hgraph] at h
    obtain ⟨triples, htriples, h⟩ := bind_eq_ok.mp h
    obtain ⟨rest, hrest, h⟩ := bind_eq_ok.mp h
    obtain ⟨more, hmore, h⟩ := bind_eq_ok.mp h
    cases h
    exact .subject ⟨_, htriples⟩ ⟨_, hrest⟩ (ih _ _ more.shorter hmore)

theorem reads_readTriples_close (s : Scope) (place : Place) (rest : List Token) :
    Reads (readTriples s place (.punct '\x7d' :: rest)) [] rest := by
  rw [readTriples, punct?_self]
  exact ⟨_, rfl⟩

/-- What is behind the closing brace does not matter. -/
theorem readTriples_local (h : Reads (readTriples s place ts) triples rest) :
    ∃ front, ts = front ++ rest ∧
      ∀ rest', Reads (readTriples s place (front ++ rest')) triples rest' := by
  obtain ⟨front, rfl, hlocal⟩ := (triplesTo_of_readTriples h).local
  refine ⟨front ++ [.punct '\x7d'], by simp, fun rest' => ?_⟩
  rw [List.append_assoc]
  have hrun := hlocal (.punct '\x7d' :: rest') fun _ => .cons _ _ _
  rw [List.singleton_append, readsBlocks_readTriples.run hrun]
  exact ⟨[], reads_readTriples_close .., by simp⟩

/-! ## Runs over templates -/

/-- A run over a template: triples, alone or in graphs, up to some rest. -/
inductive TemplateTo (s : Scope) (place : Place) :
    List Token → List QuadTemplate → List Token → Prop
  | done (ts : List Token) : TemplateTo s place ts [] ts
  | point {ts rest : List Token} {templates : List QuadTemplate}
    (h : TemplateTo s place ts templates rest) :
    TemplateTo s place (.punct '.' :: ts) templates rest
  | subject {ts ts₁ ts₂ rest : List Token} {triples : List TriplePattern}
    {more : List QuadTemplate} (hsubject : Reads (readSubject s place ts) triples ts₁)
    (hend : Ends ts₁ ts₂) (h : TemplateTo s place ts₂ more rest) :
    TemplateTo s place ts (triples.map (⟨·, none⟩) ++ more) rest
  | graph {t : Token} {ts ts₁ ts₂ rest : List Token} {n : Node} {triples : List TriplePattern}
    {more : List QuadTemplate} (ht : t.isKeyword "GRAPH" = true)
    (hname : Reads (readNode s place .graph ts) n (.punct '\x7b' :: ts₁))
    (htriples : Reads (readTriples s place ts₁) triples ts₂)
    (h : TemplateTo s place ts₂ more rest) :
    TemplateTo s place (t :: ts) (triples.map (⟨·, graphName n⟩) ++ more) rest

private theorem reads_graph {t : Token} {all : List QuadTemplate} {ts₁ ts₂ : List Token}
    (ht : t.isKeyword "GRAPH" = true)
    (hname : Reads (readNode s place .graph ts) n (.punct '\x7b' :: ts₁))
    (htriples : Reads (readTriples s place ts₁) triples ts₂) :
    Reads (readTemplateBody s place (t :: ts)) all rest ↔
      ∃ more, Reads (readTemplateBody s place ts₂) more rest ∧
        all = triples.map (⟨·, graphName n⟩) ++ more := by
  have hmark : ∀ c, punct? c (t :: ts) = none := by
    intro c
    rw [punct?, if_neg]
    rintro rfl
    cases ht
  obtain ⟨hlt, hname⟩ := hname
  obtain ⟨hlt', htriples⟩ := htriples
  rw [readTemplateBody, hmark, hmark, keyword?_self ht]
  simp only [hname, punct_self, htriples, bind, Except.bind]
  exact reads_map fun more => ⟨rfl, rfl⟩

/-- A template is read on where the run over it ends. -/
theorem TemplateTo.reads {all : List QuadTemplate} (h : TemplateTo s place ts templates rest) :
    Reads (readTemplateBody s place ts) all rest' ↔
      ∃ more, Reads (readTemplateBody s place rest) more rest' ∧ all = templates ++ more := by
  induction h generalizing all with
  | done ts => simp
  | point h ih => rw [readsBlocks_readTemplateBody.point, ih]
  | subject hsubject hend h ih =>
    rw [readsBlocks_readTemplateBody.subject hsubject hend]
    simp only [ih]
    constructor
    · rintro ⟨_, ⟨more, hmore, rfl⟩, rfl⟩
      exact ⟨more, hmore, (List.append_assoc ..).symm⟩
    · rintro ⟨more, hmore, rfl⟩
      exact ⟨_, ⟨more, hmore, rfl⟩, List.append_assoc ..⟩
  | graph ht hname htriples h ih =>
    rw [reads_graph ht hname htriples]
    simp only [ih]
    constructor
    · rintro ⟨_, ⟨more, hmore, rfl⟩, rfl⟩
      exact ⟨more, hmore, (List.append_assoc ..).symm⟩
    · rintro ⟨more, hmore, rfl⟩
      exact ⟨_, ⟨more, hmore, rfl⟩, List.append_assoc ..⟩

/-- The run over the same templates with something else behind them. -/
theorem TemplateTo.local (h : TemplateTo s place ts templates rest) : ∃ front, ts = front ++ rest ∧
    ∀ rest', MayEnd rest rest' → TemplateTo s place (front ++ rest') templates rest' := by
  induction h with
  | done ts => exact ⟨[], rfl, fun rest' _ => .done rest'⟩
  | point h ih =>
    obtain ⟨front, rfl, hlocal⟩ := ih
    exact ⟨.punct '.' :: front, rfl, fun rest' hrest => .point (hlocal rest' hrest)⟩
  | subject hsubject hend h ih =>
    obtain ⟨front, rfl, hlocal⟩ := subject_local hsubject hend
    obtain ⟨front', rfl, hlocal'⟩ := ih
    refine ⟨front ++ front', (List.append_assoc ..).symm, fun rest' hrest => ?_⟩
    obtain ⟨ts₁, hsubject', hend'⟩ := hlocal _ (hrest.append front')
    rw [List.append_assoc]
    exact .subject hsubject' hend' (hlocal' rest' hrest)
  | @graph t ts ts₁ ts₂ rest n triples more ht hname htriples h ih =>
    obtain ⟨front, rfl, hlocal⟩ := readNode_local hname
    obtain ⟨front', rfl, hlocal'⟩ := readTriples_local htriples
    obtain ⟨front'', rfl, hlocal''⟩ := ih
    refine ⟨t :: (front ++ .punct '\x7b' :: (front' ++ front'')), by simp, fun rest' hrest => ?_⟩
    have hname' := hlocal (.punct '\x7b' :: (front' ++ (front'' ++ rest'))) (.cons _ _ _)
    rw [List.cons_append, List.append_assoc, List.cons_append, List.append_assoc]
    exact .graph ht hname' (hlocal' (front'' ++ rest')) (hlocal'' rest' hrest)

/-- A template that is read is run over up to the brace that closes it. -/
theorem templateTo_of_readTemplateBody (h : Reads (readTemplateBody s place ts) templates rest) :
    TemplateTo s place ts templates (.punct '\x7d' :: rest) := by
  obtain ⟨hlt, h⟩ := h
  induction ts using readTemplateBody.induct generalizing templates with
  | case1 ts close hclose =>
    rw [readTemplateBody, hclose] at h
    cases h
    rw [← punct?_eq_some hclose]
    exact .done ts
  | case2 ts hclose point hpoint hlt ih =>
    rw [readTemplateBody, hclose, hpoint] at h
    obtain ⟨more, hmore, h⟩ := map_eq_ok.mp h
    cases h
    have hrun := TemplateTo.point (ih more.shorter hmore)
    rwa [← punct?_eq_some hpoint] at hrun
  | case3 ts hclose hpoint k hk ih =>
    rw [readTemplateBody, hclose, hpoint, hk] at h
    obtain ⟨graph, hgraph, h⟩ := bind_eq_ok.mp h
    obtain ⟨opening, hopening, h⟩ := bind_eq_ok.mp h
    obtain ⟨triples, htriples, h⟩ := bind_eq_ok.mp h
    obtain ⟨more, hmore, h⟩ := bind_eq_ok.mp h
    cases h
    obtain ⟨t, hts, ht⟩ := keyword?_eq_some hk
    have hname : Reads (readNode s place .graph k.rest) graph.value
        (.punct '\x7b' :: opening.rest) := by
      rw [← punct_eq_ok hopening]
      exact ⟨graph.shorter, hgraph⟩
    have hrun := TemplateTo.graph ht hname ⟨_, htriples⟩ (ih _ _ _ more.shorter hmore)
    rwa [← hts] at hrun
  | case4 ts hclose hpoint hk ih =>
    rw [readTemplateBody, hclose, hpoint, hk] at h
    obtain ⟨triples, htriples, h⟩ := bind_eq_ok.mp h
    obtain ⟨rest, hrest, h⟩ := bind_eq_ok.mp h
    obtain ⟨more, hmore, h⟩ := bind_eq_ok.mp h
    cases h
    exact .subject ⟨_, htriples⟩ ⟨_, hrest⟩ (ih _ _ more.shorter hmore)

theorem readTemplateBody_local (h : Reads (readTemplateBody s place ts) templates rest) :
    ∃ front, ts = front ++ rest ∧
      ∀ rest', Reads (readTemplateBody s place (front ++ rest')) templates rest' := by
  obtain ⟨front, rfl, hlocal⟩ := (templateTo_of_readTemplateBody h).local
  refine ⟨front ++ [.punct '\x7d'], by simp, fun rest' => ?_⟩
  rw [List.append_assoc]
  have hrun := hlocal (.punct '\x7d' :: rest') fun _ => .cons _ _ _
  rw [List.singleton_append, hrun.reads]
  exact ⟨[], reads_readTemplateBody_close .., by simp⟩

end DualStore.Grammar
