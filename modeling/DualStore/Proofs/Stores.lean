import DualStore.Proofs.Dictionaries
import DualStore.Proofs.Keys
import DualStore.Proofs.StorableQuads

/-! What a store holds, and how it is read and written. A valid store is a lawful source of its
quads (`Store.Valid.source_lawful`), and a batch does to the quads of a store what its operations do
to a set of quads (`Store.Valid.apply`). -/

namespace DualStore
namespace Store

variable {s : Store} {q u : Quad} {ids ids' : IdQuad} {p : QuadPattern}

/-- The quad of these numbers is there. -/
def Holds (s : Store) (ids : IdQuad) : Prop := KeyOrder.spog.encode ids ∈ s.spog

/-- All orderings have the keys of the same quads, and all numbers of these are given out. -/
structure Valid (s : Store) : Prop where
  dictionary : s.dictionary.Valid
  keys : ∀ o key, key ∈ s.keys o ↔ ∃ ids, s.Holds ids ∧ key = o.encode ids
  numbered : ∀ ids, s.Holds ids → ∀ position, ∃ t, s.dictionary.lookup? t = some (ids.get position)

/-- The dictionary keeps to the limits of the machine. -/
def Fits (s : Store) : Prop := s.dictionary.Fits

instance (s : Store) : Decidable s.Fits := inferInstanceAs (Decidable s.dictionary.Fits)

/-- All quads of a store. -/
def quads (s : Store) : SortedSet Quad := .ofList (s.scan {})

theorem quads_empty : ({} : Store).quads = ∅ := rfl

theorem valid_empty : ({} : Store).Valid := by
  have hnot : ∀ ids, ¬ ({} : Store).Holds ids := fun ids h => nomatch h
  refine ⟨Dictionary.valid_empty, fun o key => iff_of_false ?_ fun ⟨ids, h, _⟩ => hnot ids h,
    fun ids h => absurd h (hnot ids)⟩
  cases o <;> exact fun h => nomatch h

theorem contains_iff : s.contains ids = true ↔ s.Holds ids := SortedSet.contains_iff

/-! ## Terms and numbers -/

theorem encode?_eq_some : s.encode? q = some ids ↔
    s.dictionary.lookup? q.subject = some ids.subject ∧
    s.dictionary.lookup? q.predicate = some ids.predicate ∧
    s.dictionary.lookup? q.object = some ids.object ∧
    s.dictionary.lookup? q.graph = some ids.graph := by
  simp only [encode?, bind, Option.bind_eq_some_iff, pure, Option.some.injEq]
  constructor
  · rintro ⟨subject, hs, predicate, hp, object, ho, graph, hg, rfl⟩
    exact ⟨hs, hp, ho, hg⟩
  · rintro ⟨hs, hp, ho, hg⟩
    exact ⟨_, hs, _, hp, _, ho, _, hg, rfl⟩

theorem Valid.encode?_inj (h : s.Valid) (hf : s.Fits) (hq : s.encode? q = some ids)
    (hu : s.encode? u = some ids) : q = u := by
  obtain ⟨hs, hp, ho, hg⟩ := encode?_eq_some.mp hq
  obtain ⟨hs', hp', ho', hg'⟩ := encode?_eq_some.mp hu
  have inj := fun {t u : Term} {id : TermId} (ht : s.dictionary.lookup? t = some id)
    (hu : s.dictionary.lookup? u = some id) => h.dictionary.lookup?_inj hf ht hu
  obtain ⟨subject, predicate, object, graph⟩ := q
  obtain ⟨subject', predicate', object', graph'⟩ := u
  rw [Quad.mk.injEq]
  exact ⟨inj hs hs', inj hp hp', inj ho ho', inj hg hg'⟩

/-- Every quad of numbers that is there is the quad of some terms. -/
theorem Valid.exists_encode? (h : s.Valid) (hids : s.Holds ids) : ∃ q, s.encode? q = some ids := by
  obtain ⟨subject, hs⟩ := h.numbered ids hids .subject
  obtain ⟨predicate, hp⟩ := h.numbered ids hids .predicate
  obtain ⟨object, ho⟩ := h.numbered ids hids .object
  obtain ⟨graph, hg⟩ := h.numbered ids hids .graph
  exact ⟨⟨subject, predicate, object, graph⟩, encode?_eq_some.mpr ⟨hs, hp, ho, hg⟩⟩

theorem resolve_eq_ok {t : Term} {id : TermId} :
    s.resolve id = .ok t ↔ s.dictionary.resolve? id = some t := by
  rw [resolve]
  cases s.dictionary.resolve? id with
  | none => exact iff_of_false nofun nofun
  | some u => rw [Except.ok.injEq, Option.some.injEq]

theorem Valid.resolve_eq_ok (h : s.Valid) (hf : s.Fits) {t : Term} {id : TermId} :
    s.resolve id = .ok t ↔ s.dictionary.lookup? t = some id :=
  Store.resolve_eq_ok.trans (h.dictionary.resolve?_eq_some hf)

theorem Valid.decode_eq_ok (h : s.Valid) (hf : s.Fits) :
    s.decode ids = .ok q ↔ s.encode? q = some ids := by
  rw [encode?_eq_some]
  simp only [decode, bind_eq_ok, pure_eq_ok, h.resolve_eq_ok hf]
  constructor
  · rintro ⟨subject, hs, predicate, hp, object, ho, graph, hg, rfl⟩
    exact ⟨hs, hp, ho, hg⟩
  · rintro ⟨hs, hp, ho, hg⟩
    exact ⟨_, hs, _, hp, _, ho, _, hg, rfl⟩

/-! ## Reading -/

/-- The quads that a pattern of numbers accepts, in the order of their keys in one ordering. -/
def patternIn (s : Store) (o : KeyOrder) (p : IdPattern) : List IdQuad :=
  let found := (s.keys o).toList.filter ((o.keyPrefix p).isPrefixOf ·)
  (found.filterMap fun key => (o.decode key).toOption).filter p.accepts

/-- The quads that a pattern accepts, in the order of their keys in one ordering. -/
def scanIn (s : Store) (o : KeyOrder) (p : QuadPattern) : List Quad :=
  match s.resolveMatch? p with
  | some p => (s.patternIn o p).filterMap fun q => (s.decode q).toOption
  | none => []

theorem Valid.mem_patternIn (h : s.Valid) {o : KeyOrder} {p : IdPattern} :
    ids ∈ s.patternIn o p ↔ s.Holds ids ∧ p.accepts ids = true := by
  simp only [patternIn, List.mem_filter, List.mem_filterMap, SortedSet.mem_toList, h.keys]
  constructor
  · rintro ⟨⟨key, ⟨⟨ids', hids, rfl⟩, -⟩, hdecode⟩, hp⟩
    rw [KeyOrder.decode_encode] at hdecode
    obtain rfl := Option.some.inj hdecode
    exact ⟨hids, hp⟩
  · rintro ⟨hids, hp⟩
    refine ⟨⟨_, ⟨⟨ids, hids, rfl⟩, ?_⟩, by rw [KeyOrder.decode_encode]; rfl⟩, hp⟩
    exact List.isPrefixOf_iff_prefix.mpr (KeyOrder.keyPrefix_prefix hp)

theorem Valid.mem_pattern (h : s.Valid) {p : IdPattern} :
    ids ∈ s.pattern p ↔ s.Holds ids ∧ p.accepts ids = true :=
  h.mem_patternIn (o := KeyOrder.best p)

/-- The number of what a pattern has at one position. -/
private def number? (s : Store) : Option Term → Option (Option TermId)
  | none => some none
  | some t => (s.dictionary.lookup? t).map some

private theorem resolveMatch?_eq_some {p' : IdPattern} : s.resolveMatch? p = some p' ↔
    s.number? p.subject = some p'.subject ∧ s.number? p.predicate = some p'.predicate ∧
    s.number? p.object = some p'.object ∧ s.number? p.graph = some p'.graph := by
  have hrun : s.resolveMatch? p = (s.number? p.subject).bind fun subject =>
      (s.number? p.predicate).bind fun predicate => (s.number? p.object).bind fun object =>
        (s.number? p.graph).bind fun graph => some ⟨subject, predicate, object, graph⟩ := rfl
  simp only [hrun, Option.bind_eq_some_iff, Option.some.injEq]
  constructor
  · rintro ⟨subject, hs, predicate, hp, object, ho, graph, hg, rfl⟩
    exact ⟨hs, hp, ho, hg⟩
  · rintro ⟨hs, hp, ho, hg⟩
    exact ⟨_, hs, _, hp, _, ho, _, hg, rfl⟩

/-- A term and its number are accepted alike. -/
private theorem Valid.all_number? (h : s.Valid) (hf : s.Fits) {t : Term} {id : TermId}
    {part : Option Term} {part' : Option TermId} (hpart : s.number? part = some part')
    (ht : s.dictionary.lookup? t = some id) : part'.all (· == id) = part.all (· == t) := by
  cases part with
  | none => rw [← Option.some.inj hpart]; rfl
  | some u =>
    obtain ⟨id', hu, rfl⟩ := Option.map_eq_some_iff.mp hpart
    rw [Option.all_some, Option.all_some, Bool.eq_iff_iff, beq_iff_eq, beq_iff_eq]
    constructor
    · rintro rfl
      exact h.dictionary.lookup?_inj hf hu ht
    · rintro rfl
      exact Option.some.inj (hu.symm.trans ht)

private theorem exists_number? {t : Term} {id : TermId} {part : Option Term}
    (hpart : part.all (· == t) = true) (ht : s.dictionary.lookup? t = some id) :
    ∃ part', s.number? part = some part' := by
  cases part with
  | none => exact ⟨none, rfl⟩
  | some u =>
    obtain rfl := beq_iff_eq.mp hpart
    exact ⟨some id, by rw [number?, ht]; rfl⟩

private theorem accepts_parts {p : IdPattern} : p.accepts ids =
    (p.subject.all (· == ids.subject) && p.predicate.all (· == ids.predicate) &&
      p.object.all (· == ids.object) && p.graph.all (· == ids.graph)) := by
  simp only [IdPattern.accepts, List.all_cons, List.all_nil, Bool.and_true, Bool.and_assoc]
  rfl

private theorem Valid.accepts_resolveMatch? (h : s.Valid) (hf : s.Fits) {p' : IdPattern}
    (hp : s.resolveMatch? p = some p') (hq : s.encode? q = some ids) :
    p'.accepts ids = p.accepts q := by
  obtain ⟨hs, hp, ho, hg⟩ := resolveMatch?_eq_some.mp hp
  obtain ⟨hs', hp', ho', hg'⟩ := encode?_eq_some.mp hq
  rw [accepts_parts, QuadPattern.accepts, h.all_number? hf hs hs', h.all_number? hf hp hp',
    h.all_number? hf ho ho', h.all_number? hf hg hg']

private theorem exists_resolveMatch? (hp : p.accepts q = true) (hq : s.encode? q = some ids) :
    ∃ p', s.resolveMatch? p = some p' := by
  simp only [QuadPattern.accepts, Bool.and_eq_true] at hp
  obtain ⟨hs', hp', ho', hg'⟩ := encode?_eq_some.mp hq
  obtain ⟨subject, hs⟩ := exists_number? hp.1.1.1 hs'
  obtain ⟨predicate, hp'⟩ := exists_number? hp.1.1.2 hp'
  obtain ⟨object, ho⟩ := exists_number? hp.1.2 ho'
  obtain ⟨graph, hg⟩ := exists_number? hp.2 hg'
  exact ⟨⟨subject, predicate, object, graph⟩, resolveMatch?_eq_some.mpr ⟨hs, hp', ho, hg⟩⟩

private theorem Valid.toOption_decode_eq_some (h : s.Valid) (hf : s.Fits) :
    (s.decode ids).toOption = some q ↔ s.encode? q = some ids := by
  rw [← h.decode_eq_ok hf]
  cases s.decode ids with
  | error e => exact iff_of_false nofun nofun
  | ok u =>
    exact ⟨fun he => congrArg Except.ok (Option.some.inj he),
      fun he => congrArg some (Except.ok.inj he)⟩

private theorem Valid.mem_scanIn_iff_holds (h : s.Valid) (hf : s.Fits) {o : KeyOrder} :
    q ∈ s.scanIn o p ↔ (∃ ids, s.encode? q = some ids ∧ s.Holds ids) ∧ p.accepts q = true := by
  rw [scanIn]
  cases hresolve : s.resolveMatch? p with
  | none =>
    refine iff_of_false nofun ?_
    rintro ⟨⟨ids, hq, -⟩, hp⟩
    obtain ⟨p', hp'⟩ := exists_resolveMatch? hp hq
    rw [hresolve] at hp'
    cases hp'
  | some p' =>
    simp only [List.mem_filterMap, h.mem_patternIn, h.toOption_decode_eq_some hf]
    constructor
    · rintro ⟨ids, ⟨hids, hp'⟩, hq⟩
      exact ⟨⟨ids, hq, hids⟩, h.accepts_resolveMatch? hf hresolve hq ▸ hp'⟩
    · rintro ⟨⟨ids, hq, hids⟩, hp⟩
      exact ⟨ids, ⟨hids, (h.accepts_resolveMatch? hf hresolve hq).trans hp⟩, hq⟩

/-- A pattern is answered from one of the orderings. -/
theorem exists_scan_eq (s : Store) (p : QuadPattern) : ∃ o, s.scan p = s.scanIn o p := by
  cases hresolve : s.resolveMatch? p with
  | none => exact ⟨.spog, by rw [scan, scanIn, hresolve]⟩
  | some p' => exact ⟨.best p', by rw [scan, scanIn, hresolve]; rfl⟩

theorem Valid.mem_quads (h : s.Valid) (hf : s.Fits) :
    q ∈ s.quads ↔ ∃ ids, s.encode? q = some ids ∧ s.Holds ids := by
  obtain ⟨o, hscan⟩ := s.exists_scan_eq {}
  rw [quads, SortedSet.mem_ofList, hscan, h.mem_scanIn_iff_holds hf]
  exact and_iff_left rfl

/-- A pattern is answered right from every ordering. -/
theorem Valid.mem_scanIn (h : s.Valid) (hf : s.Fits) {o : KeyOrder} :
    q ∈ s.scanIn o p ↔ q ∈ s.quads ∧ p.accepts q = true := by
  rw [h.mem_scanIn_iff_holds hf, h.mem_quads hf]

theorem Valid.mem_scan (h : s.Valid) (hf : s.Fits) :
    q ∈ s.scan p ↔ q ∈ s.quads ∧ p.accepts q = true := by
  obtain ⟨o, hscan⟩ := s.exists_scan_eq p
  rw [hscan, h.mem_scanIn hf]

theorem Valid.nodup_patternIn (h : s.Valid) (o : KeyOrder) (p : IdPattern) :
    (s.patternIn o p).Nodup := by
  refine List.Nodup.filter _ (List.pairwise_filterMap.mpr ?_)
  refine List.Pairwise.imp_of_mem (fun {key key'} hkey hkey' hne ids hids ids' hids' he => hne ?_)
    ((SortedSet.nodup _).filter _)
  obtain ⟨_, -, rfl⟩ := (h.keys _ _).mp (List.mem_of_mem_filter hkey)
  obtain ⟨_, -, rfl⟩ := (h.keys _ _).mp (List.mem_of_mem_filter hkey')
  rw [KeyOrder.decode_encode] at hids hids'
  rw [Option.some.inj hids, Option.some.inj hids', he]

theorem Valid.nodup_pattern (h : s.Valid) (p : IdPattern) : (s.pattern p).Nodup :=
  h.nodup_patternIn (KeyOrder.best p) p

/-- No quad is found twice in an ordering. -/
theorem Valid.nodup_scanIn (h : s.Valid) (hf : s.Fits) (o : KeyOrder) (p : QuadPattern) :
    (s.scanIn o p).Nodup := by
  rw [scanIn]
  split
  next p' _ =>
    refine List.Nodup.filterMap (fun ids ids' q hq hq' => ?_) (h.nodup_patternIn o p')
    have hencode := (h.toOption_decode_eq_some hf).mp hq
    have hencode' := (h.toOption_decode_eq_some hf).mp hq'
    exact Option.some.inj (hencode.symm.trans hencode')
  next => exact .nil

/-- A store answers patterns as the set of its quads does. -/
theorem Valid.source_lawful (h : s.Valid) (hf : s.Fits) : s.source.Lawful s.quads := by
  intro p
  refine ⟨?_, fun q => h.mem_scan hf⟩
  obtain ⟨o, hscan⟩ := s.exists_scan_eq p
  have hnodup := h.nodup_scanIn hf o p
  rwa [← hscan] at hnodup

/-! ## Writing -/

theorem keys_insertKeys (o : KeyOrder) :
    (s.insertKeys ids).keys o = (s.keys o).insert (o.encode ids) := by
  cases o <;> rfl

theorem keys_eraseKeys (o : KeyOrder) :
    (s.eraseKeys ids).keys o = (s.keys o).erase (o.encode ids) := by
  cases o <;> rfl

theorem holds_insertKeys : (s.insertKeys ids).Holds ids' ↔ ids' = ids ∨ s.Holds ids' := by
  rw [Holds, insertKeys, mapKeys, SortedSet.mem_insert, KeyOrder.encode_inj_iff]
  rfl

theorem holds_eraseKeys : (s.eraseKeys ids).Holds ids' ↔ ids' ≠ ids ∧ s.Holds ids' := by
  rw [Holds, eraseKeys, mapKeys, SortedSet.mem_erase, ne_eq, KeyOrder.encode_inj_iff]
  rfl

theorem Valid.insertKeys (h : s.Valid) (hids : s.encode? q = some ids) :
    (s.insertKeys ids).Valid := by
  refine ⟨h.dictionary, fun o key => ?_, fun ids' hids' position => ?_⟩
  · simp only [keys_insertKeys, SortedSet.mem_insert, h.keys, holds_insertKeys, or_and_right,
      exists_or, exists_eq_left]
  · rcases holds_insertKeys.mp hids' with rfl | hids'
    · obtain ⟨hs, hp, ho, hg⟩ := encode?_eq_some.mp hids
      cases position
      exacts [⟨_, hs⟩, ⟨_, hp⟩, ⟨_, ho⟩, ⟨_, hg⟩]
    · exact h.numbered ids' hids' position

theorem Valid.eraseKeys (h : s.Valid) (ids : IdQuad) : (s.eraseKeys ids).Valid := by
  refine ⟨h.dictionary, fun o key => ?_, fun ids' hids' position =>
    h.numbered ids' (holds_eraseKeys.mp hids').2 position⟩
  simp only [keys_eraseKeys, SortedSet.mem_erase, h.keys, holds_eraseKeys]
  constructor
  · rintro ⟨hne, ids', hids', rfl⟩
    exact ⟨ids', ⟨fun he => hne (he ▸ rfl), hids'⟩, rfl⟩
  · rintro ⟨ids', ⟨hne, hids'⟩, rfl⟩
    exact ⟨fun he => hne (KeyOrder.encode_inj he), ids', hids', rfl⟩

/-! ## Numbering -/

/-- More terms are numbered; those that were keep their numbers. -/
structure Extends (s s' : Store) : Prop where
  keys : ∀ o, s'.keys o = s.keys o
  lookup : ∀ t id, s.dictionary.lookup? t = some id → s'.dictionary.lookup? t = some id

theorem Extends.holds {s' : Store} (h : s.Extends s') : s'.Holds ids ↔ s.Holds ids := by
  have hspog : s'.spog = s.spog := h.keys .spog
  rw [Holds, Holds, hspog]

theorem Extends.encode? {s' : Store} (h : s.Extends s') (hq : s.encode? q = some ids) :
    s'.encode? q = some ids := by
  obtain ⟨hs, hp, ho, hg⟩ := encode?_eq_some.mp hq
  exact encode?_eq_some.mpr ⟨h.lookup _ _ hs, h.lookup _ _ hp, h.lookup _ _ ho, h.lookup _ _ hg⟩

theorem Valid.of_extends {s' : Store} (h : s.Valid) (hext : s.Extends s')
    (hd : s'.dictionary.Valid) : s'.Valid := by
  refine ⟨hd, fun o key => ?_, fun ids hids position => ?_⟩
  · rw [hext.keys, h.keys]
    simp only [hext.holds]
  · obtain ⟨t, ht⟩ := h.numbered ids (hext.holds.mp hids) position
    exact ⟨t, hext.lookup t _ ht⟩

/-- No quad comes or goes when terms are numbered. -/
theorem Valid.quads_of_extends {s' : Store} (h : s.Valid) (hf : s.Fits) (hext : s.Extends s')
    (h' : s'.Valid) (hf' : s'.Fits) : s'.quads = s.quads := by
  refine SortedSet.ext fun q => ?_
  rw [h'.mem_quads hf', h.mem_quads hf]
  constructor
  · rintro ⟨ids, hq, hids⟩
    rw [hext.holds] at hids
    -- the numbers were given out before, for terms that still have them
    obtain ⟨u, hu⟩ := h.exists_encode? hids
    obtain rfl := h'.encode?_inj hf' hq (hext.encode? hu)
    exact ⟨ids, hu, hids⟩
  · rintro ⟨ids, hq, hids⟩
    exact ⟨ids, hext.encode? hq, hext.holds.mpr hids⟩

private theorem lookup?_number_self (d : Dictionary) (t : Term) :
    (d.number t).2.lookup? t = some (d.number t).1 := by
  rw [Dictionary.lookup?_number, if_pos rfl]

theorem fits_of_intern (hf : (s.intern q).2.Fits) : s.Fits :=
  Dictionary.fits_of_number <| Dictionary.fits_of_number <| Dictionary.fits_of_number <|
    Dictionary.fits_of_number hf

/-- After the terms of a quad are numbered, the quad has the numbers that were given out. -/
theorem Valid.intern (h : s.Valid) (hf : (s.intern q).2.Fits) : (s.intern q).2.Valid ∧
    s.Extends (s.intern q).2 ∧ (s.intern q).2.encode? q = some (s.intern q).1 := by
  have hf₃ := Dictionary.fits_of_number hf
  have hf₂ := Dictionary.fits_of_number hf₃
  have hf₁ := Dictionary.fits_of_number hf₂
  have hvalid := (((h.dictionary.number hf₁).number hf₂).number hf₃).number hf
  have keep := fun {d : Dictionary} {t u : Term} {id : TermId} (hu : d.lookup? u = some id) =>
    Dictionary.lookup?_number_of_some hu (t := t)
  have hext : s.Extends (s.intern q).2 :=
    ⟨fun o => by cases o <;> rfl, fun t id ht => keep (keep (keep (keep ht)))⟩
  refine ⟨h.of_extends hext hvalid, hext, encode?_eq_some.mpr ?_⟩
  exact ⟨keep (keep (keep (lookup?_number_self ..))), keep (keep (lookup?_number_self ..)),
    keep (lookup?_number_self ..), lookup?_number_self ..⟩

/-! ## Operations -/

theorem insert_fst : (s.insert q).1 =
    if (s.intern q).2.contains (s.intern q).1 then (s.intern q).2
    else (s.intern q).2.insertKeys (s.intern q).1 := by
  rw [Store.insert]
  rcases s.intern q with ⟨ids, s'⟩
  dsimp only
  split <;> rfl

theorem dictionary_insert : (s.insert q).1.dictionary = (s.intern q).2.dictionary := by
  rw [insert_fst]
  split <;> rfl

theorem erase_fst : (s.erase q).1 = match s.encode? q with
    | some ids => if s.contains ids then s.eraseKeys ids else s
    | none => s := by
  rw [Store.erase]
  cases s.encode? q with
  | none => rfl
  | some ids =>
    dsimp only
    split <;> rfl

theorem dictionary_erase : (s.erase q).1.dictionary = s.dictionary := by
  rw [erase_fst]
  split
  · split <;> rfl
  · rfl

/-- Stores with one dictionary have the same numbers for every quad. -/
private theorem encode?_congr {s' : Store} (hd : s'.dictionary = s.dictionary) (q : Quad) :
    s'.encode? q = s.encode? q := by
  rw [Store.encode?, Store.encode?, hd]

/-- An insertion adds its quad and no other. -/
theorem Valid.insert (h : s.Valid) (hf : (s.insert q).1.Fits) : (s.insert q).1.Valid ∧
    ∀ u, u ∈ (s.insert q).1.quads ↔ u = q ∨ u ∈ s.quads := by
  have hf' : (s.intern q).2.Fits := by rwa [Fits, dictionary_insert] at hf
  obtain ⟨hvalid, hext, hencode⟩ := h.intern hf'
  have hholds : (s.insert q).1.Valid ∧ ∀ ids, (s.insert q).1.Holds ids ↔
      ids = (s.intern q).1 ∨ (s.intern q).2.Holds ids := by
    rw [insert_fst]
    split
    next hc =>
      exact ⟨hvalid, fun ids => ⟨.inr, fun h => h.elim (fun he => he ▸ contains_iff.mp hc) id⟩⟩
    next => exact ⟨hvalid.insertKeys hencode, fun ids => holds_insertKeys⟩
  refine ⟨hholds.1, fun u => ?_⟩
  rw [hholds.1.mem_quads hf, ← h.quads_of_extends (fits_of_intern hf') hext hvalid hf',
    hvalid.mem_quads hf']
  simp only [encode?_congr dictionary_insert, hholds.2]
  constructor
  · rintro ⟨ids, hu, rfl | hids⟩
    · exact .inl (hvalid.encode?_inj hf' hu hencode)
    · exact .inr ⟨ids, hu, hids⟩
  · rintro (rfl | ⟨ids, hu, hids⟩)
    · exact ⟨_, hencode, .inl rfl⟩
    · exact ⟨ids, hu, .inr hids⟩

/-- A deletion removes its quad and no other. -/
theorem Valid.erase (h : s.Valid) (hf : s.Fits) : (s.erase q).1.Valid ∧
    ∀ u, u ∈ (s.erase q).1.quads ↔ u ≠ q ∧ u ∈ s.quads := by
  have hholds : (s.erase q).1.Valid ∧ ∀ ids, (s.erase q).1.Holds ids ↔
      s.encode? q ≠ some ids ∧ s.Holds ids := by
    rw [erase_fst]
    split
    next ids hq =>
      simp only [hq, ne_eq, Option.some.injEq]
      split
      next =>
        exact ⟨h.eraseKeys ids, fun ids' => holds_eraseKeys.trans (by rw [ne_eq, eq_comm])⟩
      next hc =>
        refine ⟨h, fun ids' => ⟨fun hids => ⟨?_, hids⟩, And.right⟩⟩
        rintro rfl
        exact hc (contains_iff.mpr hids)
    next hq =>
      rw [hq]
      exact ⟨h, fun ids => (and_iff_right nofun).symm⟩
  have hf' : (s.erase q).1.Fits := by rwa [Fits, dictionary_erase]
  refine ⟨hholds.1, fun u => ?_⟩
  rw [hholds.1.mem_quads hf', h.mem_quads hf]
  simp only [encode?_congr dictionary_erase, hholds.2]
  constructor
  · rintro ⟨ids, hu, hne, hids⟩
    exact ⟨fun he => hne (he ▸ hu), ids, hu, hids⟩
  · rintro ⟨hne, ids, hu, hids⟩
    exact ⟨ids, hu, fun hq => hne (h.encode?_inj hf hu hq), hids⟩

theorem fits_of_perform {r : Store × Counts} {op : Operation} (hf : (perform r op).1.Fits) :
    r.1.Fits := by
  obtain ⟨action, q⟩ := op
  cases action with
  | insert =>
    have hf : (r.1.insert q).1.Fits := hf
    rw [Fits, dictionary_insert] at hf
    exact fits_of_intern hf
  | delete =>
    have hf : (r.1.erase q).1.Fits := hf
    rwa [Fits, dictionary_erase] at hf

/-- An operation does to a store what it does to the set of its quads. -/
theorem Valid.perform {r : Store × Counts} (h : r.1.Valid) {op : Operation}
    (hf : (Store.perform r op).1.Fits) : (Store.perform r op).1.Valid ∧
      (Store.perform r op).1.quads = Operation.apply r.1.quads op := by
  have hfits := fits_of_perform hf
  obtain ⟨action, q⟩ := op
  cases action with
  | insert =>
    obtain ⟨hvalid, hmem⟩ := h.insert (q := q) hf
    exact ⟨hvalid, SortedSet.ext fun u => (hmem u).trans SortedSet.mem_insert.symm⟩
  | delete =>
    obtain ⟨hvalid, hmem⟩ := h.erase (q := q) hfits
    exact ⟨hvalid, SortedSet.ext fun u => (hmem u).trans SortedSet.mem_erase.symm⟩

theorem fits_of_foldl {ops : List Operation} {r : Store × Counts}
    (hf : (ops.foldl perform r).1.Fits) : r.1.Fits := by
  induction ops generalizing r with
  | nil => exact hf
  | cons op ops ih => exact fits_of_perform (ih hf)

theorem Valid.foldl_perform {ops : List Operation} {r : Store × Counts} (h : r.1.Valid)
    (hf : (ops.foldl Store.perform r).1.Fits) : (ops.foldl Store.perform r).1.Valid ∧
      (ops.foldl Store.perform r).1.quads = Operation.applyAll r.1.quads ops := by
  induction ops generalizing r with
  | nil => exact ⟨h, rfl⟩
  | cons op ops ih =>
    obtain ⟨hvalid, hquads⟩ := h.perform (fits_of_foldl (r := Store.perform r op) hf)
    obtain ⟨hvalid', hquads'⟩ := ih hvalid hf
    exact ⟨hvalid', hquads'.trans (by rw [hquads]; rfl)⟩

/-! ## Batches -/

variable {s' : Store} {b : Batch} {counts : Counts}

theorem fits_of_apply (h : s.apply b = .ok (s', counts)) (hf : s'.Fits) : s.Fits := by
  have hrun := (apply_eq_ok.mp h).2
  exact fits_of_foldl (r := (s, {})) (by rw [hrun]; exact hf)

/-- A batch does to a store what its operations do to the set of its quads. -/
theorem Valid.apply (hs : s.Valid) (h : s.apply b = .ok (s', counts)) (hf : s'.Fits) :
    s'.Valid ∧ s'.quads = Operation.applyAll s.quads b.ops := by
  have hrun := (apply_eq_ok.mp h).2
  obtain ⟨hvalid, hquads⟩ := Valid.foldl_perform (r := (s, {})) hs (by rw [hrun]; exact hf)
  rw [hrun] at hvalid hquads
  exact ⟨hvalid, hquads.trans (Operation.applyAll_lastOnly ..)⟩

/-! ## Reachable stores -/

/-- Stores that come about when a new one is written to and opened again. -/
inductive Reachable : Store → Prop where
  | empty : Reachable {}
  | write {s s' : Store} {ops : List Operation} {counts : Counts} :
      Reachable s → s.write ops = .ok (s', counts) → Reachable s'
  | intern {s : Store} {t : Term} {id : TermId} {d : Dictionary} :
      Reachable s → s.dictionary.intern t = .ok (id, d) → Reachable { s with dictionary := d }
  | reopen {s : Store} : Reachable s → Reachable s.reopen

/-- A store that came about by writing is valid, and all that it holds may be stored. -/
theorem Reachable.valid (hs : s.Reachable) (hf : s.Fits) : s.Valid ∧ ∀ q ∈ s.quads, q.Storable := by
  induction hs with
  | empty =>
    refine ⟨valid_empty, fun q hq => ?_⟩
    rw [quads_empty] at hq
    cases hq
  | @write s s' ops counts _ hwrite ih =>
    obtain ⟨hstorable, hrun⟩ := write_eq_ok.mp hwrite
    have hf' : (ops.foldl perform (s, {})).1.Fits := by rw [hrun]; exact hf
    obtain ⟨hvalid, hquads⟩ := ih (fits_of_foldl hf')
    obtain ⟨hvalid', hquads'⟩ := Valid.foldl_perform (r := (s, {})) hvalid hf'
    rw [hrun] at hvalid' hquads'
    refine ⟨hvalid', fun q hq => ?_⟩
    rw [hquads'] at hq
    rcases Operation.mem_applyAll.mp hq with hop | ⟨hq, -⟩
    · exact hstorable _ (Operation.mem_of_mem_lastOnly hop)
    · exact hquads q hq
  | @intern s t id d _ hintern ih =>
    obtain ⟨-, hnumber⟩ := check_bind_eq_ok.mp hintern
    have hd : (s.dictionary.number t).2 = d := congrArg Prod.snd (pure_eq_ok.mp hnumber)
    have hf' : (s.dictionary.number t).2.Fits := hd ▸ hf
    obtain ⟨hvalid, hquads⟩ := ih (Dictionary.fits_of_number hf')
    have hext : s.Extends { s with dictionary := d } :=
      ⟨fun o => by cases o <;> rfl, fun u id hu => hd ▸ Dictionary.lookup?_number_of_some hu⟩
    have hvalid' := hvalid.of_extends hext (hd ▸ hvalid.dictionary.number hf')
    rw [hvalid.quads_of_extends (Dictionary.fits_of_number hf') hext hvalid' hf]
    exact ⟨hvalid', hquads⟩
  | @reopen s _ ih =>
    have hf' : s.Fits := ⟨hf.size, hf.record⟩
    obtain ⟨hvalid, hquads⟩ := ih hf'
    have hext : s.Extends s.reopen := ⟨fun o => by cases o <;> rfl, fun _ _ h => h⟩
    have hvalid' := hvalid.of_extends hext hvalid.dictionary.reopen
    rw [hvalid.quads_of_extends hf' hext hvalid' hf]
    exact ⟨hvalid', hquads⟩

end Store
end DualStore
