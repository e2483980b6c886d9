import DualStore.Proofs.Effects
import DualStore.Proofs.StoreCalls

/-! Tables and the stores that they keep. A call on tables reads what was there before it and keeps
account of what it has staged, and what it writes in the end is what a store comes to that performs
the operations one after the other (`Tables.Models.commit`). Digests tell the records of terms
apart that a store knows from those of the terms that a call looks up. -/

namespace DualStore
namespace Tables

/-- The tables keep this store, with the numbers of its terms under the digests of their records. -/
structure Models (digest : Bytes → Bytes) (T : Tables) (s : Store) : Prop where
  terms : T.terms = s.dictionary.terms
  termKeys : ∀ key id, T.termKeys.get? key = some id ↔
    ∃ record, digest record = key ∧ s.dictionary.numbers.get? record = some id
  keys : ∀ o, T.keys o = s.keys o
  next : T.next = s.dictionary.next

/-- No other term that is known has a record with the digest of the term's. -/
def Apart (digest : Bytes → Bytes) (d : Dictionary) (t : Term) : Prop :=
  ∀ u, d.Knows u → digest (Record.ofTerm u) = digest (Record.ofTerm t) → u = t

variable {digest : Bytes → Bytes} {T : Tables} {s s' : Store} {t : Term} {q : Quad}
  {id : TermId} {ids : IdQuad}

theorem models_empty (digest : Bytes → Bytes) : ({} : Tables).Models digest {} :=
  ⟨rfl, fun _ _ => iff_of_false nofun fun ⟨_, _, h⟩ => (nomatch h),
    fun o => by cases o <;> rfl, rfl⟩

/-! ## Reading -/

theorem Models.resolve_eq_ok (h : T.Models digest s) :
    T.resolve id = .ok t ↔ s.dictionary.resolve? id = some t := by
  rw [resolve, h.terms, Dictionary.resolve?]
  cases s.dictionary.terms.get? id with
  | none => simp
  | some record =>
    dsimp only [Option.bind_some]
    cases Record.toTerm? record with
    | none => simp
    | some u => rw [Except.ok.injEq, Option.some.injEq]

/-- What is found under a digest is checked, so it is right whatever the digests are. -/
theorem Models.lookup?_of_lookup (h : T.Models digest s) (hv : s.Valid) (hf : s.Fits)
    (ht : T.lookup digest t = .ok (some id)) : s.dictionary.lookup? t = some id := by
  rw [lookup] at ht
  split at ht
  next => cases ht
  next found _ =>
    obtain ⟨stored, hstored, ht⟩ := bind_eq_ok.mp ht
    split at ht
    next he =>
      obtain rfl := Option.some.inj (pure_eq_ok.mp ht)
      rw [← hv.dictionary.resolve?_eq_some hf, ← he]
      exact h.resolve_eq_ok.mp hstored
    next => cases ht

theorem Models.lookup_eq (h : T.Models digest s) (hv : s.Valid) (hf : s.Fits)
    (ht : Apart digest s.dictionary t) : T.lookup digest t = .ok (s.dictionary.lookup? t) := by
  rw [lookup]
  split
  next hkey =>
    cases hlookup : s.dictionary.lookup? t with
    | none => rfl
    | some id =>
      rw [(h.termKeys _ _).mpr ⟨_, rfl, hlookup⟩] at hkey
      cases hkey
  next id hkey =>
    obtain ⟨record, hdigest, hnumber⟩ := (h.termKeys _ _).mp hkey
    obtain ⟨u, rfl⟩ := hv.dictionary.record id record ((hv.dictionary.inverse ..).mpr hnumber)
    obtain rfl := ht u ⟨id, hnumber⟩ hdigest
    have hresolve := h.resolve_eq_ok.mpr ((hv.dictionary.resolve?_eq_some hf).mpr hnumber)
    rw [hresolve, Dictionary.lookup?, hnumber]
    exact if_pos rfl

theorem Models.encode_eq (h : T.Models digest s) (hv : s.Valid) (hf : s.Fits)
    (hq : ∀ t ∈ q.terms, Apart digest s.dictionary t) : T.encode digest q = .ok (s.encode? q) := by
  simp only [Quad.terms, List.forall_mem_cons] at hq
  obtain ⟨hs, hp, ho, hg, -⟩ := hq
  rw [encode, h.lookup_eq hv hf hs, h.lookup_eq hv hf hp, h.lookup_eq hv hf ho,
    h.lookup_eq hv hf hg]
  rfl

theorem Models.contains_eq (h : T.Models digest s) (ids : IdQuad) :
    T.contains ids = s.contains ids := by
  have hspog : T.spog = s.spog := h.keys .spog
  rw [Tables.contains, Store.contains, hspog]

/-! ## Rows -/

theorem putAll_append (T : Tables) (batch rows : List Row) :
    T.putAll (batch ++ rows) = (T.putAll batch).putAll rows := List.foldl_append

/-- A new term is written under its number and under the digest of its record. -/
theorem Models.putAll_number (h : T.Models digest s) (hv : s.Valid)
    (ht : Apart digest s.dictionary t) (hnew : s.dictionary.lookup? t = none) :
    Models digest { T.putAll [.term T.next (Record.ofTerm t),
      .termKey (digest (Record.ofTerm t)) T.next] with next := T.next + 1 }
      { s with dictionary := (s.dictionary.number t).2 } := by
  have hnumber : s.dictionary.number t = (s.dictionary.next,
      ⟨s.dictionary.terms.insert s.dictionary.next (Record.ofTerm t),
        s.dictionary.numbers.insert (Record.ofTerm t) s.dictionary.next,
        s.dictionary.next + 1⟩) := by rw [Dictionary.number, hnew]
  rw [hnumber]
  refine ⟨?_, fun key id => ?_, h.keys, congrArg (· + 1) h.next⟩
  · change T.terms.insert T.next _ = _
    rw [h.terms, h.next]
  · change (T.termKeys.insert (digest (Record.ofTerm t)) T.next).get? key = some id ↔ _
    simp only [SortedMap.get?_insert, h.next]
    constructor
    · intro hget
      split at hget
      next he => exact ⟨_, he.symm, by rw [if_pos rfl]; exact hget⟩
      next hne =>
        obtain ⟨record, hdigest, hrecord⟩ := (h.termKeys key id).mp hget
        refine ⟨record, hdigest, ?_⟩
        rw [if_neg fun he => hne (by rw [← hdigest, he])]
        exact hrecord
    · rintro ⟨record, rfl, hrecord⟩
      split at hrecord
      next he => rw [if_pos (congrArg digest he)]; exact hrecord
      next hne =>
        obtain ⟨u, rfl⟩ := hv.dictionary.record id record ((hv.dictionary.inverse ..).mpr hrecord)
        rw [if_neg fun he => hne (congrArg Record.ofTerm (ht u ⟨id, hrecord⟩ he))]
        exact (h.termKeys _ id).mpr ⟨_, rfl, hrecord⟩

theorem keys_putAll_insert (T : Tables) (ids : IdQuad) (o : KeyOrder) :
    (T.putAll (KeyOrder.all.map fun o => .insert o (o.encode ids))).keys o =
      (T.keys o).insert (o.encode ids) := by
  cases o <;> rfl

theorem keys_putAll_remove (T : Tables) (ids : IdQuad) (o : KeyOrder) :
    (T.putAll (KeyOrder.all.map fun o => .remove o (o.encode ids))).keys o =
      (T.keys o).erase (o.encode ids) := by
  cases o <;> rfl

theorem Models.putAll_insert (h : T.Models digest s) (ids : IdQuad) :
    (T.putAll (KeyOrder.all.map fun o => .insert o (o.encode ids))).Models digest
      (s.insertKeys ids) :=
  ⟨h.terms, h.termKeys,
    fun o => by rw [keys_putAll_insert, Store.keys_insertKeys, h.keys], h.next⟩

theorem Models.putAll_remove (h : T.Models digest s) (ids : IdQuad) :
    (T.putAll (KeyOrder.all.map fun o => .remove o (o.encode ids))).Models digest
      (s.eraseKeys ids) :=
  ⟨h.terms, h.termKeys,
    fun o => by rw [keys_putAll_remove, Store.keys_eraseKeys, h.keys], h.next⟩

end Tables

/-! ## Staging -/

namespace Store

variable {s : Store} {t : Term} {q : Quad} {ids ids' : IdQuad}

/-- The store after a term was numbered. -/
def numberTerm (s : Store) (t : Term) : Store :=
  { s with dictionary := (s.dictionary.number t).2 }

theorem Valid.numberTerm (h : s.Valid) (hf : (s.numberTerm t).Fits) : (s.numberTerm t).Valid :=
  h.of_extends ⟨fun o => by cases o <;> rfl, fun _ _ => Dictionary.lookup?_number_of_some⟩
    (h.dictionary.number hf)

theorem contains_insertKeys : (s.insertKeys ids).contains ids' =
    (ids' == ids || s.contains ids') := by
  rw [Bool.eq_iff_iff, Bool.or_eq_true, beq_iff_eq, contains_iff, contains_iff, holds_insertKeys]

theorem contains_eraseKeys : (s.eraseKeys ids).contains ids' =
    (ids' != ids && s.contains ids') := by
  rw [Bool.eq_iff_iff, Bool.and_eq_true, bne_iff_ne, contains_iff, contains_iff, holds_eraseKeys]

theorem perform_insert {r : Store × Counts} : perform r ⟨.insert, q⟩ =
    if (r.1.intern q).2.contains (r.1.intern q).1 then ((r.1.intern q).2, r.2)
    else ((r.1.intern q).2.insertKeys (r.1.intern q).1,
      { r.2 with inserted := r.2.inserted + 1 }) := by
  simp only [perform, insert]
  split <;> rfl

theorem perform_delete {r : Store × Counts} : perform r ⟨.delete, q⟩ =
    match r.1.encode? q with
    | some ids => if r.1.contains ids then
        (r.1.eraseKeys ids, { r.2 with deleted := r.2.deleted + 1 }) else r
    | none => r := by
  cases hids : r.1.encode? q with
  | none => simp only [perform, erase, hids, Bool.false_eq_true, if_false]
  | some ids =>
    simp only [perform, erase, hids]
    split <;> rfl

end Store

namespace Writer

variable {w : Writer} {T : Tables} {ids ids' : IdQuad}

/-- The tables once what is staged is written. -/
def tables (w : Writer) (T : Tables) : Tables := { T.putAll w.batch with next := w.next }

theorem contains_insert :
    (w.insert T ids).contains T ids' = (ids' == ids || w.contains T ids') := by
  have hlists : (w.insert T ids).contains T ids' = (!(w.absent.filter (· ≠ ids)).contains ids' &&
      ((ids :: w.present).contains ids' || T.contains ids')) := by
    rw [insert]
    split <;> rfl
  rw [hlists, contains]
  by_cases he : ids' = ids
  · simp [he]
  · simp [he]

theorem contains_delete :
    (w.delete T ids).contains T ids' = (ids' != ids && w.contains T ids') := by
  have hlists : (w.delete T ids).contains T ids' = (!(ids :: w.absent).contains ids' &&
      ((w.present.filter (· ≠ ids)).contains ids' || T.contains ids')) := by
    rw [delete]
    split <;> rfl
  rw [hlists, contains]
  by_cases he : ids' = ids
  · simp [he]
  · simp [he]

end Writer

namespace Tables

variable {digest : Bytes → Bytes} {T : Tables} {s : Store} {w : Writer} {r : Store × Counts}
  {t : Term} {q : Quad} {ids : IdQuad} {op : Operation} {ops : List Operation}

/-- The tables keep a store that is valid and within the limits of the machine. -/
structure Sound (digest : Bytes → Bytes) (T : Tables) (s : Store) : Prop where
  models : T.Models digest s
  valid : s.Valid
  fits : s.Fits

/-- What is staged on the tables of `s` leads to the tables of another store, and tells which terms
and quads are new there, or gone. -/
structure Stages (digest : Bytes → Bytes) (T : Tables) (s : Store) (w : Writer)
    (r : Store × Counts) : Prop where
  models : (w.tables T).Models digest r.1
  counts : w.counts = r.2
  lookup : ∀ t id, r.1.dictionary.lookup? t = some id ↔
    w.pending.lookup t = some id ∨ s.dictionary.lookup? t = some id
  contains : ∀ ids, w.contains T ids = r.1.contains ids
  valid : r.1.Valid

theorem Sound.stages (h : T.Sound digest s) : Stages digest T s { next := T.next } (s, {}) :=
  ⟨h.models, rfl, fun _ _ => (or_iff_right nofun).symm, fun ids => h.models.contains_eq ids,
    h.valid⟩

/-- A term gets the number that a store gives it. -/
theorem Stages.idFor (hw : Stages digest T s w r) (h : T.Sound digest s)
    (hf : (r.1.numberTerm t).Fits) (ht : Apart digest r.1.dictionary t) :
    ∃ w', T.idFor digest t w = (.ok (r.1.dictionary.number t).1, w') ∧
      Stages digest T s w' (r.1.numberTerm t, r.2) := by
  have hbase : Apart digest s.dictionary t := fun u ⟨id, hu⟩ =>
    ht u ⟨id, (hw.lookup u id).mpr (.inr hu)⟩
  have hknown : ∀ {id}, r.1.dictionary.lookup? t = some id →
      r.1.dictionary.number t = (id, r.1.dictionary) := fun h => by rw [Dictionary.number, h]
  simp only [Tables.idFor, bind_run, get_run]
  cases hpending : w.pending.lookup t with
  | some id =>
    have hnumber := hknown ((hw.lookup t id).mpr (.inl hpending))
    refine ⟨w, by rw [hnumber]; rfl, ?_⟩
    rw [Store.numberTerm, hnumber]
    exact hw
  | none =>
    simp only [bind_run, idFor.liftExcept, h.models.lookup_eq h.valid h.fits hbase]
    cases hlookup : s.dictionary.lookup? t with
    | some id =>
      have hnumber := hknown ((hw.lookup t id).mpr (.inr hlookup))
      refine ⟨w, by rw [hnumber]; rfl, ?_⟩
      rw [Store.numberTerm, hnumber]
      exact hw
    | none =>
      have hnew : r.1.dictionary.lookup? t = none := by
        refine Option.eq_none_iff_forall_ne_some.mpr fun id hid => ?_
        rcases (hw.lookup t id).mp hid with h | h
        · rw [hpending] at h; cases h
        · rw [hlookup] at h; cases h
      have hnext : (r.1.dictionary.number t).1 = w.next := by
        rw [Dictionary.number, hnew]
        exact hw.models.next.symm
      let w' : Writer := { w with
        next := w.next + 1
        pending := (t, w.next) :: w.pending
        batch := w.batch ++
          [.term w.next (Record.ofTerm t), .termKey (digest (Record.ofTerm t)) w.next] }
      refine ⟨w', by rw [hnext]; rfl, ?_, hw.counts, fun u id => ?_, hw.contains,
        hw.valid.numberTerm hf⟩
      · have htables : w'.tables T = { (w.tables T).putAll
            [.term w.next (Record.ofTerm t), .termKey (digest (Record.ofTerm t)) w.next] with
              next := w.next + 1 } := by
          rw [Writer.tables, putAll_append]
          rfl
        rw [htables]
        exact hw.models.putAll_number hw.valid ht hnew
      · change (r.1.dictionary.number t).2.lookup? u = some id ↔
          ((t, w.next) :: w.pending).lookup u = some id ∨ _
        rw [Dictionary.lookup?_number, List.lookup_cons, hnext]
        by_cases hu : u = t
        · subst hu
          rw [if_pos rfl, beq_self_eq_true, hlookup]
          exact (or_iff_left (Option.some_ne_none id).symm).symm
        · rw [if_neg (mt (Dictionary.ofTerm_eq_iff hf Dictionary.knows_number_self).mp hu),
            beq_eq_false_iff_ne.mpr hu]
          exact hw.lookup u id

/-- A quad that is inserted is written if it is not there. -/
theorem Stages.insert (hw : Stages digest T s w r) (hids : r.1.encode? q = some ids) :
    Stages digest T s (w.insert T ids) (if r.1.contains ids then r
      else (r.1.insertKeys ids, { r.2 with inserted := r.2.inserted + 1 })) := by
  have hc := hw.contains ids
  split
  next hr =>
    have hinsert : w.insert T ids = { w with
        absent := w.absent.filter (· ≠ ids), present := ids :: w.present } := by
      rw [Writer.insert, if_pos (hc.trans hr)]
    refine ⟨by rw [hinsert]; exact hw.models, by rw [hinsert]; exact hw.counts,
      by rw [hinsert]; exact hw.lookup, fun ids' => ?_, hw.valid⟩
    rw [Writer.contains_insert, hw.contains]
    by_cases he : ids' = ids
    · rw [he, beq_self_eq_true, Bool.true_or, hr]
    · rw [beq_eq_false_iff_ne.mpr he, Bool.false_or]
  next hr =>
    have hinsert : w.insert T ids = { w with
        batch := w.batch ++ KeyOrder.all.map fun o => .insert o (o.encode ids)
        counts := { w.counts with inserted := w.counts.inserted + 1 }
        absent := w.absent.filter (· ≠ ids), present := ids :: w.present } := by
      rw [Writer.insert, if_neg (hc ▸ hr)]
    refine ⟨?_, by rw [hinsert, ← hw.counts], by rw [hinsert]; exact hw.lookup, fun ids' => ?_,
      hw.valid.insertKeys hids⟩
    · rw [hinsert, Writer.tables, putAll_append]
      exact hw.models.putAll_insert ids
    · rw [Writer.contains_insert, hw.contains, Store.contains_insertKeys]

/-- A quad that is deleted is removed if it is there. -/
theorem Stages.delete (hw : Stages digest T s w r) (ids : IdQuad) :
    Stages digest T s (w.delete T ids) (if r.1.contains ids then
      (r.1.eraseKeys ids, { r.2 with deleted := r.2.deleted + 1 }) else r) := by
  have hc := hw.contains ids
  split
  next hr =>
    have hdelete : w.delete T ids = { w with
        batch := w.batch ++ KeyOrder.all.map fun o => .remove o (o.encode ids)
        counts := { w.counts with deleted := w.counts.deleted + 1 }
        present := w.present.filter (· ≠ ids), absent := ids :: w.absent } := by
      rw [Writer.delete, if_pos (hc.trans hr)]
    refine ⟨?_, by rw [hdelete, ← hw.counts], by rw [hdelete]; exact hw.lookup, fun ids' => ?_,
      hw.valid.eraseKeys ids⟩
    · rw [hdelete, Writer.tables, putAll_append]
      exact hw.models.putAll_remove ids
    · rw [Writer.contains_delete, hw.contains, Store.contains_eraseKeys]
  next hr =>
    have hdelete : w.delete T ids = { w with
        present := w.present.filter (· ≠ ids), absent := ids :: w.absent } := by
      rw [Writer.delete, if_neg (hc ▸ hr)]
    refine ⟨by rw [hdelete]; exact hw.models, by rw [hdelete]; exact hw.counts,
      by rw [hdelete]; exact hw.lookup, fun ids' => ?_, hw.valid⟩
    rw [Writer.contains_delete, hw.contains]
    by_cases he : ids' = ids
    · rw [he, bne_self_eq_false, Bool.false_and, Bool.eq_false_iff.mpr hr]
    · rw [bne_iff_ne.mpr he, Bool.true_and]

/-- An insertion is staged as a store performs it. -/
theorem Stages.stage_insert (hw : Stages digest T s w r) (h : T.Sound digest s)
    (hf : (Store.perform r ⟨.insert, q⟩).1.Fits)
    (hq : ∀ t ∈ q.terms, Apart digest (Store.perform r ⟨.insert, q⟩).1.dictionary t) :
    ∃ w', T.stage digest ⟨.insert, q⟩ w = (.ok (), w') ∧
      Stages digest T s w' (Store.perform r ⟨.insert, q⟩) := by
  let s₁ := r.1.numberTerm q.subject
  let s₂ := s₁.numberTerm q.predicate
  let s₃ := s₂.numberTerm q.object
  have hlast : s₃.numberTerm q.graph = (r.1.intern q).2 := rfl
  have hdictionary : (Store.perform r ⟨.insert, q⟩).1.dictionary = (r.1.intern q).2.dictionary :=
    Store.dictionary_insert
  have hf₄ : (s₃.numberTerm q.graph).Fits := by
    rw [Store.Fits, hdictionary] at hf
    exact hf
  have hf₃ : s₃.Fits := Dictionary.fits_of_number hf₄
  have hf₂ : s₂.Fits := Dictionary.fits_of_number hf₃
  have hf₁ : s₁.Fits := Dictionary.fits_of_number hf₂
  have keep := fun {d : Dictionary} {t u : Term} (hu : d.Knows u) =>
    hu.imp fun _ hu => Dictionary.lookup?_number_of_some hu (t := t)
  rw [hdictionary] at hq
  simp only [Quad.terms, List.forall_mem_cons] at hq
  obtain ⟨hs, hp, ho, hg, -⟩ := hq
  obtain ⟨w₁, hrun₁, hw₁⟩ := hw.idFor h hf₁ fun u hu => hs u (keep (keep (keep (keep hu))))
  obtain ⟨w₂, hrun₂, hw₂⟩ := hw₁.idFor h hf₂ fun u hu => hp u (keep (keep (keep hu)))
  obtain ⟨w₃, hrun₃, hw₃⟩ := hw₂.idFor h hf₃ fun u hu => ho u (keep (keep hu))
  obtain ⟨w₄, hrun₄, hw₄⟩ := hw₃.idFor h hf₄ fun u hu => hg u (keep hu)
  obtain ⟨-, -, hencode⟩ := hw.valid.intern hf₄
  refine ⟨w₄.insert T (r.1.intern q).1, ?_, ?_⟩
  · simp only [stage, bind_run, hrun₁]
    dsimp only [s₁, s₂, s₃] at hrun₂ hrun₃ hrun₄
    simp only [hrun₂, hrun₃, hrun₄, modify_run]
    rfl
  · rw [Store.perform_insert]
    exact hw₄.insert hencode

/-- A deletion is staged as a store performs it, if the quad was not inserted before it. -/
theorem Stages.stage_delete (hw : Stages digest T s w r) (h : T.Sound digest s) (hf : r.1.Fits)
    (hq : ∀ t ∈ q.terms, Apart digest r.1.dictionary t)
    (hold : q ∈ r.1.quads → q ∈ s.quads) :
    ∃ w', T.stage digest ⟨.delete, q⟩ w = (.ok (), w') ∧
      Stages digest T s w' (Store.perform r ⟨.delete, q⟩) := by
  have hkept : ∀ {t id}, s.dictionary.lookup? t = some id → r.1.dictionary.lookup? t = some id :=
    fun h => (hw.lookup _ _).mpr (.inr h)
  have hencode := h.models.encode_eq h.valid h.fits fun t ht u ⟨id, hu⟩ =>
    hq t ht u ⟨id, hkept hu⟩
  simp only [stage, bind_run, idFor.liftExcept, hencode]
  cases hids : s.encode? q with
  | some ids =>
    refine ⟨w.delete T ids, rfl, ?_⟩
    obtain ⟨hs, hp, ho, hg⟩ := Store.encode?_eq_some.mp hids
    have hids' : r.1.encode? q = some ids :=
      Store.encode?_eq_some.mpr ⟨hkept hs, hkept hp, hkept ho, hkept hg⟩
    rw [Store.perform_delete, hids']
    exact hw.delete ids
  | none =>
    refine ⟨w, rfl, ?_⟩
    -- one of its terms was not known, so the quad was not there and is not there now
    have habsent : q ∉ r.1.quads := fun hmem => by
      obtain ⟨ids, hq, -⟩ := (h.valid.mem_quads h.fits).mp (hold hmem)
      rw [hids] at hq
      cases hq
    have hdone : q ∈ r.1.quads ↔ Action.delete = .insert := iff_of_false habsent nofun
    rw [Store.perform_of_done hw.valid hf hdone]
    exact hw

/-- Operations are staged as a store performs them, as long as no quad is deleted that some of them
insert. -/
theorem Stages.stageAll (hw : Stages digest T s w r) (h : T.Sound digest s)
    (hsteady : Operation.Steady ops) (hf : (ops.foldl Store.perform r).1.Fits)
    (hops : ∀ op ∈ ops, ∀ t ∈ op.quad.terms,
      Apart digest (ops.foldl Store.perform r).1.dictionary t)
    (hold : ∀ op ∈ ops, op.action = .delete → op.quad ∈ r.1.quads → op.quad ∈ s.quads) :
    ∃ w', T.stageAll digest ops w = (.ok (), w') ∧
      Stages digest T s w' (ops.foldl Store.perform r) := by
  induction ops generalizing w r with
  | nil => exact ⟨w, rfl, hw⟩
  | cons op ops ih =>
    rw [List.foldl_cons] at hf hops ⊢
    have hf₁ := Store.fits_of_foldl (r := Store.perform r op) hf
    have hapart : ∀ t ∈ op.quad.terms, Apart digest (Store.perform r op).1.dictionary t :=
      fun t ht u ⟨id, hu⟩ => hops op List.mem_cons_self t ht u ⟨id, Store.lookup?_foldl hu⟩
    obtain ⟨w₁, hrun, hw₁⟩ : ∃ w₁, T.stage digest op w = (.ok (), w₁) ∧
        Stages digest T s w₁ (Store.perform r op) := by
      obtain ⟨action, q⟩ := op
      cases action with
      | insert => exact hw.stage_insert h hf₁ hapart
      | delete =>
        exact hw.stage_delete h (Store.fits_of_perform hf₁)
          (fun t ht u ⟨id, hu⟩ => hapart t ht u ⟨id, Store.lookup?_perform _ hu⟩)
          (hold _ List.mem_cons_self rfl)
    have hold₁ : ∀ op' ∈ ops, op'.action = .delete →
        op'.quad ∈ (Store.perform r op).1.quads → op'.quad ∈ s.quads := by
      intro op' hop' hdelete hmem
      rw [(hw.valid.perform hf₁).2, Operation.mem_apply] at hmem
      split at hmem
      next he =>
        have := hsteady op' (List.mem_cons_of_mem _ hop') op List.mem_cons_self he
        rw [hdelete, hmem] at this
        cases this
      next => exact hold op' (List.mem_cons_of_mem _ hop') hdelete hmem
    obtain ⟨w₂, hrun', hw₂⟩ := ih hw₁ hsteady.tail hf
      (fun op hop => hops op (List.mem_cons_of_mem _ hop)) hold₁
    exact ⟨w₂, by rw [Tables.stageAll, bind_run, hrun]; exact hrun', hw₂⟩

/-! ## Writing -/

/-- What is staged on sound tables is written as a store performs it. -/
theorem Sound.commit_stageAll (h : T.Sound digest s) (hsteady : Operation.Steady ops)
    (hf : (ops.foldl Store.perform (s, {})).1.Fits)
    (hops : ∀ op ∈ ops, ∀ t ∈ op.quad.terms,
      Apart digest (ops.foldl Store.perform (s, {})).1.dictionary t) :
    ∃ T', T.commit (T.stageAll digest ops) =
        (.ok ((), (ops.foldl Store.perform (s, {})).2), T') ∧
      T'.Models digest (ops.foldl Store.perform (s, {})).1 := by
  obtain ⟨w, hrun, hw⟩ := h.stages.stageAll h hsteady hf hops fun _ _ _ hmem => hmem
  refine ⟨w.tables T, ?_, hw.models⟩
  rw [commit, hrun]
  dsimp only
  rw [hw.counts]
  rfl

theorem Sound.write (h : T.Sound digest s) (hstorable : ∀ op ∈ ops, op.quad.Storable)
    (hsteady : Operation.Steady ops) (hf : (ops.foldl Store.perform (s, {})).1.Fits)
    (hops : ∀ op ∈ ops, ∀ t ∈ op.quad.terms,
      Apart digest (ops.foldl Store.perform (s, {})).1.dictionary t) :
    ∃ T', T.write digest ops = (.ok (ops.foldl Store.perform (s, {})).2, T') ∧
      T'.Models digest (ops.foldl Store.perform (s, {})).1 := by
  obtain ⟨T', hrun, hmodels⟩ := h.commit_stageAll hsteady hf hops
  refine ⟨T', ?_, hmodels⟩
  rw [Tables.write, Store.checkAll_eq_ok.mpr hstorable, hrun]
  rfl

/-- A term that is numbered has the number that a store gives it. -/
theorem Sound.intern (h : T.Sound digest s) (hcheck : t.check = .ok ())
    (hf : (s.numberTerm t).Fits) (ht : Apart digest (s.numberTerm t).dictionary t) :
    ∃ T', T.intern digest t = (.ok (s.dictionary.number t).1, T') ∧
      T'.Models digest (s.numberTerm t) := by
  have hbase : Apart digest s.dictionary t := fun u hu =>
    ht u (hu.imp fun _ => Dictionary.lookup?_number_of_some)
  rw [Tables.intern, hcheck, h.models.lookup_eq h.valid h.fits hbase]
  dsimp only
  cases hlookup : s.dictionary.lookup? t with
  | some id =>
    have hnumber : s.dictionary.number t = (id, s.dictionary) := by
      rw [Dictionary.number, hlookup]
    refine ⟨T, by rw [hnumber], ?_⟩
    rw [Store.numberTerm, hnumber]
    exact h.models
  | none =>
    obtain ⟨w, hrun, hw⟩ := h.stages.idFor h hf hbase
    refine ⟨w.tables T, ?_, hw.models⟩
    dsimp only
    rw [commit, hrun]
    rfl

theorem Models.reopen (h : T.Models digest s) : T.reopen.Models digest s.reopen := by
  refine ⟨h.terms, h.termKeys, fun o => ?_, ?_⟩
  · have hkeys := h.keys o
    cases o <;> exact hkeys
  · rw [Store.reopen, Dictionary.reopen, ← h.terms]
    rfl

/-! ## Scanning -/

/-- The number of what a pattern has at one position; `none` if it is a term without one. -/
def numberIn (s : Store) : Option Term → Option (Option TermId)
  | none => some none
  | some t => (s.dictionary.lookup? t).map some

theorem resolveMatch?_eq (s : Store) (p : QuadPattern) : s.resolveMatch? p = do
    return ⟨← numberIn s p.subject, ← numberIn s p.predicate, ← numberIn s p.object,
      ← numberIn s p.graph⟩ := by
  obtain ⟨subject, predicate, object, graph⟩ := p
  cases subject <;> cases predicate <;> cases object <;> cases graph <;> rfl

theorem Models.decode_eq_ok (h : T.Models digest s) :
    T.decode ids = .ok q ↔ s.decode ids = .ok q := by
  have hresolve : ∀ {id t}, T.resolve id = .ok t ↔ s.resolve id = .ok t :=
    h.resolve_eq_ok.trans Store.resolve_eq_ok.symm
  simp only [Tables.decode, Store.decode, bind_eq_ok, pure_eq_ok, hresolve]

theorem scanKeys_encode (o : KeyOrder) (p : IdPattern) (ids : IdQuad) (keys : List Bytes) :
    T.scanKeys o p (o.encode ids :: keys) = if p.accepts ids then
      (do return (← T.decode ids) :: (← T.scanKeys o p keys)) else T.scanKeys o p keys := by
  rw [Tables.scanKeys, KeyOrder.decode_encode]
  rfl

theorem Sound.scanKeys (h : T.Sound digest s) (o : KeyOrder) (p : IdPattern) {keys : List Bytes}
    (hkeys : ∀ key ∈ keys, key ∈ s.keys o) : T.scanKeys o p keys =
      .ok (((keys.filterMap fun key => (o.decode key).toOption).filter p.accepts).filterMap
        fun ids => (s.decode ids).toOption) := by
  induction keys with
  | nil => rfl
  | cons key keys ih =>
    obtain ⟨ids, hids, rfl⟩ := (h.valid.keys o key).mp (hkeys key List.mem_cons_self)
    have ih := ih fun key hkey => hkeys key (List.mem_cons_of_mem _ hkey)
    obtain ⟨q, hq⟩ := h.valid.exists_encode? hids
    have hdecode := (h.valid.decode_eq_ok h.fits).mpr hq
    rw [scanKeys_encode, List.filterMap_cons, KeyOrder.decode_encode]
    dsimp only [Except.toOption]
    rw [ih, h.models.decode_eq_ok.mpr hdecode, List.filter_cons]
    split
    next => rw [List.filterMap_cons, hdecode]; rfl
    next => rfl

/-- Sound tables answer a pattern as the store does. -/
theorem Sound.scan (h : T.Sound digest s) {p : QuadPattern}
    (hp : ∀ t ∈ [p.subject, p.predicate, p.object, p.graph].filterMap id,
      Apart digest s.dictionary t) : T.scan digest p = .ok (s.scan p) := by
  have hnumber : ∀ part : Option Term, (∀ t, part = some t → Apart digest s.dictionary t) →
      T.number digest part = .ok (numberIn s part) := by
    intro part hpart
    cases part with
    | none => rfl
    | some t => rw [Tables.number, h.models.lookup_eq h.valid h.fits (hpart t rfl)]; rfl
  have hpart : ∀ part ∈ [p.subject, p.predicate, p.object, p.graph], ∀ t, part = some t →
      Apart digest s.dictionary t := fun part hpart t ht =>
    hp t (List.mem_filterMap.mpr ⟨part, hpart, ht⟩)
  simp only [List.forall_mem_cons] at hpart
  obtain ⟨hs, hp', ho, hg, -⟩ := hpart
  refine bind_eq_ok.mpr ⟨_, hnumber _ hs, bind_eq_ok.mpr ⟨_, hnumber _ hp',
    bind_eq_ok.mpr ⟨_, hnumber _ ho, bind_eq_ok.mpr ⟨_, hnumber _ hg, ?_⟩⟩⟩⟩
  dsimp only
  rw [← resolveMatch?_eq, Store.scan]
  cases s.resolveMatch? p with
  | none => rfl
  | some p =>
    dsimp only
    rw [h.scanKeys _ p fun key hkey => ?_, h.models.keys]
    · rfl
    · rw [h.models.keys] at hkey
      exact List.mem_of_mem_filter hkey

end Tables
end DualStore
