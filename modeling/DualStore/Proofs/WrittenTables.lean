import DualStore.Proofs.TableRuns

/-! What tables keep over every run, whatever the digests are. A call on a term that has the digest
of another one may be refused, and the numbers that it was given until then are used up. But all
orderings list the same quads, and no term ever gets two numbers (`Tables.kept_run`). -/

namespace DualStore

/-! ## Terms that operations store -/

namespace Operation

/-- The terms that operations store, in the order in which they are numbered. -/
def brought (ops : List Operation) : List Term :=
  (ops.filter (·.action = .insert)).flatMap (·.quad.terms)

theorem brought_map_insert (quads : List Quad) :
    brought (quads.map fun q => ⟨.insert, q⟩) = quads.flatMap Quad.terms := by
  induction quads with
  | nil => rfl
  | cons q quads ih => exact congrArg (q.terms ++ ·) ih

theorem brought_map_delete (quads : List Quad) :
    brought (quads.map fun q => ⟨.delete, q⟩) = [] := by
  induction quads with
  | nil => rfl
  | cons q quads ih => exact ih

end Operation

namespace Tables

variable {digest : Bytes → Bytes} {T : Tables} {t : Term} {ts : List Term} {id id' n : TermId}
  {ids : IdQuad}

/-- The quad of these numbers is there. -/
def Holds (T : Tables) (ids : IdQuad) : Prop := KeyOrder.spog.encode ids ∈ T.spog

/-- Each record is that of a term, under one number only, and its digest is taken. All numbers were
given out. -/
structure TermsKept (digest : Bytes → Bytes) (T : Tables) : Prop where
  record : ∀ id record, T.terms.get? id = some record →
    ∃ t, record = Record.ofTerm t ∧ record.length < UInt64.size
  once : ∀ id id' record, T.terms.get? id = some record → T.terms.get? id' = some record → id = id'
  taken : ∀ id record, T.terms.get? id = some record →
    ∃ id', T.termKeys.get? (digest record) = some id'
  below : ∀ id record, T.terms.get? id = some record → id.toNat < T.next.toNat

/-- Besides, all orderings have the keys of the same quads, whose numbers have records. -/
structure Kept (digest : Bytes → Bytes) (T : Tables) : Prop extends TermsKept digest T where
  keys : ∀ o key, key ∈ T.keys o ↔ ∃ ids, T.Holds ids ∧ key = o.encode ids
  numbered : ∀ ids, T.Holds ids → ∀ position,
    ∃ record, T.terms.get? (ids.get position) = some record

theorem kept_empty (digest : Bytes → Bytes) : ({} : Tables).Kept digest := by
  have hnot : ∀ ids, ¬ ({} : Tables).Holds ids := fun ids h => nomatch h
  refine ⟨⟨nofun, nofun, nofun, nofun⟩,
    fun o key => iff_of_false ?_ fun ⟨ids, h, _⟩ => hnot ids h, fun ids h => absurd h (hnot ids)⟩
  cases o <;> exact fun h => nomatch h

/-- Quads stay as they are when only terms are added. -/
theorem Kept.of_terms {T' : Tables} (h : T.Kept digest) (hkeys : ∀ o, T'.keys o = T.keys o)
    (hstay : ∀ id record, T.terms.get? id = some record → T'.terms.get? id = some record)
    (hterms : T'.TermsKept digest) : T'.Kept digest := by
  have hspog : T'.spog = T.spog := hkeys .spog
  have hholds : ∀ ids, T'.Holds ids ↔ T.Holds ids := fun ids => by rw [Holds, Holds, hspog]
  refine ⟨hterms, fun o key => ?_, fun ids hids position => ?_⟩
  · simp only [hkeys, h.keys, hholds]
  · exact (h.numbered ids ((hholds ids).mp hids) position).imp fun record => hstay _ record

/-! ## Looking up -/

theorem Kept.resolve_eq_ok (h : T.Kept digest) :
    T.resolve id = .ok t ↔ T.terms.get? id = some (Record.ofTerm t) := by
  rw [resolve]
  cases hget : T.terms.get? id with
  | none => simp only [reduceCtorEq]
  | some record =>
    obtain ⟨u, rfl, hlength⟩ := h.record id record hget
    dsimp only
    rw [Record.toTerm?_ofTerm hlength, Except.ok.injEq, Option.some.injEq, eq_comm,
      eq_comm (a := Record.ofTerm u), Record.ofTerm_eq_iff hlength]

theorem Kept.exists_resolve (h : T.Kept digest) (hids : T.Holds ids) (position : Position) :
    ∃ t, T.resolve (ids.get position) = .ok t := by
  obtain ⟨record, hget⟩ := h.numbered ids hids position
  obtain ⟨t, rfl, -⟩ := h.record _ _ hget
  exact ⟨t, h.resolve_eq_ok.mpr hget⟩

/-- No term has two numbers. -/
theorem Kept.resolve_inj (h : T.Kept digest) (ht : T.resolve id = .ok t)
    (ht' : T.resolve id' = .ok t) : id = id' :=
  h.once id id' _ (h.resolve_eq_ok.mp ht) (h.resolve_eq_ok.mp ht')

theorem Kept.get?_of_lookup (h : T.Kept digest) (ht : T.lookup digest t = .ok (some id)) :
    T.terms.get? id = some (Record.ofTerm t) := by
  rw [lookup] at ht
  split at ht
  next => cases ht
  next found _ =>
    obtain ⟨stored, hstored, ht⟩ := bind_eq_ok.mp ht
    split at ht
    next he =>
      obtain rfl := Option.some.inj (pure_eq_ok.mp ht)
      exact h.resolve_eq_ok.mp (he ▸ hstored)
    next => cases ht

/-- A term whose digest is not taken is not stored. -/
theorem Kept.get?_ne_of_lookup (h : T.Kept digest) (ht : T.lookup digest t = .ok none) :
    T.terms.get? id ≠ some (Record.ofTerm t) := by
  intro hget
  obtain ⟨found, hfound⟩ := h.taken id _ hget
  rw [lookup, hfound] at ht
  obtain ⟨stored, -, ht⟩ := bind_eq_ok.mp ht
  split at ht <;> cases ht

/-! ## Rows -/

/-- There are numbers left for these terms, and none of their records is too long. -/
structure Room (n : TermId) (ts : List Term) : Prop where
  numbers : n.toNat + ts.length < UInt64.size
  short : ∀ t ∈ ts, (Record.ofTerm t).length < UInt64.size

instance (n : TermId) (ts : List Term) : Decidable (Room n ts) :=
  decidable_of_iff (n.toNat + ts.length < UInt64.size ∧
    ∀ t ∈ ts, (Record.ofTerm t).length < UInt64.size)
    ⟨fun h => ⟨h.1, h.2⟩, fun h => ⟨h.numbers, h.short⟩⟩

theorem Room.toNat_succ (h : Room n (t :: ts)) : (n + 1).toNat = n.toNat + 1 := by
  have hlt := h.numbers
  rw [List.length_cons] at hlt
  rw [UInt64.toNat_add]
  exact Nat.mod_eq_of_lt (Nat.lt_of_le_of_lt (Nat.add_le_add_left (Nat.succ_pos _) _) hlt)

theorem Room.tail (h : Room n (t :: ts)) : Room (n + 1) ts := by
  refine ⟨?_, fun u hu => h.short u (List.mem_cons_of_mem _ hu)⟩
  rw [h.toNat_succ, Nat.add_assoc, Nat.add_comm 1]
  exact h.numbers

/-- Room that is not used is left. -/
theorem Room.drop (h : Room n (t :: ts)) : Room n ts :=
  ⟨Nat.lt_of_succ_lt h.numbers, fun u hu => h.short u (List.mem_cons_of_mem _ hu)⟩

theorem Kept.spend (h : T.Kept digest) (hn : T.next.toNat ≤ n.toNat) :
    Kept digest { T with next := n } :=
  h.of_terms (fun o => by cases o <;> rfl) (fun _ _ hget => hget) ⟨h.record, h.once, h.taken,
    fun id record hget => Nat.lt_of_lt_of_le (h.below id record hget) hn⟩

/-- One more term, under the next number. -/
def numberTerm (digest : Bytes → Bytes) (T : Tables) (t : Term) : Tables :=
  { T.putAll [.term T.next (Record.ofTerm t), .termKey (digest (Record.ofTerm t)) T.next] with
    next := T.next + 1 }

theorem get?_terms_numberTerm : (T.numberTerm digest t).terms.get? id =
    if id = T.next then some (Record.ofTerm t) else T.terms.get? id :=
  SortedMap.get?_insert ..

theorem get?_termKeys_numberTerm {key : Bytes} : (T.numberTerm digest t).termKeys.get? key =
    if key = digest (Record.ofTerm t) then some T.next else T.termKeys.get? key :=
  SortedMap.get?_insert ..

theorem TermsKept.get?_numberTerm (h : T.TermsKept digest) {record : Bytes}
    (hget : T.terms.get? id = some record) :
    (T.numberTerm digest t).terms.get? id = some record := by
  have hne : id ≠ T.next := by
    rintro rfl
    exact Nat.lt_irrefl _ (h.below _ _ hget)
  rw [get?_terms_numberTerm, if_neg hne, hget]

/-- A term that is not stored gets the next number. -/
theorem Kept.numberTerm (h : T.Kept digest) (hroom : Room T.next (t :: ts))
    (hnew : ∀ id, T.terms.get? id ≠ some (Record.ofTerm t)) :
    (T.numberTerm digest t).Kept digest := by
  refine h.of_terms (fun o => by cases o <;> rfl) (fun _ _ => h.get?_numberTerm) ?_
  constructor
  · intro id record hget
    rw [get?_terms_numberTerm] at hget
    split at hget
    · obtain rfl := Option.some.inj hget
      exact ⟨t, rfl, hroom.short t List.mem_cons_self⟩
    · exact h.record id record hget
  · intro id id' record hget hget'
    rw [get?_terms_numberTerm] at hget hget'
    split at hget <;> split at hget'
    next hid hid' => rw [hid, hid']
    next => exact absurd (hget'.trans hget.symm) (hnew id')
    next => exact absurd (hget.trans hget'.symm) (hnew id)
    next => exact h.once id id' record hget hget'
  · intro id record hget
    rw [get?_termKeys_numberTerm]
    split
    next => exact ⟨_, rfl⟩
    next hne =>
      rw [get?_terms_numberTerm] at hget
      split at hget
      · exact absurd (congrArg digest (Option.some.inj hget)).symm hne
      · exact h.taken id record hget
  · intro id record hget
    have hnext : (T.numberTerm digest t).next.toNat = T.next.toNat + 1 := hroom.toNat_succ
    rw [hnext]
    rw [get?_terms_numberTerm] at hget
    split at hget
    next hid => exact hid ▸ Nat.lt_succ_self _
    next => exact Nat.lt_succ_of_lt (h.below id record hget)

theorem putAll_with_next (T : Tables) (rows : List Row) (n : TermId) :
    Tables.putAll { T with next := n } rows = { T.putAll rows with next := n } := by
  induction rows generalizing T with
  | nil => rfl
  | cons row rows ih =>
    have hput : Tables.put { T with next := n } row = { T.put row with next := n } := by
      cases row with
      | term | termKey => rfl
      | insert o | remove o => cases o <;> rfl
    exact (congrArg (Tables.putAll · rows) hput).trans (ih _)

/-- A quad is written to all orderings. -/
theorem Kept.putAll_insert (h : T.Kept digest)
    (hids : ∀ position, ∃ record, T.terms.get? (ids.get position) = some record) :
    (T.putAll (KeyOrder.all.map fun o => .insert o (o.encode ids))).Kept digest := by
  have hholds : ∀ ids', (T.putAll (KeyOrder.all.map fun o => .insert o (o.encode ids))).Holds ids' ↔
      ids' = ids ∨ T.Holds ids' := fun ids' => by
    change KeyOrder.spog.encode ids' ∈ T.spog.insert (KeyOrder.spog.encode ids) ↔ _
    rw [SortedSet.mem_insert, KeyOrder.encode_inj_iff]
    rfl
  refine ⟨⟨h.record, h.once, h.taken, h.below⟩, fun o key => ?_, fun ids' hids' position => ?_⟩
  · simp only [keys_putAll_insert, SortedSet.mem_insert, h.keys, hholds, or_and_right, exists_or,
      exists_eq_left]
  · rcases (hholds ids').mp hids' with rfl | hids'
    · exact hids position
    · exact h.numbered ids' hids' position

/-- A quad is removed from all orderings. -/
theorem Kept.putAll_remove (h : T.Kept digest) (ids : IdQuad) :
    (T.putAll (KeyOrder.all.map fun o => .remove o (o.encode ids))).Kept digest := by
  have hholds : ∀ ids', (T.putAll (KeyOrder.all.map fun o => .remove o (o.encode ids))).Holds ids' ↔
      ids' ≠ ids ∧ T.Holds ids' := fun ids' => by
    change KeyOrder.spog.encode ids' ∈ T.spog.erase (KeyOrder.spog.encode ids) ↔ _
    rw [SortedSet.mem_erase, ne_eq, KeyOrder.encode_inj_iff]
    rfl
  refine ⟨⟨h.record, h.once, h.taken, h.below⟩, fun o key => ?_, fun ids' hids' position =>
    h.numbered ids' ((hholds ids').mp hids').2 position⟩
  simp only [keys_putAll_remove, SortedSet.mem_erase, h.keys, hholds]
  constructor
  · rintro ⟨hne, ids', hids', rfl⟩
    exact ⟨ids', ⟨fun he => hne (he ▸ rfl), hids'⟩, rfl⟩
  · rintro ⟨ids', ⟨hne, hids'⟩, rfl⟩
    exact ⟨fun he => hne (KeyOrder.encode_inj he), ids', hids', rfl⟩

end Tables

/-! ## Staging -/

namespace Writer

/-- One more term is staged, under the next number. -/
def number (digest : Bytes → Bytes) (w : Writer) (t : Term) : Writer :=
  { w with
    next := w.next + 1
    pending := (t, w.next) :: w.pending
    batch := w.batch ++
      [.term w.next (Record.ofTerm t), .termKey (digest (Record.ofTerm t)) w.next] }

theorem tables_number {digest : Bytes → Bytes} (w : Writer) {T : Tables} {t : Term} :
    (w.number digest t).tables T = (w.tables T).numberTerm digest t := by
  rw [tables, number, Tables.putAll_append]
  rfl

end Writer

namespace Tables

variable {digest : Bytes → Bytes} {T : Tables} {w : Writer} {t : Term} {ts : List Term}
  {id : TermId} {known : List TermId} {ids : IdQuad} {ops : List Operation} {c : Store.Call}
  {calls : List Store.Call}

/-- What is staged on tables leaves them in order once it is written. The new terms there are those
of which account is kept. -/
structure Staged (digest : Bytes → Bytes) (T : Tables) (w : Writer) : Prop where
  kept : (w.tables T).Kept digest
  next : T.next.toNat ≤ w.next.toNat
  terms : ∀ id t, (w.tables T).terms.get? id = some (Record.ofTerm t) ↔
    T.terms.get? id = some (Record.ofTerm t) ∨ w.pending.lookup t = some id

/-- Besides, there is room for terms to come, and numbers that were found out have records. -/
structure Ready (digest : Bytes → Bytes) (T : Tables) (ts : List Term) (known : List TermId)
    (w : Writer) : Prop where
  staged : Staged digest T w
  room : Room w.next ts
  known : ∀ id ∈ known, ∃ record, (w.tables T).terms.get? id = some record

theorem Kept.ready (h : T.Kept digest) (hroom : Room T.next ts) :
    Ready digest T ts [] { next := T.next } :=
  ⟨⟨h, Nat.le_refl _, fun _ _ => (or_iff_left nofun).symm⟩, hroom, List.forall_mem_nil _⟩

theorem Ready.learn (h : Ready digest T (t :: ts) known w)
    (hid : (w.tables T).terms.get? id = some (Record.ofTerm t)) :
    Ready digest T ts (id :: known) w :=
  ⟨h.staged, h.room.drop, List.forall_mem_cons.mpr ⟨⟨_, hid⟩, h.known⟩⟩

/-- A term that is neither stored nor staged gets the next number. -/
theorem Ready.number (h : Ready digest T (t :: ts) known w) (hpending : w.pending.lookup t = none)
    (hnew : ∀ id, T.terms.get? id ≠ some (Record.ofTerm t)) :
    Ready digest T ts (w.next :: known) (w.number digest t) := by
  obtain ⟨⟨hkept, hnext, hterms⟩, hroom, hknown⟩ := h
  have habsent : ∀ id, (w.tables T).terms.get? id ≠ some (Record.ofTerm t) := fun id hid => by
    rcases (hterms id t).mp hid with hid | hid
    · exact hnew id hid
    · rw [hpending] at hid; cases hid
  have hget : ((w.tables T).numberTerm digest t).terms.get? w.next = some (Record.ofTerm t) :=
    get?_terms_numberTerm.trans (if_pos rfl)
  refine ⟨⟨?_, ?_, fun id u => ?_⟩, hroom.tail, List.forall_mem_cons.mpr ⟨?_, fun id hid => ?_⟩⟩
  · rw [w.tables_number]
    exact hkept.numberTerm hroom habsent
  · exact Nat.le_trans hnext (Nat.le_trans (Nat.le_succ _) (Nat.le_of_eq hroom.toNat_succ.symm))
  · rw [w.tables_number, get?_terms_numberTerm, Writer.number, lookup_cons_eq]
    change (if id = w.next then _ else _) = _ ↔ _ ∨ (if u = t then some w.next else _) = _
    by_cases hu : u = t
    · subst hu
      rw [if_pos rfl, or_iff_right (hnew id), Option.some.injEq]
      split
      next hid => exact iff_of_true rfl hid.symm
      next hid => exact iff_of_false (habsent id) fun he => hid he.symm
    · rw [if_neg hu, ← hterms]
      split
      next hid =>
        have hne : Record.ofTerm t ≠ Record.ofTerm u := fun he =>
          hu ((Record.ofTerm_eq_iff (hroom.short t List.mem_cons_self)).mp he.symm)
        refine iff_of_false (fun he => hne (Option.some.inj he)) fun hold => ?_
        exact Nat.lt_irrefl _ (hid ▸ hkept.below _ _ hold)
      next => rfl
  · rw [w.tables_number]
    exact ⟨_, hget⟩
  · obtain ⟨record, hrecord⟩ := hknown id hid
    rw [w.tables_number]
    exact ⟨record, hkept.get?_numberTerm hrecord⟩

/-- The number of a term is found out, or the term gets one. -/
theorem Kept.leads_idFor (h : T.Kept digest) (t : Term) (ts : List Term) (known : List TermId) :
    Leads (Ready digest T (t :: ts) known) (T.idFor digest t)
      (fun id => Ready digest T ts (id :: known)) fun w => T.next.toNat ≤ w.next.toNat := by
  intro w hw
  simp only [Tables.idFor, bind_run, get_run]
  cases hpending : w.pending.lookup t with
  | some id => exact hw.learn ((hw.staged.terms id t).mpr (.inr hpending))
  | none =>
    simp only [bind_run, idFor.liftExcept]
    cases hlookup : T.lookup digest t with
    | error fault => exact hw.staged.next
    | ok found =>
      cases found with
      | some id => exact hw.learn ((hw.staged.terms id t).mpr (.inl (h.get?_of_lookup hlookup)))
      | none => exact hw.number hpending fun id => h.get?_ne_of_lookup hlookup

/-- Rows are staged that leave the terms as they are. -/
theorem Ready.append {w' : Writer} {rows : List Row} (h : Ready digest T ts known w)
    (hw' : w'.batch = w.batch ++ rows ∧ w'.next = w.next ∧ w'.pending = w.pending)
    (hkept : ((w.tables T).putAll rows).Kept digest)
    (hterms : ((w.tables T).putAll rows).terms = (w.tables T).terms) :
    Ready digest T ts [] w' := by
  obtain ⟨hbatch, hnext, hpending⟩ := hw'
  have htables : w'.tables T = (w.tables T).putAll rows := by
    rw [Writer.tables, hbatch, hnext, putAll_append]
    exact (putAll_with_next ..).symm
  refine ⟨⟨htables ▸ hkept, hnext ▸ h.staged.next, fun id t => ?_⟩, hnext ▸ h.room,
    List.forall_mem_nil _⟩
  rw [htables, hterms, hpending]
  exact h.staged.terms id t

/-- A quad of numbers that were found out is staged for writing. -/
theorem Ready.insert (h : Ready digest T ts known w)
    (hids : ∀ position, ids.get position ∈ known) : Ready digest T ts [] (w.insert T ids) := by
  rw [Writer.insert]
  split
  · exact h.append ⟨(List.append_nil _).symm, rfl, rfl⟩ h.staged.kept rfl
  · exact h.append ⟨rfl, rfl, rfl⟩
      (h.staged.kept.putAll_insert fun position => h.known _ (hids position)) rfl

theorem Ready.delete (h : Ready digest T ts known w) (ids : IdQuad) :
    Ready digest T ts [] (w.delete T ids) := by
  rw [Writer.delete]
  split
  · exact h.append ⟨rfl, rfl, rfl⟩ (h.staged.kept.putAll_remove ids) rfl
  · exact h.append ⟨(List.append_nil _).symm, rfl, rfl⟩ h.staged.kept rfl

theorem Kept.leads_stage_insert (h : T.Kept digest) (q : Quad) (ts : List Term) :
    Leads (Ready digest T (q.terms ++ ts) []) (T.stage digest ⟨.insert, q⟩)
      (fun _ => Ready digest T ts []) fun w => T.next.toNat ≤ w.next.toNat := by
  refine .bind (h.leads_idFor q.subject (q.predicate :: q.object :: q.graph :: ts) [])
    fun subject => .bind (h.leads_idFor q.predicate (q.object :: q.graph :: ts) [subject])
    fun predicate => .bind (h.leads_idFor q.object (q.graph :: ts) [predicate, subject])
    fun object => .bind (h.leads_idFor q.graph ts [object, predicate, subject]) fun graph => ?_
  refine .modify fun w (hw : Ready digest T ts [graph, object, predicate, subject] w) =>
    hw.insert fun position => ?_
  cases position <;> simp [IdQuad.get]

theorem leads_stage_delete (q : Quad) (ts : List Term) :
    Leads (Ready digest T ts []) (T.stage digest ⟨.delete, q⟩)
      (fun _ => Ready digest T ts []) fun w => T.next.toNat ≤ w.next.toNat := by
  intro w hw
  simp only [stage, bind_run, idFor.liftExcept]
  cases T.encode digest q with
  | error fault => exact hw.staged.next
  | ok found =>
    cases found with
    | none => exact hw
    | some ids => exact hw.delete ids

theorem Kept.leads_stageAll (h : T.Kept digest) (ops : List Operation) :
    Leads (Ready digest T (Operation.brought ops) []) (T.stageAll digest ops)
      (fun _ => Ready digest T [] []) fun w => T.next.toNat ≤ w.next.toNat := by
  induction ops with
  | nil => exact .pure () fun _ hw => hw
  | cons op ops ih =>
    obtain ⟨action, q⟩ := op
    rw [stageAll]
    cases action with
    | insert => exact .bind (h.leads_stage_insert q _) fun _ => ih
    | delete => exact .bind (leads_stage_delete q _) fun _ => ih

/-! ## Calls -/

/-- What is staged is written in order, or after a fault nothing is. -/
theorem Kept.commit {α : Type} {work : WriterM α} {Q : α → Writer → Prop} (h : T.Kept digest)
    (hroom : Room T.next ts)
    (hwork : Leads (Ready digest T ts []) work Q fun w => T.next.toNat ≤ w.next.toNat)
    (hQ : ∀ a w, Q a w → Staged digest T w) : (T.commit work).2.Kept digest := by
  have hdone := hwork { next := T.next } (h.ready hroom)
  rw [Tables.commit]
  generalize work { next := T.next } = r at hdone ⊢
  obtain ⟨fault | a, w⟩ := r
  · exact h.spend hdone
  · exact (hQ a w hdone).kept

theorem Kept.write (h : T.Kept digest) (hroom : Room T.next (Operation.brought ops)) :
    (T.write digest ops).2.Kept digest := by
  rw [Tables.write]
  split
  · exact h
  · exact h.commit hroom (h.leads_stageAll ops) fun _ _ hw => hw.staged

theorem Kept.intern (h : T.Kept digest) (hroom : Room T.next [t]) :
    (T.intern digest t).2.Kept digest := by
  rw [Tables.intern]
  split
  · exact h
  · split
    · exact h
    · exact h
    · exact h.commit hroom (h.leads_idFor t [] []) fun _ _ hw => hw.staged

theorem Kept.reopen (h : T.Kept digest) : T.reopen.Kept digest :=
  h.of_terms (fun o => by cases o <;> rfl) (fun _ _ hget => hget)
    ⟨h.record, h.once, h.taken, (Dictionary.below_reopened h.below).1⟩

theorem Kept.send (h : T.Kept digest) (hroom : Room T.next c.stores) :
    (T.send digest c).2.Kept digest := by
  cases c with
  | insertAll quads =>
    refine h.write ?_
    rw [Operation.brought_map_insert]
    exact hroom
  | eraseAll quads =>
    refine h.write ?_
    rw [Operation.brought_map_delete]
    exact hroom
  | apply b => exact h.write hroom
  | intern t => exact h.intern hroom
  | lookup | scan => exact h
  | reopen => exact h.reopen

/-! ## Runs -/

/-- Whenever a call is made there is room for the terms that it stores. -/
def HasRoom (digest : Bytes → Bytes) (T : Tables) : List Store.Call → Prop
  | [] => True
  | c :: calls => Room T.next c.stores ∧ HasRoom digest (T.send digest c).2 calls

instance HasRoom.decidable (digest : Bytes → Bytes) :
    (T : Tables) → (calls : List Store.Call) → Decidable (HasRoom digest T calls)
  | _, [] => .isTrue trivial
  | T, c :: calls =>
    have := HasRoom.decidable digest (T.send digest c).2 calls
    inferInstanceAs (Decidable (_ ∧ _))

theorem Kept.foldl_send (h : T.Kept digest) (hroom : HasRoom digest T calls) :
    (calls.foldl (fun T c => (T.send digest c).2) T).Kept digest := by
  induction calls generalizing T with
  | nil => exact h
  | cons c calls ih => exact ih (h.send hroom.1) hroom.2

/-- Tables are in order after every run for which there is room. -/
theorem kept_run (hroom : HasRoom digest {} calls) : (run digest calls).Kept digest :=
  (kept_empty digest).foldl_send hroom

end Tables
end DualStore
