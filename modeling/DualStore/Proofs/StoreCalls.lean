import DualStore.Proofs.Stores
import DualStore.Store.Tables
import Mathlib.Data.Set.Card

/-! Runs of a store: calls that write, number terms, read and open it again, in any order. What the
store holds after a run is told by sets alone (`Store.contents`), and so are the counts that a call
returns and the terms that have numbers (`Store.stored`). -/

namespace DualStore

/-! ## Operations on sets -/

namespace Operation

variable {s : SortedSet Quad} {q : Quad} {op : Operation} {ops : List Operation}

/-- What the last operation on a quad does to it; `none` if there is no operation on it. -/
def last? (ops : List Operation) (q : Quad) : Option Action :=
  (ops.reverse.find? (·.quad == q)).map (·.action)

theorem last?_concat (ops : List Operation) (op : Operation) (q : Quad) :
    last? (ops ++ [op]) q = if op.quad = q then some op.action else last? ops q := by
  rw [last?, List.reverse_append, List.reverse_singleton, List.singleton_append, List.find?_cons]
  by_cases h : op.quad = q
  · rw [if_pos h, beq_iff_eq.mpr h]
    rfl
  · rw [if_neg h, beq_eq_false_iff_ne.mpr h]
    rfl

/-- A quad is there after operations if the last one on it inserts it, or if it was there and is not
touched. -/
theorem mem_applyAll_iff_last? : q ∈ applyAll s ops ↔
    last? ops q = some .insert ∨ last? ops q = none ∧ q ∈ s := by
  induction ops using List.reverseRecOn with
  | nil => exact ⟨fun h => .inr ⟨rfl, h⟩, fun h => (h.resolve_left nofun).2⟩
  | append_singleton ops op ih =>
    rw [applyAll_append, applyAll_cons, applyAll_nil, mem_apply, last?_concat]
    by_cases h : op.quad = q
    · rw [if_pos h.symm, if_pos h, Option.some.injEq]
      exact ⟨.inl, fun h => h.resolve_right fun h => nomatch h.1⟩
    · rw [if_neg (Ne.symm h), if_neg h]
      exact ih

/-- Each quad is only inserted or only deleted. -/
def Steady (ops : List Operation) : Prop :=
  ∀ op ∈ ops, ∀ op' ∈ ops, op.quad = op'.quad → op.action = op'.action

theorem steady_lastOnly (ops : List Operation) : Steady (lastOnly ops) :=
  fun _ h _ h' hq => congrArg action (eq_of_mem_lastOnly h h' hq)

theorem steady_map (action : Action) (qs : List Quad) :
    Steady (qs.map fun q => ⟨action, q⟩) := by
  intro op h op' h' _
  obtain ⟨q, -, rfl⟩ := List.mem_map.mp h
  obtain ⟨q', -, rfl⟩ := List.mem_map.mp h'
  rfl

theorem Steady.tail (h : Steady (op :: ops)) : Steady ops :=
  fun _ hop _ hop' => h _ (List.mem_cons_of_mem _ hop) _ (List.mem_cons_of_mem _ hop')

/-- The last operation on a quad is like any other on it. -/
theorem Steady.mem_applyAll (h : Steady ops) (hop : op ∈ ops) :
    op.quad ∈ applyAll s ops ↔ op.action = .insert := by
  obtain ⟨⟨action, q⟩, hlast, hq⟩ := touched_lastOnly.mpr ⟨op, hop, rfl⟩
  obtain rfl : q = op.quad := hq
  have hsame : action = op.action := h _ (mem_of_mem_lastOnly hlast) op hop rfl
  rw [Operation.mem_applyAll, ← hsame]
  constructor
  · rintro (hinsert | ⟨-, hnot⟩)
    · exact congrArg Operation.action (eq_of_mem_lastOnly hlast hinsert rfl)
    · cases action with
      | insert => rfl
      | delete => exact absurd hlast hnot
  · rintro rfl
    exact .inl hlast

end Operation

/-! ## Counting -/

namespace Counts

/-- How many quads are new from one set to another, and how many are gone. -/
noncomputable def between (before after : Set Quad) : Counts :=
  ⟨(after \ before).ncard, (before \ after).ncard⟩

def plus (c d : Counts) : Counts := ⟨c.inserted + d.inserted, c.deleted + d.deleted⟩

theorem plus_assoc (a b c : Counts) : (a.plus b).plus c = a.plus (b.plus c) := by
  simp only [plus, Nat.add_assoc]

variable {s t u : Set Quad} {q : Quad}

private theorem ncard_sdiff_of_step (ht : t.Finite) (hu : u.Finite)
    (h : ∀ q, (q ∈ t ↔ q ∈ s) ∨ (q ∈ u ↔ q ∈ t)) :
    (u \ s).ncard = (t \ s).ncard + (u \ t).ncard := by
  have hsplit : u \ s = (t \ s) ∪ (u \ t) := by
    ext q
    have := h q
    simp only [Set.mem_sdiff, Set.mem_union]
    tauto
  rw [hsplit, Set.ncard_union_eq ?_ (ht.subset Set.sdiff_subset) (hu.subset Set.sdiff_subset)]
  exact Set.disjoint_left.mpr fun q h h' => h'.2 h.1

/-- Counts add up where nothing that is changed once is changed back. -/
theorem between_trans (hs : s.Finite) (ht : t.Finite) (hu : u.Finite)
    (h : ∀ q, (q ∈ t ↔ q ∈ s) ∨ (q ∈ u ↔ q ∈ t)) :
    between s u = (between s t).plus (between t u) := by
  rw [between, ncard_sdiff_of_step ht hu h,
    ncard_sdiff_of_step ht hs fun q => (h q).symm.imp Iff.symm Iff.symm, Nat.add_comm (t \ u).ncard]
  rfl

theorem between_self (s : Set Quad) : between s s = {} := by
  rw [between, Set.sdiff_self, Set.ncard_empty]

theorem between_insert (hq : q ∉ s) : between s (insert q s) = ⟨1, 0⟩ := by
  rw [between, Set.insert_sdiff_eq_singleton hq, Set.ncard_singleton,
    Set.sdiff_eq_empty.mpr (Set.subset_insert q s), Set.ncard_empty]

theorem between_sdiff_singleton (hq : q ∈ s) : between s (s \ {q}) = ⟨0, 1⟩ := by
  have hgone : s \ (s \ {q}) = {q} := by
    rw [Set.sdiff_sdiff_cancel_left (Set.singleton_subset_iff.mpr hq)]
  rw [between, hgone, Set.ncard_singleton, Set.sdiff_eq_empty.mpr Set.sdiff_subset, Set.ncard_empty]

end Counts

namespace Store

variable {s : Store} {q : Quad}

/-- An insertion reports whether the quad is new. -/
theorem Valid.insert_snd (h : s.Valid) (hf : (s.insert q).1.Fits) :
    (s.insert q).2 = true ↔ q ∉ s.quads := by
  have hf' : (s.intern q).2.Fits := by rwa [Fits, dictionary_insert] at hf
  obtain ⟨hvalid, hext, hencode⟩ := h.intern hf'
  have hcontains : (s.intern q).2.contains (s.intern q).1 = true ↔ q ∈ s.quads := by
    rw [contains_iff, ← h.quads_of_extends (fits_of_intern hf') hext hvalid hf',
      hvalid.mem_quads hf']
    constructor
    · exact fun hids => ⟨_, hencode, hids⟩
    · rintro ⟨ids, hids, hholds⟩
      rw [hencode] at hids
      rwa [Option.some.inj hids]
  rw [← hcontains, Store.insert]
  rcases s.intern q with ⟨ids, s'⟩
  dsimp only
  split
  next hc => exact iff_of_false Bool.false_ne_true fun h => h hc
  next hc => exact iff_of_true rfl hc

/-- A deletion reports whether the quad was there. -/
theorem Valid.erase_snd (h : s.Valid) (hf : s.Fits) : (s.erase q).2 = true ↔ q ∈ s.quads := by
  rw [h.mem_quads hf, Store.erase]
  cases s.encode? q with
  | none => simp
  | some ids =>
    dsimp only
    simp only [Option.some.injEq, exists_eq_left', ← contains_iff]
    split
    next hc => exact iff_of_true rfl hc
    next hc => exact iff_of_false Bool.false_ne_true hc

/-- The quads of a store as a set. -/
def content (s : Store) : Set Quad := {q | q ∈ s.quads}

theorem finite_content (s : Store) : s.content.Finite := s.quads.toList.finite_toSet

/-- An operation counts the quad that it brings or takes away, if it does. -/
theorem Valid.counts_perform {r : Store × Counts} {op : Operation} (h : r.1.Valid)
    (hf : (Store.perform r op).1.Fits) : (Store.perform r op).2 =
      r.2.plus (.between r.1.content (Store.perform r op).1.content) := by
  have hfits := fits_of_perform hf
  obtain ⟨action, q⟩ := op
  cases action with
  | insert =>
    have hafter : (Store.perform r ⟨.insert, q⟩).1.content = Insert.insert q r.1.content :=
      Set.ext (h.insert hf).2
    have hnew : (r.1.insert q).2 = true ↔ q ∉ r.1.content := h.insert_snd hf
    rw [hafter]
    change (if (r.1.insert q).2 = true then _ else _) = _
    split
    next hq => rw [Counts.between_insert (hnew.mp hq)]; rfl
    next hq =>
      rw [Set.insert_eq_of_mem (not_not.mp (mt hnew.mpr hq)), Counts.between_self]
      rfl
  | delete =>
    have hafter : (Store.perform r ⟨.delete, q⟩).1.content = r.1.content \ {q} :=
      Set.ext fun u => ((h.erase hfits).2 u).trans and_comm
    have hgone : (r.1.erase q).2 = true ↔ q ∈ r.1.content := h.erase_snd hfits
    rw [hafter]
    change (if (r.1.erase q).2 = true then _ else _) = _
    split
    next hq => rw [Counts.between_sdiff_singleton (hgone.mp hq)]; rfl
    next hq =>
      rw [Set.sdiff_singleton_eq_self (mt hgone.mpr hq), Counts.between_self]
      rfl

/-- Operations count the quads that they bring and those that they take away. -/
theorem Valid.counts_foldl {ops : List Operation} {r : Store × Counts} (h : r.1.Valid)
    (hf : (ops.foldl Store.perform r).1.Fits) (hsteady : Operation.Steady ops) :
    (ops.foldl Store.perform r).2 =
      r.2.plus (.between r.1.content (ops.foldl Store.perform r).1.content) := by
  induction ops generalizing r with
  | nil => rw [List.foldl_nil, Counts.between_self]; rfl
  | cons op ops ih =>
    have hf₁ := fits_of_foldl (r := Store.perform r op) hf
    obtain ⟨hvalid, hquads⟩ := h.perform hf₁
    obtain ⟨-, hlast⟩ := Valid.foldl_perform h hf
    rw [List.foldl_cons] at hlast ⊢
    rw [ih hvalid hf hsteady.tail, h.counts_perform hf₁, Counts.plus_assoc,
      ← Counts.between_trans (finite_content _) (finite_content _) (finite_content _)]
    intro q
    -- what the first operation does to its quad is what the last one on it does
    by_cases hq : q = op.quad
    · refine .inr ?_
      subst hq
      change op.quad ∈ (ops.foldl Store.perform (Store.perform r op)).1.quads ↔
        op.quad ∈ (Store.perform r op).1.quads
      rw [hlast, hquads, hsteady.mem_applyAll List.mem_cons_self, Operation.mem_apply, if_pos rfl]
    · refine .inl ?_
      change q ∈ (Store.perform r op).1.quads ↔ q ∈ r.1.quads
      rw [hquads, Operation.mem_apply, if_neg hq]

/-! ## Operations that are done already -/

theorem intern_of_encode? {ids : IdQuad} (h : s.encode? q = some ids) : s.intern q = (ids, s) := by
  obtain ⟨hs, hp, ho, hg⟩ := encode?_eq_some.mp h
  simp only [intern, Dictionary.number, hs, hp, ho, hg]

theorem perform_of_done {r : Store × Counts} {op : Operation} (h : r.1.Valid) (hf : r.1.Fits)
    (hdone : op.quad ∈ r.1.quads ↔ op.action = .insert) : Store.perform r op = r := by
  obtain ⟨s, counts⟩ := r
  obtain ⟨action, q⟩ := op
  cases action with
  | insert =>
    obtain ⟨ids, hids, hholds⟩ := (h.mem_quads hf).mp (hdone.mpr rfl)
    simp only [Store.perform, Store.insert, intern_of_encode? hids, contains_iff.mpr hholds,
      if_true, Bool.false_eq_true, if_false]
  | delete =>
    have hq : q ∉ s.quads := fun hq => by cases hdone.mp hq
    have hgone : ¬ (s.erase q).2 = true := mt (h.erase_snd hf).mp hq
    have hsame : (s.erase q).1 = s := by
      rw [erase_fst]
      split
      next ids hids =>
        exact if_neg fun hc => hq ((h.mem_quads hf).mpr ⟨ids, hids, contains_iff.mp hc⟩)
      next => rfl
    simp only [Store.perform, hgone, hsame, Bool.false_eq_true, if_false]

/-- Nothing changes when all that operations do is done already. -/
theorem foldl_perform_of_done {ops : List Operation} {r : Store × Counts} (h : r.1.Valid)
    (hf : r.1.Fits) (hdone : ∀ op ∈ ops, (op.quad ∈ r.1.quads ↔ op.action = .insert)) :
    ops.foldl Store.perform r = r := by
  induction ops with
  | nil => rfl
  | cons op ops ih =>
    rw [List.foldl_cons, perform_of_done h hf (hdone op List.mem_cons_self)]
    exact ih fun op hop => hdone op (List.mem_cons_of_mem _ hop)

end Store

/-! ## Terms that have numbers -/

def Quad.terms (q : Quad) : List Term := [q.subject, q.predicate, q.object, q.graph]

namespace Operation

/-- The record is that of a term of a quad that is inserted. -/
def Brings (ops : List Operation) (record : Bytes) : Prop :=
  ∃ op ∈ ops, op.action = .insert ∧ ∃ t ∈ op.quad.terms, record = Record.ofTerm t

theorem brings_cons {op : Operation} {ops : List Operation} {record : Bytes} :
    Brings (op :: ops) record ↔
      (op.action = .insert ∧ ∃ t ∈ op.quad.terms, record = Record.ofTerm t) ∨
        Brings ops record := by
  simp only [Brings, List.mem_cons, exists_eq_or_imp]

end Operation

namespace Dictionary

variable {d : Dictionary} {t u : Term} {record : Bytes}

/-- The record has a number. -/
def Lists (d : Dictionary) (record : Bytes) : Prop := ∃ id, d.numbers.get? record = some id

/-- The term has a number. -/
def Knows (d : Dictionary) (t : Term) : Prop := ∃ id, d.lookup? t = some id

theorem lists_number : (d.number t).2.Lists record ↔ record = Record.ofTerm t ∨ d.Lists record := by
  cases hlookup : d.lookup? t with
  | none =>
    rw [number, hlookup, Lists, SortedMap.get?_insert]
    split
    next h => exact iff_of_true ⟨_, rfl⟩ (.inl h)
    next h => exact (or_iff_right h).symm
  | some id =>
    rw [number, hlookup]
    refine (or_iff_right_of_imp ?_).symm
    rintro rfl
    exact ⟨id, hlookup⟩

theorem knows_number_self : (d.number t).2.Knows t := lists_number.mpr (.inl rfl)

/-- No other term has the record of a term that has a number. -/
theorem ofTerm_eq_iff (hf : d.Fits) (ht : d.Knows t) :
    Record.ofTerm u = Record.ofTerm t ↔ u = t := by
  obtain ⟨id, ht⟩ := ht
  exact Record.ofTerm_eq_iff (hf.record _ _ ht)

theorem knows_number (hf : (d.number t).2.Fits) :
    (d.number t).2.Knows u ↔ u = t ∨ d.Knows u :=
  lists_number.trans (or_congr_left (ofTerm_eq_iff hf knows_number_self))

/-- A dictionary keeps to the limits if one with the same records, or more, does. -/
theorem fits_of_lists {d' : Dictionary} (hf : d'.Fits)
    (h : ∀ record, d.Lists record → d'.Lists record) : d.Fits := by
  constructor
  · have hkeys : d.numbers.keys ⊆ d'.numbers.keys := fun record hr =>
      SortedMap.mem_keys.mpr (h record (SortedMap.mem_keys.mp hr))
    have hsize := (List.subperm_of_subset (SortedMap.nodup_keys d.numbers) hkeys).length_le
    simp only [SortedMap.keys, List.length_map] at hsize
    exact Nat.lt_of_le_of_lt (Nat.succ_le_succ hsize) hf.size
  · intro record id hr
    obtain ⟨id', hr'⟩ := h record ⟨id, hr⟩
    exact hf.record record id' hr'

end Dictionary

namespace Store

variable {s : Store} {q : Quad} {t : Term} {record : Bytes}

theorem lists_intern : (s.intern q).2.dictionary.Lists record ↔
    (∃ t ∈ q.terms, record = Record.ofTerm t) ∨ s.dictionary.Lists record := by
  let d₁ := (s.dictionary.number q.subject).2
  let d₂ := (d₁.number q.predicate).2
  let d₃ := (d₂.number q.object).2
  change (d₃.number q.graph).2.Lists record ↔ _
  rw [Dictionary.lists_number, Dictionary.lists_number, Dictionary.lists_number,
    Dictionary.lists_number]
  simp only [Quad.terms, List.mem_cons, List.not_mem_nil, or_false, exists_eq_or_imp,
    exists_eq_left]
  tauto

/-- The terms of inserted quads get numbers, and no others. -/
theorem lists_perform {r : Store × Counts} {op : Operation} :
    (perform r op).1.dictionary.Lists record ↔
      (op.action = .insert ∧ ∃ t ∈ op.quad.terms, record = Record.ofTerm t) ∨
        r.1.dictionary.Lists record := by
  obtain ⟨action, q⟩ := op
  cases action with
  | insert =>
    change (r.1.insert q).1.dictionary.Lists record ↔ _
    rw [dictionary_insert, lists_intern]
    exact or_congr_left (and_iff_right rfl).symm
  | delete =>
    change (r.1.erase q).1.dictionary.Lists record ↔ _
    rw [dictionary_erase]
    exact (or_iff_right fun h => nomatch h.1).symm

theorem lists_foldl {ops : List Operation} {r : Store × Counts} :
    (ops.foldl perform r).1.dictionary.Lists record ↔
      Operation.Brings ops record ∨ r.1.dictionary.Lists record := by
  induction ops generalizing r with
  | nil => exact (or_iff_right fun ⟨_, h, _⟩ => nomatch h).symm
  | cons op ops ih =>
    rw [List.foldl_cons, ih, lists_perform, Operation.brings_cons, or_left_comm, or_assoc]

theorem knows_foldl {ops : List Operation} {r : Store × Counts}
    (hf : (ops.foldl perform r).1.Fits) : (ops.foldl perform r).1.dictionary.Knows t ↔
      (∃ op ∈ ops, op.action = .insert ∧ t ∈ op.quad.terms) ∨ r.1.dictionary.Knows t := by
  refine lists_foldl.trans (or_congr_left ⟨?_, ?_⟩)
  · rintro ⟨op, hop, hinsert, u, hu, he⟩
    have hknows : (ops.foldl perform r).1.dictionary.Knows u :=
      lists_foldl.mpr (.inl ⟨op, hop, hinsert, u, hu, rfl⟩)
    exact ⟨op, hop, hinsert, (Dictionary.ofTerm_eq_iff hf hknows).mp he ▸ hu⟩
  · rintro ⟨op, hop, hinsert, ht⟩
    exact ⟨op, hop, hinsert, t, ht, rfl⟩

/-- Terms keep their numbers. -/
theorem lookup?_perform {r : Store × Counts} (op : Operation) {id : TermId}
    (h : r.1.dictionary.lookup? t = some id) :
    (perform r op).1.dictionary.lookup? t = some id := by
  obtain ⟨action, q⟩ := op
  cases action with
  | insert =>
    change (r.1.insert q).1.dictionary.lookup? t = some id
    rw [dictionary_insert]
    exact Dictionary.lookup?_number_of_some <| Dictionary.lookup?_number_of_some <|
      Dictionary.lookup?_number_of_some <| Dictionary.lookup?_number_of_some h
  | delete =>
    change (r.1.erase q).1.dictionary.lookup? t = some id
    rwa [dictionary_erase]

theorem lookup?_foldl {ops : List Operation} {r : Store × Counts} {id : TermId}
    (h : r.1.dictionary.lookup? t = some id) :
    (ops.foldl perform r).1.dictionary.lookup? t = some id := by
  induction ops generalizing r with
  | nil => exact h
  | cons op ops ih => exact ih (lookup?_perform op h)

/-! ## Batches that do the same -/

variable {b b' : Batch} {s' : Store} {counts : Counts}

theorem lists_apply (h : s.apply b = .ok (s', counts)) : s'.dictionary.Lists record ↔
    Operation.Brings b.effective record ∨ s.dictionary.Lists record := by
  have hrun := (apply_eq_ok.mp h).2
  rw [show s' = (b.effective.foldl perform (s, {})).1 by rw [hrun], lists_foldl]

/-- Whether a batch is taken depends on its quads alone, whatever the store. -/
theorem apply_of_alike (hb : ∀ op ∈ b.ops, op.quad.Storable)
    (hops : Operation.Alike b.ops b'.ops) (s : Store) :
    ∃ s' counts, s.apply b' = .ok (s', counts) := by
  refine ⟨_, _, apply_eq_ok.mpr ⟨fun op hop => ?_, rfl⟩⟩
  obtain ⟨op', hop', hq⟩ := Operation.touched_lastOnly.mpr ⟨op, hop, rfl⟩
  rw [← hops.mem_lastOnly] at hop'
  exact hq ▸ hb op' (Operation.mem_of_mem_lastOnly hop')

/-- Batches that do the same number the same terms. -/
theorem brings_of_alike (hops : Operation.Alike b.ops b'.ops) :
    Operation.Brings b.effective record ↔ Operation.Brings b'.effective record := by
  have hmem : ∀ op, op ∈ b.effective ↔ op ∈ b'.effective := fun _ => hops.mem_lastOnly
  simp only [Operation.Brings, hmem]

end Store
end DualStore
