import DualStore.Proofs.Collections
import DualStore.Proofs.TermRecords
import DualStore.Store.Dictionary

/-! The dictionary of a space is a bijection between its terms and their numbers, for as long as the
numbers and the lengths in its records fit the machine (`Dictionary.Valid.resolve?_eq_some`). -/

namespace DualStore
namespace Dictionary

variable {d : Dictionary} {t u : Term} {id : TermId} {record : Bytes}

/-- Both maps are inverse to each other, every record is that of a term, and the numbers were given
out one by one. -/
structure Valid (d : Dictionary) : Prop where
  inverse : ∀ id record, d.terms.get? id = some record ↔ d.numbers.get? record = some id
  record : ∀ id record, d.terms.get? id = some record → ∃ t, record = Record.ofTerm t
  below : ∀ id record, d.terms.get? id = some record → id.toNat < d.next.toNat
  next : d.next.toNat ≤ d.numbers.size + 1

/-- The limits of the machine: numbers of terms and lengths of records have 64 bits. -/
structure Fits (d : Dictionary) : Prop where
  size : d.numbers.size + 1 < UInt64.size
  record : ∀ record id, d.numbers.get? record = some id → record.length < UInt64.size

instance (d : Dictionary) : Decidable d.Fits :=
  decidable_of_iff
    (d.numbers.size + 1 < UInt64.size ∧ ∀ record ∈ d.numbers.keys, record.length < UInt64.size)
    ⟨fun h => ⟨h.1, fun record id hget => h.2 record (SortedMap.mem_keys.mpr ⟨id, hget⟩)⟩,
      fun h => ⟨h.size, fun record hrecord =>
        (SortedMap.mem_keys.mp hrecord).elim fun id hget => h.record record id hget⟩⟩

theorem valid_empty : ({} : Dictionary).Valid :=
  ⟨fun _ _ => iff_of_false nofun nofun, nofun, nofun, by decide⟩

/-! ## Looking up -/

/-- A number stands for a term just when the term has this number. -/
theorem Valid.resolve?_eq_some (h : d.Valid) (hf : d.Fits) :
    d.resolve? id = some t ↔ d.lookup? t = some id := by
  rw [resolve?, lookup?, Option.bind_eq_some_iff, ← h.inverse]
  constructor
  · rintro ⟨record, hget, hterm⟩
    obtain ⟨u, rfl⟩ := h.record id record hget
    rw [Record.toTerm?_ofTerm (hf.record _ id ((h.inverse _ _).mp hget))] at hterm
    rw [← Option.some.inj hterm, hget]
  · intro hget
    exact ⟨_, hget, Record.toTerm?_ofTerm (hf.record _ id ((h.inverse _ _).mp hget))⟩

theorem Valid.lookup?_inj (h : d.Valid) (hf : d.Fits) (ht : d.lookup? t = some id)
    (hu : d.lookup? u = some id) : t = u := by
  rw [← h.resolve?_eq_some hf] at ht hu
  exact Option.some.inj (ht.symm.trans hu)

/-! ## Numbering -/

/-- The term that is numbered gets its number, and no other term gets one. -/
theorem lookup?_number : (d.number t).2.lookup? u =
    if Record.ofTerm u = Record.ofTerm t then some (d.number t).1 else d.lookup? u := by
  cases hlookup : d.lookup? t with
  | none =>
    simp only [number, hlookup]
    rw [lookup?, SortedMap.get?_insert, lookup?]
  | some id =>
    simp only [number, hlookup]
    split
    next he => rw [← hlookup, lookup?, lookup?, he]
    next => rfl

/-- Terms keep their numbers. -/
theorem lookup?_number_of_some (h : d.lookup? u = some id) :
    (d.number t).2.lookup? u = some id := by
  rw [lookup?_number]
  split
  next he =>
    have ht : d.lookup? t = some id := by rw [lookup?, ← he]; exact h
    rw [number, ht]
  next => exact h

private theorem number_of_none (h : d.lookup? t = none) : (d.number t).2 =
    ⟨d.terms.insert d.next (Record.ofTerm t), d.numbers.insert (Record.ofTerm t) d.next,
      d.next + 1⟩ := by
  rw [number, h]

/-- What fits after a term was numbered did so before. -/
theorem fits_of_number (hf : (d.number t).2.Fits) : d.Fits := by
  cases hlookup : d.lookup? t with
  | some id =>
    rw [number, hlookup] at hf
    exact hf
  | none =>
    rw [number_of_none hlookup] at hf
    obtain ⟨hsize, hrecord⟩ := hf
    constructor
    · rw [SortedMap.size_insert hlookup] at hsize
      exact Nat.lt_of_succ_lt hsize
    · intro record id hget
      refine hrecord record id ?_
      have hne : record ≠ Record.ofTerm t := by
        rintro rfl
        rw [lookup?, hget] at hlookup
        cases hlookup
      rw [SortedMap.get?_insert, if_neg hne, hget]

private theorem Valid.get?_next (h : d.Valid) : d.terms.get? d.next = none := by
  cases hget : d.terms.get? d.next with
  | none => rfl
  | some record => exact absurd (h.below _ _ hget) (Nat.lt_irrefl _)

theorem Valid.number (h : d.Valid) (hf : (d.number t).2.Fits) : (d.number t).2.Valid := by
  cases hlookup : d.lookup? t with
  | some id =>
    rw [Dictionary.number, hlookup]
    exact h
  | none =>
    have hsize := hf.size
    rw [number_of_none hlookup, SortedMap.size_insert hlookup] at hsize
    rw [number_of_none hlookup]
    have hnext : (d.next + 1).toNat = d.next.toNat + 1 := by
      rw [UInt64.toNat_add]
      exact Nat.mod_eq_of_lt (Nat.lt_of_le_of_lt (Nat.succ_le_succ h.next) hsize)
    constructor
    · intro id record
      rw [SortedMap.get?_insert, SortedMap.get?_insert]
      by_cases hid : id = d.next
      · subst hid
        rw [if_pos rfl]
        split
        next he => rw [he]; exact iff_of_true rfl rfl
        next hne =>
          rw [← h.inverse, h.get?_next]
          exact iff_of_false (fun he => hne (Option.some.inj he).symm) nofun
      · rw [if_neg hid]
        split
        next he =>
          rw [he, h.inverse]
          rw [lookup?] at hlookup
          rw [hlookup]
          exact iff_of_false nofun fun he => hid (Option.some.inj he).symm
        next => exact h.inverse id record
    · intro id record hget
      rw [SortedMap.get?_insert] at hget
      split at hget
      · exact ⟨t, (Option.some.inj hget).symm⟩
      · exact h.record id record hget
    · intro id record hget
      rw [SortedMap.get?_insert] at hget
      rw [hnext]
      split at hget
      next he => exact he ▸ Nat.lt_succ_self _
      next => exact Nat.lt_succ_of_lt (h.below id record hget)
    · rw [hnext, SortedMap.size_insert hlookup]
      exact Nat.succ_le_succ h.next

/-! ## Opening again -/

/-- The number after the last one of a list is above all of the list, and no greater than a number
that is. -/
theorem below_reopened {terms : SortedMap TermId Bytes} {n : TermId}
    (h : ∀ id record, terms.get? id = some record → id.toNat < n.toNat) :
    let next := match terms.keys.getLast? with
      | some id => id + 1
      | none => 1
    (∀ id record, terms.get? id = some record → id.toNat < next.toNat) ∧
      next.toNat ≤ max 1 n.toNat := by
  cases hlast : terms.keys.getLast? with
  | none =>
    have hempty : terms.toList = [] := by
      rw [List.getLast?_eq_none_iff, SortedMap.keys, List.map_eq_nil_iff] at hlast
      exact hlast
    refine ⟨fun id record hget => ?_, Nat.le_max_left ..⟩
    rw [SortedMap.get?_eq_some_iff, hempty] at hget
    cases hget
  | some last =>
    obtain ⟨record, hget⟩ := SortedMap.mem_keys.mp (List.mem_of_getLast? hlast)
    have hbelow := h last record hget
    have hsucc : (last + 1).toNat = last.toNat + 1 := by
      have := n.toNat_lt
      rw [UInt64.toNat_add]
      exact Nat.mod_eq_of_lt (by rw [UInt64.toNat_one]; omega)
    refine ⟨fun id record' hget' => ?_, ?_⟩
    · rw [hsucc]
      rcases SortedMap.eq_or_lt_getLast hlast hget' with rfl | hlt
      · exact Nat.lt_succ_self _
      · exact Nat.lt_succ_of_lt (UInt64.lt_iff_toNat_lt.mp (Std.compare_eq_lt.mp hlt))
    · rw [hsucc]
      exact Nat.le_trans hbelow (Nat.le_max_right ..)

/-- Numbering goes on where it was. -/
theorem Valid.reopen (h : d.Valid) : d.reopen.Valid := by
  obtain ⟨hbelow, hle⟩ := below_reopened h.below
  refine ⟨h.inverse, h.record, hbelow, Nat.le_trans hle ?_⟩
  exact Nat.max_le.mpr ⟨Nat.le_add_left 1 _, h.next⟩

end Dictionary
end DualStore
