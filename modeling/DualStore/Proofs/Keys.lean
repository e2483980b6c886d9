import DualStore.Quad.Key
import Mathlib.Data.List.Basic
import Mathlib.Data.List.TakeWhile

/-! The keys of quads, in every ordering: each is read back, they sort as the numbers in them do,
and they start with what a pattern binds first just for the quads that have these numbers
(`KeyOrder.encode_lawful`). -/

namespace DualStore

/-! ## Bytes -/

namespace Bytes

theorem toNat_lt (bytes : Bytes) : toNat bytes < Nat.pow 256 bytes.length := by
  induction bytes with
  | nil => exact Nat.one_pos
  | cons b bytes ih =>
    have hb : (b.toNat + 1) * Nat.pow 256 bytes.length ≤ 256 * Nat.pow 256 bytes.length :=
      Nat.mul_le_mul_right _ b.toNat_lt
    rw [Nat.succ_mul] at hb
    have hpow : Nat.pow 256 (bytes.length + 1) = 256 * Nat.pow 256 bytes.length := Nat.pow_succ'
    rw [toNat, List.length_cons, hpow]
    omega

theorem ofNat_toNat (bytes : Bytes) : ofNat bytes.length (toNat bytes) = bytes := by
  induction bytes with
  | nil => rfl
  | cons b bytes ih =>
    have hlt := toNat_lt bytes
    have hpos : 0 < Nat.pow 256 bytes.length := Nat.zero_lt_of_lt hlt
    have hdiv : (b.toNat * Nat.pow 256 bytes.length + toNat bytes) / Nat.pow 256 bytes.length =
        b.toNat := by
      rw [Nat.mul_comm, Nat.mul_add_div hpos, Nat.div_eq_of_lt hlt, Nat.add_zero]
    have hmod : (b.toNat * Nat.pow 256 bytes.length + toNat bytes) % Nat.pow 256 bytes.length =
        toNat bytes := by
      rw [Nat.mul_comm, Nat.mul_add_mod, Nat.mod_eq_of_lt hlt]
    rw [toNat, List.length_cons, ofNat, hdiv, hmod, ih, UInt8.ofNat_toNat]

theorem toNat_ofWord (n : UInt64) : toNat (ofWord n) = n.toNat := toNat_ofNat n.toNat_lt

theorem toWord_ofWord (n : UInt64) : toWord (ofWord n) = n := by
  rw [toWord, toNat_ofWord, UInt64.ofNat_toNat]

theorem ofWord_toWord {bytes : Bytes} (h : bytes.length = 8) : ofWord (toWord bytes) = bytes := by
  have hlt := toNat_lt bytes
  rw [h] at hlt
  have hword : (toWord bytes).toNat = toNat bytes := UInt64.toNat_ofNat_of_lt' hlt
  rw [ofWord, hword, ← h, ofNat_toNat]

/-- Words that start two strings are told apart. -/
theorem ofWord_append_prefix {m n : UInt64} {u v : Bytes} :
    ofWord m ++ u <+: ofWord n ++ v ↔ m = n ∧ u <+: v := by
  constructor
  · rintro ⟨rest, h⟩
    rw [List.append_assoc] at h
    obtain ⟨hword, hrest⟩ := List.append_inj h (by rw [length_ofWord, length_ofWord])
    have hmn := congrArg toWord hword
    rw [toWord_ofWord, toWord_ofWord] at hmn
    exact ⟨hmn, rest, hrest⟩
  · rintro ⟨rfl, h⟩
    exact (List.prefix_append_right_inj _).mpr h

/-! ## Order of bytes -/

/-- Strings whose first parts have one length are compared part by part. -/
theorem compare_append {a b u v : Bytes} (h : a.length = b.length) :
    compare (a ++ u) (b ++ v) = (compare a b).then (compare u v) := by
  induction a generalizing b with
  | nil =>
    obtain rfl := List.length_eq_zero_iff.mp h.symm
    rw [List.compare_nil_nil]
    rfl
  | cons x a ih =>
    cases b with
    | nil => cases h
    | cons y b =>
      rw [List.cons_append, List.cons_append, List.compare_cons_cons, List.compare_cons_cons,
        ih (Nat.succ.inj h), Ordering.then_assoc]

/-- The first of two digits counts most. -/
private theorem compare_digits {base x y u v : Nat} (hu : u < base) (hv : v < base) :
    compare (x * base + u) (y * base + v) = (compare x y).then (compare u v) := by
  rcases Nat.lt_trichotomy x y with hlt | rfl | hgt
  · have hle : (x + 1) * base ≤ y * base := Nat.mul_le_mul_right base hlt
    rw [Nat.succ_mul] at hle
    rw [Nat.compare_eq_lt.mpr hlt, Nat.compare_eq_lt.mpr (by omega)]
    rfl
  · rw [Nat.compare_eq_eq.mpr rfl, Nat.compare_eq_ite_lt, Nat.compare_eq_ite_lt]
    simp only [Nat.add_lt_add_iff_left]
    rfl
  · have hle : (y + 1) * base ≤ x * base := Nat.mul_le_mul_right base hgt
    rw [Nat.succ_mul] at hle
    rw [Nat.compare_eq_gt.mpr hgt, Nat.compare_eq_gt.mpr (by omega)]
    rfl

/-- Strings of one length are compared as numbers are. -/
theorem compare_eq_compare_toNat {a b : Bytes} (h : a.length = b.length) :
    compare a b = compare (toNat a) (toNat b) := by
  induction a generalizing b with
  | nil =>
    obtain rfl := List.length_eq_zero_iff.mp h.symm
    rfl
  | cons x a ih =>
    cases b with
    | nil => cases h
    | cons y b =>
      have hlength : a.length = b.length := Nat.succ.inj h
      have hb := toNat_lt b
      rw [← hlength] at hb
      rw [List.compare_cons_cons, ih hlength, toNat, toNat, ← hlength,
        compare_digits (toNat_lt a) hb, UInt8.compare_eq_toNat_compare_toNat]

theorem compare_ofWord (m n : UInt64) : compare (ofWord m) (ofWord n) = compare m n := by
  rw [compare_eq_compare_toNat (by rw [length_ofWord, length_ofWord]), toNat_ofWord, toNat_ofWord,
    UInt64.compare_eq_toNat_compare_toNat]

/-- Strings of words are compared word by word. -/
theorem compare_flatMap_ofWord {ms ns : List UInt64} (h : ms.length = ns.length) :
    compare (ms.flatMap ofWord) (ns.flatMap ofWord) = compare ms ns := by
  induction ms generalizing ns with
  | nil =>
    obtain rfl := List.length_eq_zero_iff.mp h.symm
    rfl
  | cons m ms ih =>
    cases ns with
    | nil => cases h
    | cons n ns =>
      rw [List.flatMap_cons, List.flatMap_cons,
        compare_append (by rw [length_ofWord, length_ofWord]), compare_ofWord,
        ih (Nat.succ.inj h), List.compare_cons_cons]

end Bytes

namespace KeyOrder

variable {o : KeyOrder} {q q' : IdQuad} {p : IdPattern} {key : Bytes}

/-! ## Reading back -/

theorem mem_positions (o : KeyOrder) (s : Position) : s ∈ o.positions := by
  cases o <;> cases s <;> decide

theorem nodup_positions (o : KeyOrder) : o.positions.Nodup := by
  cases o <;> decide

theorem length_positions (o : KeyOrder) : o.positions.length = 4 := by
  cases o <;> rfl

/-- The piece of a position is found at its place. -/
private theorem take_drop_flatMap {f : Position → Bytes} (hf : ∀ s, (f s).length = 8) {s : Position}
    {ps : List Position} (hs : s ∈ ps) : ((ps.flatMap f).drop (8 * ps.idxOf s)).take 8 = f s := by
  induction ps with
  | nil => cases hs
  | cons a ps ih =>
    rw [List.flatMap_cons]
    by_cases ha : a = s
    · subst ha
      rw [List.idxOf_cons_self, Nat.mul_zero, List.drop_zero, List.take_left' (hf a)]
    · have hmem : s ∈ ps := (List.mem_cons.mp hs).resolve_left fun h => ha h.symm
      rw [List.idxOf_cons_ne _ ha, Nat.mul_succ, Nat.add_comm, ← List.drop_drop,
        List.drop_left' (hf a), ih hmem]

/-- The pieces of all positions are the key. -/
private theorem flatMap_take_drop {ps : List Position} (hps : ps.Nodup) (key : Bytes) :
    ps.flatMap (fun s => (key.drop (8 * ps.idxOf s)).take 8) = key.take (8 * ps.length) := by
  induction ps generalizing key with
  | nil => rfl
  | cons a ps ih =>
    obtain ⟨ha, hps⟩ := List.nodup_cons.mp hps
    have hrest : ps.flatMap (fun s => (key.drop (8 * (a :: ps).idxOf s)).take 8) =
        ps.flatMap fun s => ((key.drop 8).drop (8 * ps.idxOf s)).take 8 := by
      refine List.flatMap_congr fun s hs => ?_
      have hne : a ≠ s := fun he => ha (he ▸ hs)
      rw [List.idxOf_cons_ne _ hne, Nat.mul_succ, Nat.add_comm, List.drop_drop]
    rw [List.flatMap_cons, hrest, ih hps, List.idxOf_cons_self, Nat.mul_zero, List.drop_zero,
      List.length_cons, Nat.mul_succ, Nat.add_comm, List.take_add]

theorem length_encode : (o.encode q).length = keyLength := by
  cases o <;> simp [encode, positions, keyLength]

theorem decode_encode (o : KeyOrder) (q : IdQuad) : o.decode (o.encode q) = .ok q := by
  rw [decode, if_pos length_encode]
  have hget : ∀ s, Bytes.toWord (((o.encode q).drop (8 * o.place s)).take 8) = q.get s := by
    intro s
    rw [encode, place, take_drop_flatMap (fun _ => Bytes.length_ofWord _) (mem_positions o s),
      Bytes.toWord_ofWord]
  simp only [hget]
  rfl

theorem decode_isOk_iff : (∃ q, o.decode key = .ok q) ↔ key.length = keyLength := by
  rw [decode]
  split
  next h => exact iff_of_true ⟨_, rfl⟩ h
  next h => exact iff_of_false nofun h

theorem encode_of_decode (h : o.decode key = .ok q) : o.encode q = key := by
  have hlength : key.length = keyLength := decode_isOk_iff.mp ⟨q, h⟩
  rw [decode, if_pos hlength] at h
  obtain rfl := Except.ok.inj h
  have hpiece : ∀ s ∈ o.positions, ((key.drop (8 * o.place s)).take 8).length = 8 := by
    intro s hs
    have hplace : o.place s < o.positions.length := List.idxOf_lt_length_of_mem hs
    rw [length_positions] at hplace
    rw [List.length_take, List.length_drop, hlength, keyLength]
    omega
  have hpieces : o.encode (.ofFn fun s => Bytes.toWord ((key.drop (8 * o.place s)).take 8)) =
      o.positions.flatMap fun s => (key.drop (8 * o.place s)).take 8 := by
    refine List.flatMap_congr fun s hs => ?_
    rw [IdQuad.get_ofFn, Bytes.ofWord_toWord (hpiece s hs)]
  have hall : key.take (8 * 4) = key := List.take_of_length_le (Nat.le_of_eq hlength)
  rw [hpieces]
  exact (flatMap_take_drop o.nodup_positions key).trans (by rw [length_positions, hall])

theorem decode_eq_ok_iff : o.decode key = .ok q ↔ o.encode q = key :=
  ⟨encode_of_decode, fun h => h ▸ decode_encode o q⟩

theorem encode_inj (h : o.encode q = o.encode q') : q = q' := by
  have := decode_encode o q
  rw [h, decode_encode] at this
  exact (Except.ok.inj this).symm

theorem encode_inj_iff : o.encode q = o.encode q' ↔ q = q' := ⟨encode_inj, fun h => h ▸ rfl⟩

/-! ## Order of keys -/

/-- Keys are compared as the numbers of their quads are, in the order of the positions. -/
theorem compare_encode (o : KeyOrder) (q q' : IdQuad) : compare (o.encode q) (o.encode q') =
    compare (o.positions.map q.get) (o.positions.map q'.get) := by
  have hencode : ∀ q, o.encode q = (o.positions.map q.get).flatMap Bytes.ofWord :=
    fun q => (List.flatMap_map ..).symm
  rw [hencode, hencode, Bytes.compare_flatMap_ofWord (by rw [List.length_map, List.length_map])]

/-! ## Patterns -/

theorem accepts_iff : p.accepts q = true ↔ ∀ s id, p.get s = some id → q.get s = id := by
  have hget : ∀ s, (p.get s).all (· == q.get s) = true ↔
      ∀ id, p.get s = some id → q.get s = id := by
    intro s
    cases p.get s with
    | none => exact iff_of_true rfl nofun
    | some id =>
      rw [Option.all_some, beq_iff_eq]
      exact ⟨fun h id' h' => Option.some.inj h' ▸ h.symm, fun h => (h id rfl).symm⟩
  simp only [IdPattern.accepts, List.all_cons, List.all_nil, Bool.and_true, Bool.and_eq_true, hget]
  constructor
  · rintro ⟨hs, hp, ho, hg⟩ s
    cases s <;> assumption
  · intro h
    exact ⟨h _, h _, h _, h _⟩

/-- A key starts with what a pattern binds first if its quad has just these numbers there. -/
theorem keyPrefix_prefix_iff : o.keyPrefix p <+: o.encode q ↔
    ∀ s ∈ o.boundPositions p, p.get s = some (q.get s) := by
  have hbound : ∀ ps : List Position,
      (((ps.takeWhile fun s => (p.get s).isSome).filterMap p.get).flatMap Bytes.ofWord) <+:
        (ps.flatMap fun s => Bytes.ofWord (q.get s)) ↔
      ∀ s ∈ ps.takeWhile fun s => (p.get s).isSome, p.get s = some (q.get s) := by
    intro ps
    induction ps with
    | nil => exact iff_of_true List.prefix_rfl (List.forall_mem_nil _)
    | cons s ps ih =>
      cases hs : p.get s with
      | none => simp [hs]
      | some id =>
        rw [List.takeWhile_cons_of_pos (by rw [hs]; rfl), List.filterMap_cons_some hs,
          List.flatMap_cons, List.flatMap_cons, Bytes.ofWord_append_prefix, ih,
          List.forall_mem_cons, hs, Option.some.injEq]
  exact hbound o.positions

/-- The keys of the quads that a pattern accepts start with what it binds first. -/
theorem keyPrefix_prefix (h : p.accepts q = true) : o.keyPrefix p <+: o.encode q := by
  refine keyPrefix_prefix_iff.mpr fun s hs => ?_
  have hbound := List.mem_takeWhile_imp hs
  obtain ⟨id, hid⟩ := Option.isSome_iff_exists.mp hbound
  rw [hid, accepts_iff.mp h s id hid]

/-- In every ordering just the strings of 32 bytes are keys, each of one quad. Keys sort as the
numbers of their quads in the order of the positions, and a key starts with the prefix of a pattern
exactly if its quad has the numbers that the pattern binds before the first position that it leaves
open. -/
theorem encode_lawful (o : KeyOrder) :
    (∀ key, (∃ q, o.decode key = .ok q) ↔ key.length = 32) ∧
    (∀ key q, o.decode key = .ok q ↔ o.encode q = key) ∧
    (∀ q q', compare (o.encode q) (o.encode q') =
      compare (o.positions.map q.get) (o.positions.map q'.get)) ∧
    ∀ p q, o.keyPrefix p <+: o.encode q ↔ ∀ s ∈ o.boundPositions p, p.get s = some (q.get s) :=
  ⟨fun _ => decode_isOk_iff, fun _ _ => decode_eq_ok_iff, compare_encode o,
    fun _ _ => keyPrefix_prefix_iff⟩

end KeyOrder
end DualStore
