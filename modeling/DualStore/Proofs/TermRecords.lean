import DualStore.Term.Record

/-! Stored forms of terms read back. An item's head holds an argument of eight bytes at most, so
this is stated for records that are shorter than `2 ^ 64` bytes (`Record.toTerm?_ofTerm`). -/

namespace DualStore

/-! ## Bytes -/

namespace Bytes

theorem split?_append {bytes rest : Bytes} {n : Nat} (h : bytes.length = n) :
    split? n (bytes ++ rest) = some (bytes, rest) := by
  subst h
  rw [split?, if_pos (by rw [List.length_append]; omega), List.take_left, List.drop_left]

end Bytes

namespace Record

/-! ## Items -/

/-- The argument that follows a head in bytes of its own. -/
private def argument? (width : Nat) (bytes : Bytes) : Option (Nat × Bytes) :=
  (Bytes.split? width bytes).map fun (ds, rest) => (Bytes.toNat ds, rest)

private theorem argument?_append (width : Nat) {n : Nat} {rest : Bytes}
    (h : n < Nat.pow 256 width) :
    argument? width (Bytes.ofNat width n ++ rest) = some (n, rest) := by
  rw [argument?, Bytes.split?_append (Bytes.length_ofNat ..)]
  exact congrArg (fun n => some (n, rest)) (Bytes.toNat_ofNat h)

private theorem readHead?_lead {major info : Nat} {bytes : Bytes} (hm : major < 8)
    (hi : info < 32) : readHead? major (UInt8.ofNat (32 * major + info) :: bytes) =
      if info < 24 then some (info, bytes)
      else if info = 24 then argument? 1 bytes
      else if info = 25 then argument? 2 bytes
      else if info = 26 then argument? 4 bytes
      else if info = 27 then argument? 8 bytes
      else none := by
  have hbyte : (UInt8.ofNat (32 * major + info)).toNat = 32 * major + info := by
    rw [UInt8.toNat_ofNat']
    omega
  have hdiv : (32 * major + info) / 32 = major := by omega
  have hmod : (32 * major + info) % 32 = info := by omega
  simp only [readHead?, hbyte, hdiv, hmod, ne_eq, not_true_eq_false, if_false]
  rfl

theorem readHead?_head {major n : Nat} {rest : Bytes} (hm : major < 8) (hn : n < UInt64.size) :
    readHead? major (head major n ++ rest) = some (n, rest) := by
  unfold head
  split
  next h =>
    rw [List.singleton_append, readHead?_lead hm (by omega), if_pos h]
  split
  next h =>
    rw [List.cons_append, readHead?_lead hm (by decide)]
    exact argument?_append 1 h
  split
  next h =>
    rw [List.cons_append, readHead?_lead hm (by decide)]
    exact argument?_append 2 h
  split
  next h =>
    rw [List.cons_append, readHead?_lead hm (by decide)]
    exact argument?_append 4 h
  next =>
    rw [List.cons_append, readHead?_lead hm (by decide)]
    exact argument?_append 8 hn

theorem readText?_text {s : String} (h : (text s).length < UInt64.size) (rest : Bytes) :
    readText? (text s ++ rest) = some (s, rest) := by
  have hlen : s.toUTF8.data.toList.length = s.utf8ByteSize := rfl
  have hsize : s.utf8ByteSize < UInt64.size := by
    rw [text, List.length_append, hlen] at h
    omega
  have hutf8 : String.fromUTF8? ⟨s.toUTF8.data.toList.toArray⟩ = some s := by
    rw [Array.toArray_toList]
    exact dif_pos s.isValidUTF8
  rw [readText?, text, List.append_assoc, readHead?_head (by decide) hsize]
  simp only [Option.bind_some, Bytes.split?_append hlen, hutf8, Option.map_some]

/-! ## Terms -/

theorem readPart?_text {s : String} {rest : Bytes} (h : (text s).length < UInt64.size) :
    readPart? (text s ++ rest) = some (some s, rest) := by
  have hread := readText?_text h rest
  cases htext : text s ++ rest with
  | nil => rw [htext] at hread; cases hread
  | cons b bytes =>
    have hb : b ≠ null := by
      rintro rfl
      have hnull : readText? (null :: bytes) = none := rfl
      rw [htext, hnull] at hread
      cases hread
    rw [readPart?, if_neg hb, ← htext, hread]
    rfl

theorem readPart?_null {rest : Bytes} : readPart? (null :: rest) = some (none, rest) := rfl

theorem readLiteral?_literal {l : Literal} (h : (literal l).length < UInt64.size) (rest : Bytes) :
    readLiteral? (literal l ++ rest) = some (l, rest) := by
  have hhead : ∀ n bytes, n < 8 → readHead? 4 (head 4 n ++ bytes) = some (n, bytes) :=
    fun n bytes hn => readHead?_head (by decide) (Nat.lt_trans hn (by decide))
  obtain ⟨lexical, datatype, language⟩ := l
  have hlexical : (text lexical).length < UInt64.size := by
    cases datatype <;> cases language <;> simp only [literal, List.length_append] at h <;> omega
  cases datatype with
  | none =>
    cases language with
    | none =>
      simp [literal, readLiteral?, hhead, readText?_text hlexical, readParts?]
    | some language =>
      have hlanguage : (text language).length < UInt64.size := by
        simp only [literal, List.length_append, List.length_cons] at h
        omega
      simp [literal, readLiteral?, hhead, readText?_text hlexical, readParts?, readPart?_null,
        readPart?_text hlanguage]
  | some datatype =>
    have hdatatype : (text datatype).length < UInt64.size := by
      cases language <;> simp only [literal, List.length_append] at h <;> omega
    cases language with
    | none =>
      simp [literal, readLiteral?, hhead, readText?_text hlexical, readParts?,
        readPart?_text hdatatype]
    | some language =>
      have hlanguage : (text language).length < UInt64.size := by
        simp only [literal, List.length_append] at h
        omega
      simp [literal, readLiteral?, hhead, readText?_text hlexical, readParts?,
        readPart?_text hdatatype, readPart?_text hlanguage]

/-- A term is read back from its record. -/
theorem toTerm?_ofTerm {t : Term} (h : (ofTerm t).length < UInt64.size) :
    toTerm? (ofTerm t) = some t := by
  have hhead : ∀ major n bytes, major < 8 → n < 8 →
      readHead? major (head major n ++ bytes) = some (n, bytes) :=
    fun major n bytes hm hn => readHead?_head hm (Nat.lt_trans hn (by decide))
  cases t with
  | iri value =>
    have hvalue : (text value).length < UInt64.size := by
      simp only [ofTerm, List.length_append] at h
      omega
    have hread := readText?_text hvalue []
    rw [List.append_nil] at hread
    simp [ofTerm, toTerm?, hhead, hread]
  | blank label =>
    have hlabel : (text label).length < UInt64.size := by
      simp only [ofTerm, List.length_append] at h
      omega
    have hread := readText?_text hlabel []
    rw [List.append_nil] at hread
    simp [ofTerm, toTerm?, hhead, hread]
  | literal l =>
    have hl : (literal l).length < UInt64.size := by
      simp only [ofTerm, List.length_append] at h
      omega
    have hread := readLiteral?_literal hl []
    rw [List.append_nil] at hread
    simp [ofTerm, toTerm?, hhead, hread]

theorem ofTerm_eq_iff {t u : Term} (h : (ofTerm t).length < UInt64.size) :
    ofTerm u = ofTerm t ↔ u = t := by
  refine ⟨fun he => ?_, congrArg ofTerm⟩
  have hu := toTerm?_ofTerm (t := u) (by rw [he]; exact h)
  rw [he, toTerm?_ofTerm h] at hu
  exact (Option.some.inj hu).symm

end Record
end DualStore
