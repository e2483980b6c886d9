/-! Cutting lists of characters at a separator. -/

namespace DualStore.Text

/-- The pieces between separators; one more than there are separators. -/
def pieces (separator : Char) : List Char → List (List Char)
  | [] => [[]]
  | c :: cs => match pieces separator cs with
    | [] => [[c]]
    | p :: ps => if c = separator then [] :: p :: ps else (c :: p) :: ps

/-- What stands before and after the first character that satisfies `p`, which is left out. -/
def splitAt? (p : Char → Bool) : List Char → Option (List Char × List Char)
  | [] => none
  | c :: cs => if p c then some ([], cs)
    else (splitAt? p cs).map fun (before, after) => (c :: before, after)

theorem splitAt?_eq_some {p : Char → Bool} {cs before after : List Char}
    (h : splitAt? p cs = some (before, after)) :
    ∃ c, p c = true ∧ cs = before ++ c :: after ∧ ∀ d ∈ before, p d = false := by
  induction cs generalizing before with
  | nil => simp [splitAt?] at h
  | cons c cs ih =>
    rw [splitAt?] at h
    split at h
    next hc => exact ⟨c, hc, by simp_all⟩
    next hc =>
      obtain ⟨⟨b, a⟩, h, he⟩ := Option.map_eq_some_iff.mp h
      cases he
      obtain ⟨d, hd, hcs, hb⟩ := ih h
      refine ⟨d, hd, by rw [hcs]; rfl, fun x hx => ?_⟩
      rcases List.mem_cons.mp hx with rfl | hx
      · simpa using hc
      · exact hb x hx

/-- Characters at the end do not move the first place to split at. -/
theorem splitAt?_append {p : Char → Bool} {cs before after : List Char}
    (h : splitAt? p cs = some (before, after)) (ds : List Char) :
    splitAt? p (cs ++ ds) = some (before, after ++ ds) := by
  induction cs generalizing before with
  | nil => cases h
  | cons c cs ih =>
    rw [splitAt?] at h
    rw [List.cons_append, splitAt?]
    split at h
    next hc =>
      obtain ⟨rfl, rfl⟩ : [] = before ∧ cs = after := by simpa using h
      rw [if_pos hc]
    next hc =>
      obtain ⟨⟨before', after'⟩, hsplit, hpair⟩ := Option.map_eq_some_iff.mp h
      obtain ⟨rfl, rfl⟩ := Prod.mk.inj hpair
      rw [if_neg hc, ih hsplit]
      rfl

/-- The first place to split at is the one that nothing before it satisfies `p`. -/
theorem splitAt?_append_cons {p : Char → Bool} {before : List Char} {c : Char} (hc : p c = true)
    (h : ∀ d ∈ before, p d = false) (after : List Char) :
    splitAt? p (before ++ c :: after) = some (before, after) := by
  induction before with
  | nil => exact if_pos hc
  | cons d before ih =>
    obtain ⟨hd, h⟩ := List.forall_mem_cons.mp h
    rw [List.cons_append, splitAt?, if_neg (by rw [hd]; exact Bool.false_ne_true), ih h]
    rfl

theorem splitAt?_eq_none_iff {p : Char → Bool} {cs : List Char} :
    splitAt? p cs = none ↔ ∀ c ∈ cs, p c = false := by
  induction cs with
  | nil => simp [splitAt?]
  | cons c cs ih => by_cases h : p c <;> simp [splitAt?, h, ih]

end DualStore.Text
