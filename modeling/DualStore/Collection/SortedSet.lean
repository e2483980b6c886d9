/-! Finite sets as strictly increasing lists. Two sets with the same members are equal
(`SortedSet.ext`), so a set can be compared, printed and iterated without a choice of order. -/

namespace DualStore

/-- A finite set, listed in strictly increasing order. -/
structure SortedSet (α : Type) [Ord α] where
  toList : List α
  sorted : toList.Pairwise fun a b => compare a b = .lt

namespace SortedSet

variable {α : Type} [Ord α]

/-! ## Sorted lists -/

/-- Puts `a` in its place in a sorted list, unless it is there already. -/
def insertList (a : α) : List α → List α
  | [] => [a]
  | b :: l => match compare a b with
    | .lt => a :: b :: l
    | .eq => b :: l
    | .gt => b :: insertList a l

/-- Takes `a` out of a sorted list. -/
def eraseList (a : α) (l : List α) : List α :=
  l.filter fun b => compare a b != .eq

private theorem mem_insertList_imp {a b : α} {l : List α} (h : b ∈ insertList a l) :
    b = a ∨ b ∈ l := by
  induction l with
  | nil => exact .inl (List.mem_singleton.mp h)
  | cons c l ih =>
    rw [insertList] at h
    split at h
    · simpa using h
    · exact .inr h
    · rcases List.mem_cons.mp h with rfl | h
      · exact .inr (List.mem_cons_self)
      · exact (ih h).imp_right (List.mem_cons_of_mem _)

theorem pairwise_insertList [Std.TransOrd α] (a : α) {l : List α}
    (h : l.Pairwise fun a b => compare a b = .lt) :
    (insertList a l).Pairwise fun a b => compare a b = .lt := by
  induction l with
  | nil => simp [insertList]
  | cons b l ih =>
    rw [List.pairwise_cons] at h
    rw [insertList]
    split
    next hlt =>
      refine .cons (fun c hc => ?_) (.cons h.1 h.2)
      rcases List.mem_cons.mp hc with rfl | hc
      · exact hlt
      · exact Std.TransCmp.lt_trans hlt (h.1 c hc)
    next => exact .cons h.1 h.2
    next hgt =>
      refine .cons (fun c hc => ?_) (ih h.2)
      rcases mem_insertList_imp hc with rfl | hc
      · exact Std.OrientedCmp.gt_iff_lt.mp hgt
      · exact h.1 c hc

theorem pairwise_eraseList (a : α) {l : List α}
    (h : l.Pairwise fun a b => compare a b = .lt) :
    (eraseList a l).Pairwise fun a b => compare a b = .lt :=
  h.sublist List.filter_sublist

/-! ## Sets -/

def empty : SortedSet α := ⟨[], .nil⟩

instance : EmptyCollection (SortedSet α) := ⟨empty⟩
instance : Inhabited (SortedSet α) := ⟨empty⟩
instance [DecidableEq α] : DecidableEq (SortedSet α) := fun s t =>
  decidable_of_iff (s.toList = t.toList) (by cases s; cases t; simp)

instance : Membership α (SortedSet α) := ⟨fun s a => a ∈ s.toList⟩

def isEmpty (s : SortedSet α) : Bool := s.toList.isEmpty

def size (s : SortedSet α) : Nat := s.toList.length

def contains (s : SortedSet α) (a : α) : Bool := s.toList.any fun b => compare a b == .eq

/-- The members that satisfy `p`. -/
def filter (p : α → Bool) (s : SortedSet α) : SortedSet α :=
  ⟨s.toList.filter p, s.sorted.sublist List.filter_sublist⟩

/-- The members of `s` that are not members of `t`. -/
def diff (s t : SortedSet α) : SortedSet α := s.filter fun a => !t.contains a

def erase (s : SortedSet α) (a : α) : SortedSet α :=
  ⟨eraseList a s.toList, pairwise_eraseList a s.sorted⟩

/-! ## Membership -/

theorem mem_def {s : SortedSet α} {a : α} : a ∈ s ↔ a ∈ s.toList := .rfl

@[simp] theorem not_mem_empty (a : α) : ¬ a ∈ (empty : SortedSet α) := List.not_mem_nil

@[simp] theorem mem_filter {p : α → Bool} {s : SortedSet α} {a : α} :
    a ∈ s.filter p ↔ a ∈ s ∧ p a = true := List.mem_filter

section
variable [Std.LawfulEqOrd α]

@[simp] theorem contains_iff {s : SortedSet α} {a : α} : s.contains a = true ↔ a ∈ s := by
  simp only [contains, List.any_eq_true, beq_iff_eq, Std.compare_eq_iff_eq, mem_def]
  exact ⟨fun ⟨_, h, e⟩ => e ▸ h, fun h => ⟨a, h, rfl⟩⟩

@[simp] theorem mem_erase {s : SortedSet α} {a b : α} : b ∈ s.erase a ↔ b ≠ a ∧ b ∈ s := by
  simp only [mem_def, erase, eraseList, List.mem_filter, bne_iff_ne, ne_eq,
    Std.compare_eq_iff_eq]
  exact ⟨fun ⟨h, n⟩ => ⟨fun e => n e.symm, h⟩, fun ⟨n, h⟩ => ⟨h, fun e => n e.symm⟩⟩

@[simp] theorem mem_diff {s t : SortedSet α} {a : α} : a ∈ s.diff t ↔ a ∈ s ∧ ¬ a ∈ t := by
  rw [diff, mem_filter, Bool.not_eq_true', ← Bool.not_eq_true, contains_iff]

end

variable [Std.TransOrd α]

def insert (s : SortedSet α) (a : α) : SortedSet α :=
  ⟨insertList a s.toList, pairwise_insertList a s.sorted⟩

def ofList (l : List α) : SortedSet α := l.foldl insert empty

variable [Std.LawfulEqOrd α]

@[simp] theorem mem_insert {s : SortedSet α} {a b : α} : b ∈ s.insert a ↔ b = a ∨ b ∈ s := by
  refine ⟨mem_insertList_imp, ?_⟩
  suffices ∀ l : List α, b = a ∨ b ∈ l → b ∈ insertList a l from this s.toList
  intro l
  induction l with
  | nil => simp [insertList]
  | cons c l ih =>
    intro h
    rw [insertList]
    split
    next => simpa using h
    next he =>
      rcases h with rfl | h
      · exact Std.LawfulEqOrd.eq_of_compare he ▸ List.mem_cons_self
      · exact h
    next =>
      rcases h with rfl | h
      · exact List.mem_cons_of_mem _ (ih (.inl rfl))
      · rcases List.mem_cons.mp h with rfl | h
        · exact List.mem_cons_self
        · exact List.mem_cons_of_mem _ (ih (.inr h))

private theorem mem_foldl_insert {l : List α} {s : SortedSet α} {a : α} :
    a ∈ l.foldl insert s ↔ a ∈ l ∨ a ∈ s := by
  induction l generalizing s with
  | nil => simp
  | cons b l ih => simp only [List.foldl_cons, ih, mem_insert, List.mem_cons, or_assoc, or_left_comm]

@[simp] theorem mem_ofList {l : List α} {a : α} : a ∈ ofList l ↔ a ∈ l := by
  simp [ofList, mem_foldl_insert]

/-- Sets with the same members are the same list. -/
theorem ext {s t : SortedSet α} (h : ∀ a, a ∈ s ↔ a ∈ t) : s = t := by
  have nodup : ∀ u : SortedSet α, u.toList.Nodup := fun u =>
    u.sorted.imp fun {a b} hlt he => by
      subst he
      rw [Std.compare_self] at hlt
      cases hlt
  have hp : s.toList.Perm t.toList := by
    refine (List.perm_ext_iff_of_nodup (nodup s) (nodup t)).mpr fun a => ?_
    exact h a
  have := hp.eq_of_pairwise (fun a b _ _ hab hba => by
    rw [@Std.OrientedCmp.eq_swap _ compare, hba] at hab
    cases hab) s.sorted t.sorted
  cases s; cases t; simpa using this

end SortedSet
end DualStore
