/-! Finite maps as lists of entries with strictly increasing keys. Iteration follows the order of
the keys, and maps with the same look-ups are equal (`SortedMap.ext`). -/

namespace DualStore

/-- A finite map, listed by strictly increasing key. -/
structure SortedMap (α β : Type) [Ord α] where
  toList : List (α × β)
  sorted : toList.Pairwise fun a b => compare a.1 b.1 = .lt

namespace SortedMap

variable {α β : Type} [Ord α]

/-! ## Sorted entry lists -/

/-- Binds `k` to `v` in a sorted entry list, in place of what it was bound to. -/
def insertList (k : α) (v : β) : List (α × β) → List (α × β)
  | [] => [(k, v)]
  | e :: l => match compare k e.1 with
    | .lt => (k, v) :: e :: l
    | .eq => (k, v) :: l
    | .gt => e :: insertList k v l

private theorem mem_insertList {k : α} {v : β} {e : α × β} {l : List (α × β)}
    (h : e ∈ insertList k v l) : e = (k, v) ∨ e ∈ l := by
  induction l with
  | nil => exact .inl (List.mem_singleton.mp h)
  | cons c l ih =>
    rw [insertList] at h
    split at h
    · simpa using h
    · rcases List.mem_cons.mp h with rfl | h
      · exact .inl rfl
      · exact .inr (List.mem_cons_of_mem _ h)
    · rcases List.mem_cons.mp h with rfl | h
      · exact .inr List.mem_cons_self
      · exact (ih h).imp_right (List.mem_cons_of_mem _)

theorem pairwise_insertList [Std.TransOrd α] (k : α) (v : β) {l : List (α × β)}
    (h : l.Pairwise fun a b => compare a.1 b.1 = .lt) :
    (insertList k v l).Pairwise fun a b => compare a.1 b.1 = .lt := by
  induction l with
  | nil => simp [insertList]
  | cons e l ih =>
    rw [List.pairwise_cons] at h
    rw [insertList]
    split
    next hlt =>
      refine .cons (fun c hc => ?_) (.cons h.1 h.2)
      rcases List.mem_cons.mp hc with rfl | hc
      · exact hlt
      · exact Std.TransCmp.lt_trans hlt (h.1 c hc)
    next heq => exact .cons (fun c hc => Std.TransCmp.lt_of_eq_of_lt heq (h.1 c hc)) h.2
    next hgt =>
      refine .cons (fun c hc => ?_) (ih h.2)
      rcases mem_insertList hc with rfl | hc
      · exact Std.OrientedCmp.gt_iff_lt.mp hgt
      · exact h.1 c hc

/-! ## Maps -/

def empty : SortedMap α β := ⟨[], .nil⟩

instance : EmptyCollection (SortedMap α β) := ⟨empty⟩
instance : Inhabited (SortedMap α β) := ⟨empty⟩
instance [DecidableEq α] [DecidableEq β] : DecidableEq (SortedMap α β) := fun s t =>
  decidable_of_iff (s.toList = t.toList) (by cases s; cases t; simp)

def isEmpty (m : SortedMap α β) : Bool := m.toList.isEmpty

def size (m : SortedMap α β) : Nat := m.toList.length

def get? (m : SortedMap α β) (k : α) : Option β :=
  (m.toList.find? fun e => compare k e.1 == .eq).map (·.2)

def contains (m : SortedMap α β) (k : α) : Bool := (m.get? k).isSome

def keys (m : SortedMap α β) : List α := m.toList.map (·.1)

def values (m : SortedMap α β) : List β := m.toList.map (·.2)

/-- The entries that satisfy `p`. -/
def filter (p : α → β → Bool) (m : SortedMap α β) : SortedMap α β :=
  ⟨m.toList.filter fun e => p e.1 e.2, m.sorted.sublist List.filter_sublist⟩

def erase (m : SortedMap α β) (k : α) : SortedMap α β := m.filter fun a _ => compare k a != .eq

/-- Changes every value, key by key. -/
def map {γ : Type} (f : β → γ) (m : SortedMap α β) : SortedMap α γ :=
  ⟨m.toList.map fun e => (e.1, f e.2), List.pairwise_map.mpr m.sorted⟩

/-! ## Look-up -/

@[simp] theorem get?_map {γ : Type} (f : β → γ) (m : SortedMap α β) (k : α) :
    (m.map f).get? k = (m.get? k).map f := by
  simp only [get?, map, List.find?_map, Function.comp_def, Option.map_map]

@[simp] theorem get?_eq_some_iff [Std.TransOrd α] [Std.LawfulEqOrd α] {m : SortedMap α β} {k : α}
    {v : β} : m.get? k = some v ↔ (k, v) ∈ m.toList := by
  obtain ⟨l, h⟩ := m
  simp only [get?]
  induction l with
  | nil => simp
  | cons e l ih =>
    rw [List.pairwise_cons] at h
    by_cases he : k = e.1
    · subst he
      simp only [List.find?_cons, Std.compare_self, beq_self_eq_true, Option.map_some,
        Option.some.injEq, List.mem_cons]
      refine ⟨fun hv => .inl (hv ▸ rfl), fun hv => ?_⟩
      rcases hv with hv | hv
      · rw [← hv]
      · have := h.1 _ hv
        simp at this
    · have : ¬ (k, v) = e := fun h => he (h ▸ rfl)
      simp [he, this, ih h.2]

theorem get?_erase [Std.TransOrd α] [Std.LawfulEqOrd α] [DecidableEq α] (m : SortedMap α β)
    (k a : α) : (m.erase k).get? a = if a = k then none else m.get? a := by
  ext v
  by_cases h : a = k
  · subst h
    simp [erase, filter]
  · simpa [erase, filter, h] using fun _ => Ne.symm h

/-- Maps with the same look-ups are the same list. -/
theorem ext [Std.TransOrd α] [Std.LawfulEqOrd α] {m n : SortedMap α β}
    (h : ∀ k, m.get? k = n.get? k) : m = n := by
  have nodup : ∀ u : SortedMap α β, u.toList.Nodup := fun u =>
    u.sorted.imp fun {a b} hlt he => by
      subst he
      rw [Std.compare_self] at hlt
      cases hlt
  have hp : m.toList.Perm n.toList := by
    refine (List.perm_ext_iff_of_nodup (nodup m) (nodup n)).mpr fun e => ?_
    rw [← get?_eq_some_iff (m := m), ← get?_eq_some_iff (m := n), h]
  have := hp.eq_of_pairwise (fun a b _ _ hab hba => by
    rw [@Std.OrientedCmp.eq_swap _ compare, hba] at hab
    cases hab) m.sorted n.sorted
  cases m; cases n; simpa using this

/-! ## Binding -/

variable [Std.TransOrd α]

def insert (m : SortedMap α β) (k : α) (v : β) : SortedMap α β :=
  ⟨insertList k v m.toList, pairwise_insertList k v m.sorted⟩

/-- Of several entries with one key, the last counts. -/
def ofList (l : List (α × β)) : SortedMap α β := l.foldl (fun m e => m.insert e.1 e.2) empty

theorem get?_insert [Std.LawfulEqOrd α] [DecidableEq α] (m : SortedMap α β) (k a : α) (v : β) :
    (m.insert k v).get? a = if a = k then some v else m.get? a := by
  suffices ∀ l : List (α × β),
      ((insertList k v l).find? fun e => compare a e.1 == .eq).map (·.2) =
        if a = k then some v else (l.find? fun e => compare a e.1 == .eq).map (·.2) from
    this m.toList
  intro l
  induction l with
  | nil => by_cases h : a = k <;> simp [insertList, h]
  | cons e l ih =>
    rw [insertList]
    split
    next => by_cases h : a = k <;> simp [List.find?_cons, h]
    next he =>
      have he := Std.LawfulEqOrd.eq_of_compare he
      by_cases h : a = k <;> simp [h, ← he]
    next hgt =>
      by_cases h : a = e.1
      · have : ¬ a = k := by
          rintro rfl
          simp [h] at hgt
        simp [h]
        intro h'
        simp_all
      · simp [h, ih]

end SortedMap
end DualStore
