import DualStore.Collection.SortedMap
import DualStore.Collection.SortedSet
import Mathlib.Data.Finset.Card
import Mathlib.Data.List.Induction
import Mathlib.Data.List.Nodup
import Mathlib.Data.List.Perm.Basic

/-! More about sorted sets and maps, and about lists without repetitions. -/

namespace DualStore

theorem nodup_eraseDups {α : Type} [BEq α] [LawfulBEq α] (l : List α) : l.eraseDups.Nodup := by
  cases l with
  | nil => exact .nil
  | cons a l =>
    rw [List.eraseDups_cons, List.nodup_cons, List.mem_eraseDups, List.mem_filter]
    exact ⟨fun h => by simp at h, nodup_eraseDups _⟩
termination_by l.length
decreasing_by exact Nat.lt_succ_of_le (List.length_filter_le ..)

theorem eraseDups_of_nodup {α : Type} [BEq α] [LawfulBEq α] {l : List α} (h : l.Nodup) :
    l.eraseDups = l := by
  induction l with
  | nil => rfl
  | cons a l ih =>
    obtain ⟨ha, hl⟩ := List.nodup_cons.mp h
    have hfilter : l.filter (fun b => !b == a) = l := by
      refine List.filter_eq_self.mpr fun b hb => ?_
      have hne : b ≠ a := fun he => ha (he ▸ hb)
      rw [beq_false_of_ne hne]
      rfl
    rw [List.eraseDups_cons, hfilter, ih hl]

theorem eraseDups_of_forall_eq {α : Type} [BEq α] [LawfulBEq α] {l : List α} {a : α} (hl : l ≠ [])
    (h : ∀ b ∈ l, b = a) : l.eraseDups = [a] := by
  cases l with
  | nil => exact absurd rfl hl
  | cons b l =>
    obtain ⟨rfl, hrest⟩ := List.forall_mem_cons.mp h
    have hfilter : l.filter (fun c => !c == b) = [] := by
      refine List.filter_eq_nil_iff.mpr fun c hc => ?_
      rw [hrest c hc, beq_self_eq_true]
      exact Bool.false_ne_true
    rw [List.eraseDups_cons, hfilter, List.eraseDups_nil]

theorem eraseDups_concat {α : Type} [DecidableEq α] (l : List α) (a : α) :
    (l ++ [a]).eraseDups = if a ∈ l then l.eraseDups else l.eraseDups ++ [a] := by
  rw [List.eraseDups_append]
  split
  next h =>
    have : [a].removeAll l = [] := by simp [List.removeAll, h]
    rw [this, List.eraseDups_nil, List.append_nil]
  next h =>
    have : [a].removeAll l = [a] := by simp [List.removeAll, h]
    rw [this, List.eraseDups_cons]
    rfl

theorem length_eraseDups {α : Type} [DecidableEq α] (l : List α) :
    l.eraseDups.length = l.toFinset.card := by
  rw [← List.toFinset_card_of_nodup (nodup_eraseDups l)]
  refine congrArg Finset.card (Finset.ext fun a => ?_)
  rw [List.mem_toFinset, List.mem_toFinset, List.mem_eraseDups]

section

variable {α β : Type} [DecidableEq α] [DecidableEq β] {f : α → β} {l : List α}

theorem length_eraseDups_map :
    (l.map f).eraseDups.length = (l.toFinset.image f).card := by
  rw [length_eraseDups]
  refine congrArg Finset.card (Finset.ext fun b => ?_)
  rw [List.mem_toFinset, List.mem_map, Finset.mem_image]
  simp only [List.mem_toFinset]

theorem length_eraseDups_map_le : (l.map f).eraseDups.length ≤ l.eraseDups.length := by
  rw [length_eraseDups_map, length_eraseDups]
  exact Finset.card_image_le

/-- A list has as many values under `f` as members exactly if `f` tells its members apart. -/
theorem length_eraseDups_map_eq_iff : (l.map f).eraseDups.length = l.eraseDups.length ↔
    ∀ a ∈ l, ∀ b ∈ l, f a = f b → a = b := by
  rw [length_eraseDups_map, length_eraseDups, Finset.card_image_iff]
  simp only [Set.InjOn, Finset.mem_coe, List.mem_toFinset]

end

theorem lookup_cons_eq {α β : Type} [DecidableEq α] (a : α) (e : α × β) (l : List (α × β)) :
    (e :: l).lookup a = if a = e.1 then some e.2 else l.lookup a := by
  obtain ⟨k, b⟩ := e
  by_cases h : a = k
  · rw [if_pos h, h, List.lookup_cons_self]
  · have hbeq : (a == k) = false := beq_false_of_ne h
    rw [if_neg h, List.lookup_cons, hbeq]

theorem lookup_eq_some_iff {α β : Type} [DecidableEq α] {l : List (α × β)} {a : α} {b : β}
    (h : (l.map (·.1)).Nodup) : l.lookup a = some b ↔ (a, b) ∈ l := by
  induction l with
  | nil => exact iff_of_false nofun List.not_mem_nil
  | cons e l ih =>
    obtain ⟨he, hl⟩ := List.nodup_cons.mp h
    rw [lookup_cons_eq, List.mem_cons]
    split
    next hae =>
      have hnot : (a, b) ∉ l := fun hmem => he (List.mem_map.mpr ⟨(a, b), hmem, hae⟩)
      rw [Option.some.injEq, or_iff_left hnot, Prod.ext_iff]
      exact ⟨fun hb => ⟨hae, hb.symm⟩, fun hb => hb.2.symm⟩
    next hae => rw [or_iff_right (fun heq => hae (congrArg Prod.fst heq)), ih hl]

theorem lookup_map_self {α β : Type} [DecidableEq α] (f : α → β) (l : List α) (a : α) :
    (l.map fun b => (b, f b)).lookup a = if a ∈ l then some (f a) else none := by
  induction l with
  | nil => rfl
  | cons b l ih =>
    rw [List.map_cons, lookup_cons_eq, ih]
    by_cases hab : a = b
    · rw [if_pos hab, hab, if_pos List.mem_cons_self]
    · have hmem : a ∈ b :: l ↔ a ∈ l := by rw [List.mem_cons, or_iff_right hab]
      simp only [hab, if_false, hmem]

/-- If only one member of a list gives anything, all that the list gives comes from it. -/
theorem flatMap_eq_of_unique {α β : Type} {f : α → List β} {l : List α} {a : α} (hl : l.Nodup)
    (ha : a ∈ l) (h : ∀ b ∈ l, b ≠ a → f b = []) : l.flatMap f = f a := by
  obtain ⟨before, after, rfl⟩ := List.append_of_mem ha
  obtain ⟨hafter, hbefore⟩ : a ∉ after ∧ a ∉ before := by
    obtain ⟨-, hcons, hdisjoint⟩ := List.nodup_append.mp hl
    exact ⟨(List.nodup_cons.mp hcons).1, fun hmem => hdisjoint a hmem a List.mem_cons_self rfl⟩
  have hbefore : before.flatMap f = [] := List.flatMap_eq_nil_iff.mpr fun b hb =>
    h b (List.mem_append_left _ hb) fun he => hbefore (he ▸ hb)
  have hafter : after.flatMap f = [] := List.flatMap_eq_nil_iff.mpr fun b hb =>
    h b (List.mem_append_right _ (List.mem_cons_of_mem _ hb)) fun he => hafter (he ▸ hb)
  rw [List.flatMap_append, List.flatMap_cons, hbefore, hafter, List.nil_append, List.append_nil]

/-- Lists that hold the same of what `f` uses give the same. -/
theorem filterMap_perm_of_nodup {α β : Type} {f : α → Option β} {l l' : List α} (hl : l.Nodup)
    (hl' : l'.Nodup) (h : ∀ a, (f a).isSome = true → (a ∈ l ↔ a ∈ l')) :
    (l.filterMap f).Perm (l'.filterMap f) := by
  have hused : ∀ l : List α, l.filterMap f = (l.filter fun a => (f a).isSome).filterMap f := by
    intro l
    rw [List.filterMap_filter]
    refine congrArg (List.filterMap · l) (funext fun a => ?_)
    cases f a <;> rfl
  rw [hused l, hused l']
  refine List.Perm.filterMap f <|
    (List.perm_ext_iff_of_nodup (hl.filter _) (hl'.filter _)).mpr fun a => ?_
  rw [List.mem_filter, List.mem_filter]
  exact and_congr_left fun ha => h a ha

/-- The order in which two lists are paired does not matter. -/
theorem flatMap_filterMap_comm {α β γ : Type} (f : α → β → Option γ) (l : List α) (m : List β) :
    (l.flatMap fun a => m.filterMap (f a)).Perm (m.flatMap fun b => l.filterMap (f · b)) := by
  induction l with
  | nil => simp
  | cons a l ih =>
    have hsplit : (m.flatMap fun b => (a :: l).filterMap (f · b)) =
        m.flatMap fun b => (f a b).toList ++ l.filterMap (f · b) := by
      simp only [List.filterMap_eq_flatMap_toList, List.flatMap_cons]
    rw [hsplit, List.flatMap_cons, List.filterMap_eq_flatMap_toList]
    exact (ih.append_left _).trans (List.flatMap_append_perm m _ _)

namespace SortedSet

variable {α : Type} [Ord α] {s t : SortedSet α} {a : α}

theorem mem_toList : a ∈ s.toList ↔ a ∈ s := .rfl

/-- Both sets hold the same of what satisfies `p`. -/
def AgreeOn (p : α → Bool) (s t : SortedSet α) : Prop := ∀ a, p a = true → (a ∈ s ↔ a ∈ t)

theorem AgreeOn.refl (p : α → Bool) (s : SortedSet α) : s.AgreeOn p s := fun _ _ => .rfl

theorem AgreeOn.mono {p p' : α → Bool} (h : s.AgreeOn p t) (hp : ∀ a, p' a = true → p a = true) :
    s.AgreeOn p' t := fun a ha => h a (hp a ha)

/-- Sets agree where they hold the same of what either holds. -/
instance [Std.LawfulEqOrd α] (p : α → Bool) (s t : SortedSet α) : Decidable (s.AgreeOn p t) :=
  decidable_of_iff (∀ a ∈ (s.diff t).toList ++ (t.diff s).toList, p a = false) <| by
    simp only [List.mem_append, mem_toList, mem_diff, AgreeOn]
    refine forall_congr' fun a => ?_
    cases p a <;> simp only [reduceCtorEq, false_implies, implies_true, true_implies, imp_false]
    tauto

variable [Std.TransOrd α]

theorem nodup (s : SortedSet α) : s.toList.Nodup :=
  s.sorted.imp fun {a b} hlt he => by
    subst he
    rw [Std.compare_self] at hlt
    cases hlt

end SortedSet

namespace SortedMap

variable {α β : Type} [Ord α] {m : SortedMap α β} {k : α} {v : β}

theorem contains_iff : m.contains k = true ↔ ∃ v, m.get? k = some v := Option.isSome_iff_exists

theorem contains_eq_false_iff : m.contains k = false ↔ m.get? k = none :=
  Option.isSome_eq_false_iff.trans Option.isNone_iff_eq_none

variable [Std.LawfulEqOrd α]

theorem nodup_keys (m : SortedMap α β) : m.keys.Nodup :=
  List.pairwise_map.mpr <| m.sorted.imp fun {a b} hlt he => by
    rw [he, Std.compare_self] at hlt
    cases hlt

variable [Std.TransOrd α]

theorem get?_filter (p : α → β → Bool) : (m.filter p).get? k = (m.get? k).filter (p k) := by
  ext v
  rw [Option.filter_eq_some_iff]
  simp [filter]

theorem mem_keys : k ∈ m.keys ↔ ∃ v, m.get? k = some v := by
  simp [keys]

theorem mem_values : v ∈ m.values ↔ ∃ k, m.get? k = some v := by
  simp [values]

/-- No key is above the last one. -/
theorem eq_or_lt_getLast {last : α} (hlast : m.keys.getLast? = some last) (hk : m.get? k = some v) :
    k = last ∨ compare k last = .lt := by
  have hsorted : m.keys.Pairwise fun a b => compare a b = .lt := List.pairwise_map.mpr m.sorted
  have hmem : k ∈ m.keys := mem_keys.mpr ⟨v, hk⟩
  obtain ⟨ks, hks⟩ := List.getLast?_eq_some_iff.mp hlast
  rw [hks] at hsorted hmem
  rcases List.mem_append.mp hmem with hmem | hmem
  · exact .inr ((List.pairwise_append.mp hsorted).2.2 k hmem last List.mem_cons_self)
  · exact .inl (List.mem_singleton.mp hmem)

/-- Of several entries with one key, the last is found. -/
theorem get?_ofList [DecidableEq α] (l : List (α × β)) (k : α) :
    (ofList l).get? k = l.reverse.lookup k := by
  induction l using List.reverseRecOn with
  | nil => rfl
  | append_singleton l e ih =>
    rw [ofList, List.foldl_append, List.reverse_append]
    change ((ofList l).insert e.1 e.2).get? k = (e :: l.reverse).lookup k
    rw [get?_insert, lookup_cons_eq, ih]

/-- The entries of a map give its look-ups. -/
theorem lookup_reverse_toList [DecidableEq α] (m : SortedMap α β) (k : α) :
    m.toList.reverse.lookup k = m.get? k := by
  have hnodup : (m.toList.reverse.map (·.1)).Nodup := by
    rw [List.map_reverse, List.nodup_reverse]
    exact m.nodup_keys
  ext v
  rw [lookup_eq_some_iff hnodup, List.mem_reverse, get?_eq_some_iff]

theorem size_insert (hk : m.get? k = none) (v : β) : (m.insert k v).size = m.size + 1 := by
  suffices ∀ l : List (α × β), (∀ e ∈ l, e.1 ≠ k) → (insertList k v l).length = l.length + 1 by
    refine this m.toList fun e he hek => ?_
    subst hek
    rw [get?_eq_some_iff.mpr he] at hk
    cases hk
  intro l
  induction l with
  | nil => exact fun _ => rfl
  | cons e l ih =>
    intro hne
    rw [insertList]
    split
    next => rfl
    next heq => exact absurd (Std.LawfulEqOrd.eq_of_compare heq).symm (hne e List.mem_cons_self)
    next =>
      rw [List.length_cons, List.length_cons,
        ih fun e' he' => hne e' (List.mem_cons_of_mem _ he')]

end SortedMap
end DualStore
