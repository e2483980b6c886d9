import DualStore.Proofs.StoreCalls
import Mathlib.Data.Set.List

/-! The graphs of a store. Keys that list the graph first sort by its number, so a walk which passes
over the rest of each graph's keys meets every graph once (`Store.IsWalk.mem_graphNumbers`,
`Store.IsWalk.pairwise_graphNumbers`). A search that looks anew for the next graph each time ends,
and finds the same (`Store.IsWalk.search_iff`). A store lists just the graphs that hold a quad
(`Store.Valid.listsGraphs`). -/

namespace DualStore

/-! ## Keys that list the graph first -/

namespace KeyOrder

variable {q q' : IdQuad}

/-- A key that lists the graph first is the number of the graph and the rest. -/
theorem encode_gspo (q : IdQuad) : ∃ rest, rest ≠ [] ∧
    gspo.encode q = Bytes.ofWord q.graph ++ rest := by
  refine ⟨Bytes.ofWord q.subject ++ (Bytes.ofWord q.predicate ++ Bytes.ofWord q.object), ?_, ?_⟩
  · intro h
    have := congrArg List.length h
    simp at this
  · simp [encode, positions, IdQuad.get]

theorem take_encode_gspo (q : IdQuad) : Bytes.toWord ((gspo.encode q).take 8) = q.graph := by
  obtain ⟨rest, -, hkey⟩ := encode_gspo q
  rw [hkey, List.take_left' (Bytes.length_ofWord _), Bytes.toWord_ofWord]

/-- A key is below the start of a number's keys just when its graph has a smaller number. -/
theorem compare_encode_gspo_ofWord (q : IdQuad) (n : TermId) :
    compare (gspo.encode q) (Bytes.ofWord n) = .lt ↔ q.graph < n := by
  obtain ⟨rest, hrest, hkey⟩ := encode_gspo q
  obtain ⟨b, rest, rfl⟩ := List.exists_cons_of_ne_nil hrest
  rw [hkey, ← List.append_nil (Bytes.ofWord n),
    Bytes.compare_append (by rw [Bytes.length_ofWord, Bytes.length_ofWord]), Bytes.compare_ofWord,
    List.compare_cons_nil, Ordering.then_eq_lt, Std.compare_eq_lt]
  simp

/-- Keys sort by the number of the graph first. -/
theorem graph_le_of_compare_encode (h : compare (gspo.encode q) (gspo.encode q') = .lt) :
    q.graph ≤ q'.graph := by
  rw [compare_encode] at h
  have h : compare (q.graph :: _) (q'.graph :: _) = .lt := h
  rw [List.compare_cons_cons, Ordering.then_eq_lt] at h
  rcases h with hlt | ⟨heq, -⟩
  · exact UInt64.le_of_lt (Std.compare_eq_lt.mp hlt)
  · exact UInt64.le_of_eq (Std.LawfulEqOrd.eq_of_compare heq)

end KeyOrder

/-! ## Walks -/

namespace Store

variable {keys : List Bytes} {n id : TermId}

/-- Keys of quads in order. -/
structure IsWalk (keys : List Bytes) : Prop where
  encoded : ∀ key ∈ keys, ∃ q, key = KeyOrder.gspo.encode q
  sorted : keys.Pairwise fun a b => compare a b = .lt

theorem IsWalk.tail {key : Bytes} (h : IsWalk (key :: keys)) : IsWalk keys :=
  ⟨fun key' hkey' => h.encoded key' (List.mem_cons_of_mem _ hkey'),
    (List.pairwise_cons.mp h.sorted).2⟩

/-- No key after the first has a graph with a smaller number. -/
theorem IsWalk.graph_le {q q' : IdQuad} (h : IsWalk (KeyOrder.gspo.encode q :: keys))
    (hq' : KeyOrder.gspo.encode q' ∈ keys) : q.graph ≤ q'.graph :=
  KeyOrder.graph_le_of_compare_encode ((List.pairwise_cons.mp h.sorted).1 _ hq')

private theorem succ_le_iff {m n : TermId} (h : m.toNat + 1 < UInt64.size) :
    m + 1 ≤ n ↔ m < n := by
  have hsucc : (m + 1).toNat = m.toNat + 1 := by
    rw [UInt64.toNat_add]
    exact Nat.mod_eq_of_lt h
  rw [UInt64.le_iff_toNat_le, UInt64.lt_iff_toNat_lt, hsucc]
  exact Iff.rfl

/-- A walk from a number on meets the graphs that have this number or a greater one. -/
theorem IsWalk.mem_graphNumbers (h : IsWalk keys) : id ∈ graphNumbers (Bytes.ofWord n) keys ↔
    n ≤ id ∧ ∃ q, KeyOrder.gspo.encode q ∈ keys ∧ q.graph = id := by
  induction keys generalizing n with
  | nil => exact iff_of_false List.not_mem_nil fun ⟨_, _, hq, _⟩ => nomatch hq
  | cons key keys ih =>
    obtain ⟨q, rfl⟩ := h.encoded key List.mem_cons_self
    have hmem : (∃ q', KeyOrder.gspo.encode q' ∈ KeyOrder.gspo.encode q :: keys ∧ q'.graph = id) ↔
        q.graph = id ∨ ∃ q', KeyOrder.gspo.encode q' ∈ keys ∧ q'.graph = id := by
      simp only [List.mem_cons, KeyOrder.encode_inj_iff, or_and_right, exists_or, exists_eq_left]
    rw [graphNumbers, hmem, KeyOrder.take_encode_gspo]
    simp only [KeyOrder.compare_encode_gspo_ofWord]
    split
    next hlt =>
      rw [ih h.tail]
      refine and_congr_right fun hn => (or_iff_right ?_).symm
      rintro rfl
      exact absurd hlt (UInt64.not_lt.mpr hn)
    next hle =>
      have hle := UInt64.not_lt.mp hle
      -- what is left of the walk: the graphs with a greater number
      have hrest : id ∈ (if q.graph.toNat + 1 < UInt64.size then
          graphNumbers (Bytes.ofWord (q.graph + 1)) keys else []) ↔
            q.graph < id ∧ ∃ q', KeyOrder.gspo.encode q' ∈ keys ∧ q'.graph = id := by
        split
        next hsize => rw [ih h.tail, succ_le_iff hsize]
        next hsize =>
          refine iff_of_false List.not_mem_nil fun ⟨hlt, _⟩ => hsize ?_
          exact Nat.lt_of_le_of_lt (UInt64.lt_iff_toNat_lt.mp hlt) id.toNat_lt
      rw [List.mem_cons, hrest]
      constructor
      · rintro (rfl | ⟨hlt, hex⟩)
        · exact ⟨hle, .inl rfl⟩
        · exact ⟨UInt64.le_trans hle (UInt64.le_of_lt hlt), .inr hex⟩
      · rintro ⟨-, rfl | ⟨q', hq', rfl⟩⟩
        · exact .inl rfl
        · rcases UInt64.lt_or_eq_of_le (h.graph_le hq') with hlt | heq
          · exact .inr ⟨hlt, q', hq', rfl⟩
          · exact .inl heq.symm

/-- A walk meets every graph once, in the order of their numbers. -/
theorem IsWalk.pairwise_graphNumbers (h : IsWalk keys) :
    (graphNumbers (Bytes.ofWord n) keys).Pairwise (· < ·) := by
  induction keys generalizing n with
  | nil => exact .nil
  | cons key keys ih =>
    rw [graphNumbers]
    split
    next => exact ih h.tail
    next =>
      dsimp only
      split
      next hsize =>
        refine .cons (fun id hid => ?_) (ih h.tail)
        exact (succ_le_iff hsize).mp (h.tail.mem_graphNumbers.mp hid).1
      next => exact List.pairwise_singleton ..

/-! ## Searches -/

/-- The first key that is not below a start. -/
def firstFrom? (keys : List Bytes) (start : Bytes) : Option Bytes :=
  keys.find? fun key => compare key start != .lt

/-- What is found from a start on. The first key from there tells the next graph, and the search
goes on at the start of the next number's keys, unless the number is the greatest one. -/
inductive Search (keys : List Bytes) : Bytes → List TermId → Prop where
  | ended {start : Bytes} (h : firstFrom? keys start = none) : Search keys start []
  | last {start key : Bytes} (h : firstFrom? keys start = some key)
    (hlast : ¬ (Bytes.toWord (key.take 8)).toNat + 1 < UInt64.size) :
    Search keys start [Bytes.toWord (key.take 8)]
  | next {start key : Bytes} {ids : List TermId} (h : firstFrom? keys start = some key)
    (hnext : (Bytes.toWord (key.take 8)).toNat + 1 < UInt64.size)
    (hmore : Search keys (Bytes.ofWord (Bytes.toWord (key.take 8) + 1)) ids) :
    Search keys start (Bytes.toWord (key.take 8) :: ids)

variable {passed more : List Bytes} {start : Bytes} {ids ids' : List TermId}

theorem Search.unique (h : Search keys start ids) (h' : Search keys start ids') : ids = ids' := by
  induction h generalizing ids' with
  | ended h =>
    cases h' with
    | ended => rfl
    | last h₁ | next h₁ => cases h.symm.trans h₁
  | last h hlast =>
    cases h' with
    | ended h₁ => cases h.symm.trans h₁
    | last h₁ => cases h.symm.trans h₁; rfl
    | next h₁ hnext => cases h.symm.trans h₁; exact absurd hnext hlast
  | next h hnext _ ih =>
    cases h' with
    | ended h₁ => cases h.symm.trans h₁
    | last h₁ hlast => cases h.symm.trans h₁; exact absurd hnext hlast
    | next h₁ _ hmore => cases h.symm.trans h₁; rw [ih hmore]

theorem firstFrom?_append (hpassed : ∀ key ∈ passed, compare key start = .lt) :
    firstFrom? (passed ++ more) start = firstFrom? more start := by
  have hnone : passed.find? (fun key => compare key start != .lt) = none := by
    refine List.find?_eq_none.mpr fun key hkey => ?_
    rw [hpassed key hkey]
    decide
  rw [firstFrom?, List.find?_append, hnone]
  rfl

/-- A walk over what is left, when all keys before are below the start. -/
theorem IsWalk.search_append (h : IsWalk (passed ++ more))
    (hpassed : ∀ key ∈ passed, compare key start = .lt) :
    Search (passed ++ more) start (graphNumbers start more) := by
  induction more generalizing passed start with
  | nil => exact .ended (firstFrom?_append hpassed)
  | cons key more ih =>
    have hassoc : passed ++ key :: more = (passed ++ [key]) ++ more := by
      rw [List.append_assoc, List.singleton_append]
    rw [graphNumbers]
    split
    next hlt =>
      rw [hassoc] at h ⊢
      refine ih h fun key' hkey' => ?_
      rcases List.mem_append.mp hkey' with hkey' | hkey'
      · exact hpassed key' hkey'
      · exact List.mem_singleton.mp hkey' ▸ hlt
    next hle =>
      have hfirst : firstFrom? (passed ++ key :: more) start = some key := by
        rw [firstFrom?_append hpassed, firstFrom?, List.find?_cons_of_pos]
        exact bne_iff_ne.mpr hle
      dsimp only
      split
      next hsize =>
        refine .next hfirst hsize ?_
        obtain ⟨q, rfl⟩ := h.encoded key (List.mem_append_right _ List.mem_cons_self)
        rw [KeyOrder.take_encode_gspo] at hsize ⊢
        -- this key and, in order, all before it are below the start of the next number's keys
        have hbelow : compare (KeyOrder.gspo.encode q) (Bytes.ofWord (q.graph + 1)) = .lt :=
          (KeyOrder.compare_encode_gspo_ofWord q _).mpr ((succ_le_iff hsize).mp UInt64.le_rfl)
        have hsorted := (List.pairwise_append.mp h.sorted).2.2
        rw [hassoc] at h ⊢
        refine ih h fun key' hkey' => ?_
        rcases List.mem_append.mp hkey' with hkey' | hkey'
        · exact Std.TransCmp.lt_trans (hsorted key' hkey' _ List.mem_cons_self) hbelow
        · exact List.mem_singleton.mp hkey' ▸ hbelow
      next hsize => exact .last hfirst hsize

/-- A search ends, with what a walk over all keys finds. -/
theorem IsWalk.search_iff (h : IsWalk keys) :
    Search keys start ids ↔ ids = graphNumbers start keys := by
  have hsearch : Search ([] ++ keys) start (graphNumbers start keys) :=
    IsWalk.search_append h (List.forall_mem_nil _)
  exact ⟨fun h' => h'.unique hsearch, fun he => he ▸ hsearch⟩

/-- The greatest number is met once, and nothing is looked for after it. -/
example :
    let greatest : TermId := UInt64.ofNat (2 ^ 64 - 1)
    graphNumbers (Bytes.ofWord 0) ([⟨7, 8, 9, 0⟩, ⟨1, 2, 3, 5⟩, ⟨1, 2, 3, greatest⟩,
      ⟨1, 2, 4, greatest⟩].map KeyOrder.gspo.encode) = [0, 5, greatest] := by
  decide +kernel

/-! ## Lists -/

/-- Terms as they are listed from keys. A search of the keys ends, and what it finds are the numbers
of these terms, in increasing order. No term has two numbers. The terms are the graphs that hold a
quad, each of them once. -/
structure ListsGraphs {ε : Type} (keys : List Bytes) (resolve : TermId → Except ε Term)
    (content : Set Quad) (ts : List Term) : Prop where
  search : ∃ ids, Search keys (Bytes.ofWord 0) ids ∧ ids.Pairwise (· < ·) ∧
    ids.map resolve = ts.map .ok
  number : ∀ id id' t, resolve id = .ok t → resolve id' = .ok t → id = id'
  once : ts.Nodup
  mem : ∀ t, t ∈ ts ↔ ∃ q ∈ content, q.graph = t

section
variable {all : SortedSet Bytes} {Holds : IdQuad → Prop} {ε : Type}
  {resolve : TermId → Except ε Term} {content : Set Quad}

theorem isWalk_of_keys (h : ∀ key, key ∈ all ↔ ∃ ids, Holds ids ∧ key = KeyOrder.gspo.encode ids) :
    IsWalk all.toList :=
  ⟨fun key hkey => ((h key).mp hkey).imp fun _ => And.right, all.sorted⟩

/-- The numbers of the graphs that hold a quad. -/
theorem mem_graphNumbers_of_keys
    (h : ∀ key, key ∈ all ↔ ∃ ids, Holds ids ∧ key = KeyOrder.gspo.encode ids) :
    id ∈ graphNumbers (Bytes.ofWord 0) all.toList ↔ ∃ ids, Holds ids ∧ ids.graph = id := by
  simp only [(isWalk_of_keys h).mem_graphNumbers, and_iff_right UInt64.zero_le,
    SortedSet.mem_toList, h, KeyOrder.encode_inj_iff, exists_eq_right']

/-- The graphs of quads are listed from the keys of these. -/
theorem listsGraphs_of_keys
    (h : ∀ key, key ∈ all ↔ ∃ ids, Holds ids ∧ key = KeyOrder.gspo.encode ids)
    (hnumber : ∀ id id' t, resolve id = .ok t → resolve id' = .ok t → id = id')
    (hquad : ∀ ids, Holds ids → ∃ q ∈ content, resolve ids.graph = .ok q.graph)
    (hheld : ∀ q ∈ content, ∃ ids, Holds ids ∧ resolve ids.graph = .ok q.graph) :
    ∃ ts, (graphNumbers (Bytes.ofWord 0) all.toList).map resolve = ts.map .ok ∧
      ListsGraphs all.toList resolve content ts := by
  have hresolve : ∀ id ∈ graphNumbers (Bytes.ofWord 0) all.toList,
      ∃ q ∈ content, resolve id = .ok q.graph := fun id hid => by
    obtain ⟨ids, hids, rfl⟩ := (mem_graphNumbers_of_keys h).mp hid
    exact hquad ids hids
  have hrange : (graphNumbers (Bytes.ofWord 0) all.toList).map resolve ∈
      Set.range (List.map Except.ok) := by
    rw [Set.range_list_map]
    refine List.forall_mem_map.mpr fun id hid => ?_
    obtain ⟨q, -, hq⟩ := hresolve id hid
    exact ⟨_, hq.symm⟩
  obtain ⟨ts, hts⟩ := hrange
  have hwalk := isWalk_of_keys h
  have hsorted := hwalk.pairwise_graphNumbers (n := 0)
  have hnodup : ((graphNumbers (Bytes.ofWord 0) all.toList).map resolve).Nodup := by
    refine List.Nodup.map_on (fun id hid id' _ he => ?_) (hsorted.imp UInt64.ne_of_lt)
    obtain ⟨q, -, hq⟩ := hresolve id hid
    exact hnumber _ _ _ hq (he ▸ hq)
  refine ⟨ts, hts.symm, ⟨_, hwalk.search_iff.mpr rfl, hsorted, hts.symm⟩, hnumber, ?_, fun t => ?_⟩
  · rw [← hts] at hnodup
    exact hnodup.of_map
  · rw [← List.mem_map_of_injective fun _ _ => Except.ok.inj, hts, List.mem_map]
    constructor
    · rintro ⟨id, hid, ht⟩
      obtain ⟨q, hq, hgraph⟩ := hresolve id hid
      exact ⟨q, hq, Except.ok.inj (hgraph.symm.trans ht)⟩
    · rintro ⟨q, hq, rfl⟩
      obtain ⟨ids, hids, hgraph⟩ := hheld q hq
      exact ⟨_, (mem_graphNumbers_of_keys h).mpr ⟨ids, hids, rfl⟩, hgraph⟩

end

/-! ## Stores -/

variable {s : Store}

/-- The numbers of the graphs that hold a quad. -/
theorem Valid.mem_graphNumbers (h : s.Valid) :
    id ∈ graphNumbers (Bytes.ofWord 0) s.gspo.toList ↔ ∃ ids, s.Holds ids ∧ ids.graph = id :=
  mem_graphNumbers_of_keys (h.keys .gspo)

/-- Just the graphs that hold a quad are listed, in the order of their numbers. -/
theorem Valid.listsGraphs (h : s.Valid) (hf : s.Fits) :
    ListsGraphs s.gspo.toList s.resolve s.content s.graphs := by
  have hnumber : ∀ id id' t, s.resolve id = .ok t → s.resolve id' = .ok t → id = id' := by
    intro id id' t ht ht'
    rw [h.resolve_eq_ok hf] at ht ht'
    exact Option.some.inj (ht.symm.trans ht')
  have hgraph : ∀ {q ids}, s.encode? q = some ids → s.resolve ids.graph = .ok q.graph :=
    fun hq => (h.resolve_eq_ok hf).mpr (encode?_eq_some.mp hq).2.2.2
  have hquad : ∀ ids, s.Holds ids → ∃ q ∈ s.content, s.resolve ids.graph = .ok q.graph := by
    intro ids hids
    obtain ⟨q, hq⟩ := h.exists_encode? hids
    exact ⟨q, (h.mem_quads hf).mpr ⟨ids, hq, hids⟩, hgraph hq⟩
  have hheld : ∀ q ∈ s.content, ∃ ids, s.Holds ids ∧ s.resolve ids.graph = .ok q.graph := by
    intro q hq
    obtain ⟨ids, hids, hheld⟩ := (h.mem_quads hf).mp hq
    exact ⟨ids, hheld, hgraph hids⟩
  have hkeys : ∀ key, key ∈ s.gspo ↔ _ := h.keys .gspo
  obtain ⟨ts, hts, hlists⟩ := listsGraphs_of_keys hkeys hnumber hquad hheld
  have hresolve : s.dictionary.resolve? = Except.toOption ∘ s.resolve := by
    funext id
    rw [Function.comp_apply, resolve]
    cases s.dictionary.resolve? id <;> rfl
  have heq : s.graphs = ts := by
    rw [graphs, hresolve, ← List.filterMap_map, hts, List.filterMap_map]
    exact List.filterMap_some
  exact heq ▸ hlists

end Store
end DualStore
