import DualStore.Index.Memory
import DualStore.Proofs.Collections
import DualStore.Proofs.Effects
import DualStore.Proofs.Outcomes

/-! What calls to the index in memory change: only the dataset of the space that they are about, and
nothing if they only ask. -/

namespace DualStore

namespace MemoryIndex

/-- What the dataset of a space holds; one that is not there holds nothing. -/
def held (i : MemoryIndex) (space : String) : SortedSet Quad := (i.datasets.get? space).getD ∅

variable {i j : MemoryIndex} {space other text : String} {next next' : Nat} {fault : IndexFault}

theorem checkAvailable_eq_ok : i.checkAvailable = .ok () ↔ i.available = true := by
  unfold checkAvailable
  split
  · exact iff_of_true rfl ‹_›
  · exact iff_of_false nofun ‹_›

theorem dataset_eq_ok {quads : SortedSet Quad} :
    i.dataset space = .ok quads ↔ i.datasets.get? space = some quads := by
  unfold dataset
  split
  · next hget => rw [hget, Except.ok.injEq, Option.some.injEq]
  · next hget => rw [hget]; exact iff_of_false nofun nofun

/-- A dataset that is there already is kept as it is. -/
theorem create_eq_ok : create space i = .ok j ↔ i.available = true ∧
    j = if i.datasets.contains space then i
      else { i with datasets := i.datasets.insert space ∅ } := by
  rw [create, bind_eq_ok]
  constructor
  · rintro ⟨⟨⟩, hav, h⟩
    refine ⟨checkAvailable_eq_ok.mp hav, ?_⟩
    split at h
    next hc => rw [if_pos hc]; exact (pure_eq_ok.mp h).symm
    next hc => rw [if_neg hc]; exact (pure_eq_ok.mp h).symm
  · rintro ⟨hav, rfl⟩
    refine ⟨(), checkAvailable_eq_ok.mpr hav, ?_⟩
    split <;> rfl

theorem remove_eq_ok : remove space i = .ok j ↔
    i.available = true ∧ j = { i with datasets := i.datasets.erase space } := by
  rw [remove, bind_eq_ok]
  constructor
  · rintro ⟨⟨⟩, hav, h⟩
    exact ⟨checkAvailable_eq_ok.mp hav, (pure_eq_ok.mp h).symm⟩
  · rintro ⟨hav, rfl⟩
    exact ⟨(), checkAvailable_eq_ok.mpr hav, rfl⟩

theorem available_of_create_error (h : create space i = .error fault) : i.available = false := by
  refine Bool.not_eq_true _ ▸ fun hav => ?_
  rw [create_eq_ok.mpr ⟨hav, rfl⟩] at h
  cases h

theorem available_of_remove_error (h : remove space i = .error fault) : i.available = false := by
  refine Bool.not_eq_true _ ▸ fun hav => ?_
  rw [remove_eq_ok.mpr ⟨hav, rfl⟩] at h
  cases h

/-- A dataset that is made holds nothing, and one that is there is kept. -/
theorem get?_of_create (h : create space i = .ok j) :
    j.datasets.get? space = some (i.held space) := by
  obtain ⟨-, rfl⟩ := create_eq_ok.mp h
  split
  next hc =>
    obtain ⟨m, hm⟩ := SortedMap.contains_iff.mp hc
    rw [held, hm]
    rfl
  next hc =>
    rw [Bool.not_eq_true, SortedMap.contains_eq_false_iff] at hc
    rw [SortedMap.get?_insert, if_pos rfl, held, hc]
    rfl

theorem held_of_create (h : create space i = .ok j) : j.held space = i.held space := by
  rw [held, get?_of_create h, Option.getD_some]

theorem held_of_remove (h : remove space i = .ok j) : j.held space = ∅ := by
  obtain ⟨-, rfl⟩ := remove_eq_ok.mp h
  rw [held, SortedMap.get?_erase, if_pos rfl, Option.getD_none]

theorem update_eq_ok : update space text next i = .ok (j, next') ↔ i.available = true ∧
    ∃ quads b, i.datasets.get? space = some quads ∧
      Update.batchOf (.ofSet quads) space next text = .ok (b, next') ∧
      j = { i with datasets :=
        i.datasets.insert space (Operation.applyAll quads b.effective) } := by
  rw [update, bind_eq_ok]
  constructor
  · rintro ⟨⟨⟩, hav, h⟩
    obtain ⟨quads, hquads, h⟩ := bind_eq_ok.mp h
    obtain ⟨⟨b, n⟩, hb, h⟩ := bind_eq_ok.mp h
    obtain ⟨rfl, rfl⟩ := Prod.mk.inj (pure_eq_ok.mp h)
    exact ⟨checkAvailable_eq_ok.mp hav, quads, b, dataset_eq_ok.mp hquads,
      mapError_eq_ok.mp hb, rfl⟩
  · rintro ⟨hav, quads, b, hquads, hb, rfl⟩
    exact ⟨(), checkAvailable_eq_ok.mpr hav, bind_eq_ok.mpr ⟨quads, dataset_eq_ok.mpr hquads,
      bind_eq_ok.mpr ⟨(b, next'), mapError_eq_ok.mpr hb, rfl⟩⟩⟩

theorem query_eq_ok {answer : Answer} :
    query space text next i = .ok (answer, next') ↔ i.available = true ∧
      ∃ q quads, Query.ofText text = .ok q ∧ i.datasets.get? space = some quads ∧
        q.answer (.ofSet quads) next = (answer, next') := by
  rw [query, bind_eq_ok]
  constructor
  · rintro ⟨⟨⟩, hav, h⟩
    obtain ⟨q, hq, h⟩ := bind_eq_ok.mp h
    obtain ⟨quads, hquads, h⟩ := bind_eq_ok.mp h
    exact ⟨checkAvailable_eq_ok.mp hav, q, quads, mapError_eq_ok.mp hq, dataset_eq_ok.mp hquads,
      pure_eq_ok.mp h⟩
  · rintro ⟨hav, q, quads, hq, hquads, h⟩
    exact ⟨(), checkAvailable_eq_ok.mpr hav, bind_eq_ok.mpr ⟨q, mapError_eq_ok.mpr hq,
      bind_eq_ok.mpr ⟨quads, dataset_eq_ok.mpr hquads, pure_eq_ok.mpr h⟩⟩⟩

theorem query_run {q : Query} {m : SortedSet Quad} (hq : Query.ofText text = .ok q)
    (hm : i.datasets.get? space = some m) : query space text next i =
      if i.available then .ok (q.answer (.ofSet m) next) else .error .unavailable := by
  rw [query, checkAvailable]
  split
  · rw [hq, dataset_eq_ok.mpr hm]
    rfl
  · rfl

/-- `j` is `i` but for the dataset of one space. -/
structure AgreesBut (space : String) (i j : MemoryIndex) : Prop where
  available : j.available = i.available
  delay : j.delay = i.delay
  dataset : ∀ other, other ≠ space → j.datasets.get? other = i.datasets.get? other

instance : IsPreorder MemoryIndex (AgreesBut space) where
  refl _ := ⟨rfl, rfl, fun _ _ => rfl⟩
  trans _ _ _ h h' := ⟨h'.available.trans h.available, h'.delay.trans h.delay,
    fun other ho => (h'.dataset other ho).trans (h.dataset other ho)⟩

theorem agreesBut_insert (quads : SortedSet Quad) :
    AgreesBut space i { i with datasets := i.datasets.insert space quads } :=
  ⟨rfl, rfl, fun other ho => by rw [SortedMap.get?_insert, if_neg ho]⟩

theorem agreesBut_of_create (h : create space i = .ok j) : AgreesBut space i j := by
  obtain ⟨-, rfl⟩ := create_eq_ok.mp h
  split
  · exact refl_of (AgreesBut space) i
  · exact agreesBut_insert ∅

theorem agreesBut_of_remove (h : remove space i = .ok j) : AgreesBut space i j := by
  obtain ⟨-, rfl⟩ := remove_eq_ok.mp h
  exact ⟨rfl, rfl, fun other ho => by rw [SortedMap.get?_erase, if_neg ho]⟩

theorem agreesBut_of_update (h : update space text next i = .ok (j, next')) :
    AgreesBut space i j := by
  obtain ⟨-, quads, b, -, -, rfl⟩ := update_eq_ok.mp h
  exact agreesBut_insert _

end MemoryIndex

namespace IndexState

/-- Only the dataset of one space and the numbers of new blank nodes differ. -/
def AgreesBut (space : String) (s s' : IndexState MemoryIndex) : Prop :=
  s.index.AgreesBut space s'.index

/-- Only the numbers of new blank nodes differ. -/
def SameIndex (s s' : IndexState MemoryIndex) : Prop := s'.index = s.index

instance {space : String} : IsPreorder (IndexState MemoryIndex) (AgreesBut space) where
  refl s := refl_of (MemoryIndex.AgreesBut space) s.index
  trans _ _ _ h h' := trans_of (MemoryIndex.AgreesBut space) h h'

instance : IsPreorder (IndexState MemoryIndex) SameIndex where
  refl _ := rfl
  trans _ _ _ h h' := Eq.trans h' h

end IndexState

open IndexState (AgreesBut SameIndex)

variable {space text : String}

/-! ## Calls -/

namespace IndexM

theorem create_keeps (space : String) :
    Keeps (AgreesBut space) (create (ι := MemoryIndex) space) := by
  intro s
  unfold create
  split
  next h => exact MemoryIndex.agreesBut_of_create h
  next => exact refl_of (AgreesBut space) s

theorem remove_keeps : Keeps (AgreesBut space) (remove (ι := MemoryIndex) space) := by
  intro s
  unfold remove
  split
  next h => exact MemoryIndex.agreesBut_of_remove h
  next => exact refl_of (AgreesBut space) s

theorem updateWithin_keeps (limit : Nat) :
    Keeps (AgreesBut space) (updateWithin (ι := MemoryIndex) limit space text) := by
  intro s
  unfold updateWithin
  split
  · exact refl_of (AgreesBut space) s
  unfold update
  split
  next h => exact MemoryIndex.agreesBut_of_update h
  next => exact refl_of (AgreesBut space) s

theorem query_keeps : Keeps SameIndex (query (ι := MemoryIndex) space text) := by
  intro s
  unfold query
  split <;> rfl

theorem query_eq_ok {side side' : IndexState MemoryIndex} {answer : Answer}
    (h : query space text side = (.ok answer, side')) :
    ∃ q m, Query.ofText text = .ok q ∧ side.index.datasets.get? space = some m ∧
      (q.answer (.ofSet m) side.next).1 = answer := by
  unfold query at h
  split at h
  next next hquery =>
    obtain ⟨-, q, m, hq, hm, hanswer⟩ := MemoryIndex.query_eq_ok.mp hquery
    obtain rfl := Except.ok.inj (Prod.mk.inj h).1
    exact ⟨q, m, hq, hm, congrArg Prod.fst hanswer⟩
  next => cases (Prod.mk.inj h).1

/-- A query is answered from the dataset of the space, unless the index is off. -/
theorem query_run {side : IndexState MemoryIndex} {q : Query} {m : SortedSet Quad}
    (hq : Query.ofText text = .ok q) (hm : side.index.datasets.get? space = some m) :
    query space text side =
      if side.index.available then (.ok (q.answer (.ofSet m) side.next).1,
        { side with next := (q.answer (.ofSet m) side.next).2 })
      else (.error .unavailable, side) := by
  have hquery : TripleIndex.query space text side.next side.index = _ :=
    MemoryIndex.query_run hq hm
  rw [query, hquery]
  cases side.index.available <;> rfl

end IndexM

namespace Scope

variable {settings : Settings} {store : Store} {graph : Option Term}

theorem replay_keeps (pieces : List (List Quad)) :
    Keeps (AgreesBut space) (replay (ι := MemoryIndex) settings space pieces) := by
  induction pieces with
  | nil => exact .pure ()
  | cons quads pieces ih => exact (IndexM.updateWithin_keeps _).bind fun _ => ih

theorem rebuild_keeps :
    Keeps (AgreesBut space) (rebuild (ι := MemoryIndex) settings space store graph) :=
  .adapt _ <| (IndexM.create_keeps space).bind fun _ => (IndexM.updateWithin_keeps _).bind fun _ =>
    (replay_keeps _).bind fun _ => .pure _

theorem apply_keeps (settings : Settings) (b : Batch) :
    Keeps (AgreesBut b.space) (apply (ι := MemoryIndex) settings b) := by
  unfold apply
  split
  · exact .pure ()
  · exact IndexM.updateWithin_keeps _

theorem indexCount_keeps : Keeps SameIndex (indexCount (ι := MemoryIndex) space graph) :=
  IndexM.query_keeps.bind fun answer => by
    split
    · exact .pure _
    · exact .throw _

theorem indexQuads_keeps : Keeps SameIndex (indexQuads (ι := MemoryIndex) space graph) :=
  IndexM.query_keeps.bind fun _ _ => rfl

theorem check_keeps : Keeps SameIndex (check (ι := MemoryIndex) settings space store graph) :=
  (indexCount_keeps.adapt _).bind fun _ => by
    split
    · exact (indexQuads_keeps.adapt _).bind fun _ => .pure _
    · exact .pure _

end Scope
end DualStore
