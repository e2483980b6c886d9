import DualStore.Backlog
import DualStore.Proofs.Collections
import DualStore.Proofs.StorableQuads
import DualStore.Space.Name

/-! What the backlog holds after it was written to. Keys tell scopes apart: the name of a space does
not contain the character that ends it, and the IRI of a graph is not empty
(`Backlog.IsScope.key_inj`). -/

namespace DualStore

/-! ## Names -/

theorem zero_notMem_of_isSpaceName {name : String} (h : isSpaceName name = true) :
    '\x00' ∉ name.toList := by
  intro hmem
  simp only [isSpaceName, Bool.and_eq_true, List.all_eq_true] at h
  exact absurd (h.2 _ hmem) (by decide)

private theorem append_cons_inj {α : Type} {a : α} {l m u v : List α} (hl : a ∉ l) (hm : a ∉ m)
    (h : l ++ a :: u = m ++ a :: v) : l = m ∧ u = v := by
  induction l generalizing m with
  | nil =>
    cases m with
    | nil => exact ⟨rfl, (List.cons.inj h).2⟩
    | cons b m => exact absurd ((List.cons.inj h).1 ▸ List.mem_cons_self) hm
  | cons b l ih =>
    cases m with
    | nil => exact absurd ((List.cons.inj h).1 ▸ List.mem_cons_self) hl
    | cons c m =>
      obtain ⟨rfl, htail⟩ := List.cons.inj h
      obtain ⟨rfl, rfl⟩ := ih (fun h => hl (List.mem_cons_of_mem _ h))
        (fun h => hm (List.mem_cons_of_mem _ h)) htail
      exact ⟨rfl, rfl⟩

namespace Backlog

variable {b : Backlog} {e : Entry} {space name : String} {graph graph' : Option Term}

/-! ## Keys -/

/-- What a key says of the graph. -/
def graphKey : Option Term → String
  | some t => t.lexical
  | none => ""

theorem toList_key :
    (key space graph).toList = space.toList ++ '\x00' :: (graphKey graph).toList := by
  have hzero : ("\x00" : String).toList = ['\x00'] := rfl
  cases graph <;> simp [key, spacePrefix, graphKey, hzero]

/-- Keys are equal for the same space only. -/
theorem key_inj (hs : isSpaceName space = true) (hn : isSpaceName name = true)
    (h : key space graph = key name graph') : space = name ∧ graphKey graph = graphKey graph' := by
  have := congrArg String.toList h
  rw [toList_key, toList_key] at this
  obtain ⟨hspace, hgraph⟩ := append_cons_inj (zero_notMem_of_isSpaceName hs)
    (zero_notMem_of_isSpaceName hn) this
  exact ⟨String.toList_inj.mp hspace, String.toList_inj.mp hgraph⟩

theorem toList_spacePrefix : (spacePrefix space).toList = space.toList ++ ['\x00'] := by
  have hzero : ("\x00" : String).toList = ['\x00'] := rfl
  rw [spacePrefix, String.toList_append, hzero]

theorem isKeyOf_self (space : String) (graph : Option Term) :
    isKeyOf space (key space graph) = true := by
  rw [isKeyOf, List.isPrefixOf_iff_prefix, toList_key, toList_spacePrefix]
  exact ⟨(graphKey graph).toList, List.append_assoc ..⟩

theorem isKeyOf_iff_of_notMem (hs : '\x00' ∉ space.toList) (hn : '\x00' ∉ name.toList) :
    isKeyOf name (key space graph) = true ↔ space = name := by
  refine ⟨fun h => ?_, fun h => h ▸ isKeyOf_self space graph⟩
  rw [isKeyOf, List.isPrefixOf_iff_prefix, toList_key, toList_spacePrefix] at h
  obtain ⟨rest, h⟩ := h
  rw [List.append_assoc, List.singleton_append] at h
  exact (String.toList_inj.mp (append_cons_inj hn hs h).1).symm

theorem isKeyOf_key (hs : isSpaceName space = true) (hn : isSpaceName name = true) :
    isKeyOf name (key space graph) = true ↔ space = name :=
  isKeyOf_iff_of_notMem (zero_notMem_of_isSpaceName hs) (zero_notMem_of_isSpaceName hn)

/-- Of the graph, if there is one, there is an IRI that is not empty. -/
def HasIri (graph : Option Term) : Prop := ∀ g, graph = some g → ∃ text, g = .iri text ∧ text ≠ ""

theorem HasIri.graphKey_inj (h : HasIri graph) (h' : HasIri graph')
    (hkey : graphKey graph = graphKey graph') : graph = graph' := by
  cases graph with
  | none =>
    cases graph' with
    | none => rfl
    | some g =>
      obtain ⟨text, rfl, htext⟩ := h' g rfl
      exact absurd hkey.symm htext
  | some g =>
    obtain ⟨text, rfl, htext⟩ := h g rfl
    cases graph' with
    | none => exact absurd hkey htext
    | some g' =>
      obtain ⟨text', rfl, -⟩ := h' g' rfl
      exact congrArg (fun text => some (Term.iri text)) hkey

/-! ## Entries -/

/-- The name of a space, and a graph or all graphs of it. -/
structure IsScope (space : String) (graph : Option Term) : Prop where
  name : isSpaceName space = true
  graph : IsGraphScope graph

theorem IsScope.whole (h : isSpaceName space = true) : IsScope space none :=
  ⟨h, isGraphScope_none⟩

theorem IsScope.hasIri (h : IsScope space graph) : HasIri graph := by
  intro g hg
  obtain ⟨iri, rfl, hiri⟩ := h.graph g hg
  refine ⟨iri, rfl, ?_⟩
  rintro rfl
  revert hiri
  decide

theorem IsScope.key_inj {name : String} (h : IsScope space graph) (h' : IsScope name graph')
    (hkey : key space graph = key name graph') : space = name ∧ graph = graph' := by
  obtain ⟨hspace, hgraph⟩ := Backlog.key_inj h.name h'.name hkey
  exact ⟨hspace, h.hasIri.graphKey_inj h'.hasIri hgraph⟩

/-- Every entry stands under its key. -/
def Keyed (b : Backlog) : Prop := ∀ k e, b.entries.get? k = some e → k = key e.space e.graph

theorem Keyed.mem_pending (h : b.Keyed) :
    e ∈ b.pending ↔ b.entries.get? (key e.space e.graph) = some e := by
  rw [pending, SortedMap.mem_values]
  refine ⟨fun ⟨k, hk⟩ => ?_, fun hk => ⟨_, hk⟩⟩
  rwa [h k e hk] at hk

/-- There is one entry under a key at most. -/
theorem Keyed.eq_of_key {u : Entry} (h : b.Keyed) (he : e ∈ b.pending) (hu : u ∈ b.pending)
    (hkey : key e.space e.graph = key u.space u.graph) : e = u := by
  rw [h.mem_pending] at he hu
  rw [hkey, hu] at he
  exact (Option.some.inj he).symm

/-- Every entry has a scope and stands under its key. -/
structure Valid (b : Backlog) : Prop where
  key : b.Keyed
  scope : ∀ k e, b.entries.get? k = some e → IsScope e.space e.graph

theorem valid_empty : ({} : Backlog).Valid := ⟨nofun, nofun⟩

theorem Valid.mem_pending (h : b.Valid) :
    e ∈ b.pending ↔ b.entries.get? (Backlog.key e.space e.graph) = some e := h.key.mem_pending

theorem mem_pending_of_mem_pendingFor (h : e ∈ b.pendingFor space) : e ∈ b.pending := by
  rw [pendingFor, SortedMap.mem_values] at h
  obtain ⟨k, hk⟩ := h
  rw [SortedMap.get?_filter, Option.filter_eq_some_iff] at hk
  exact SortedMap.mem_values.mpr ⟨k, hk.1⟩

/-- The entries of a space are selected by its name alone. -/
theorem Keyed.mem_pendingFor (h : b.Keyed) (hnames : ∀ e ∈ b.pending, isSpaceName e.space = true)
    (hs : isSpaceName space = true) : e ∈ b.pendingFor space ↔ e.space = space ∧ e ∈ b.pending := by
  simp only [pendingFor, SortedMap.mem_values, SortedMap.get?_filter, Option.filter_eq_some_iff]
  constructor
  · rintro ⟨k, hget, hk⟩
    have he : e ∈ b.pending := SortedMap.mem_values.mpr ⟨k, hget⟩
    rw [h k e hget] at hk
    exact ⟨(isKeyOf_key (hnames e he) hs).mp hk, he⟩
  · rintro ⟨rfl, he⟩
    exact ⟨_, h.mem_pending.mp he, isKeyOf_self ..⟩

theorem Valid.isScope (h : b.Valid) (he : e ∈ b.pending) : IsScope e.space e.graph :=
  h.scope _ e (h.mem_pending.mp he)

/-! ## Recording -/

theorem get?_record (b : Backlog) (space : String) (graph : Option Term) (reason k : String) :
    (b.record space graph reason).2.entries.get? k =
      if k = key space graph then some (b.record space graph reason).1 else b.entries.get? k :=
  SortedMap.get?_insert ..

theorem Keyed.record (h : b.Keyed) (space : String) (graph : Option Term) (reason : String) :
    (b.record space graph reason).2.Keyed := by
  intro k e hk
  rw [get?_record] at hk
  split at hk
  next hkey =>
    cases hk
    exact hkey
  next => exact h k e hk

/-- Recording a scope leaves what stands under other keys alone. -/
theorem Keyed.mem_pending_record (h : b.Keyed) (space : String) (graph : Option Term)
    (reason : String) : e ∈ (b.record space graph reason).2.pending ↔
      e = (b.record space graph reason).1 ∨
        e ∈ b.pending ∧ Backlog.key e.space e.graph ≠ Backlog.key space graph := by
  rw [(h.record space graph reason).mem_pending, get?_record, h.mem_pending]
  split
  next hkey =>
    rw [or_iff_left fun he => he.2 hkey, Option.some.injEq]
    exact eq_comm
  next hkey =>
    rw [and_iff_left hkey, or_iff_right]
    rintro rfl
    exact hkey rfl

theorem Valid.record (h : b.Valid) (hs : IsScope space graph) (reason : String) :
    (b.record space graph reason).2.Valid := by
  refine ⟨h.key.record space graph reason, fun k e hk => ?_⟩
  rw [get?_record] at hk
  split at hk
  next =>
    cases hk
    exact hs
  next => exact h.scope k e hk

/-- Recording a scope leaves the entries of other scopes alone. -/
theorem Valid.mem_pending_record (h : b.Valid) (hs : IsScope space graph) (reason : String) :
    e ∈ (b.record space graph reason).2.pending ↔ e = (b.record space graph reason).1 ∨
      e ∈ b.pending ∧ ¬ (e.space = space ∧ e.graph = graph) := by
  refine (h.key.mem_pending_record space graph reason).trans (or_congr_right ?_)
  refine and_congr_right fun he => not_congr ⟨(h.isScope he).key_inj hs, ?_⟩
  rintro ⟨hspace, hgraph⟩
  rw [hspace, hgraph]

/-- Records graphs of a space one after the other. -/
def recordAll (b : Backlog) (space reason : String) (graphs : List Term) : Backlog :=
  graphs.foldl (fun b g => (b.record space (some g) reason).2) b

theorem Valid.recordAll {graphs : List Term} (h : b.Valid) (reason : String)
    (hs : ∀ g ∈ graphs, IsScope space (some g)) : (b.recordAll space reason graphs).Valid := by
  induction graphs generalizing b with
  | nil => exact h
  | cons g graphs ih =>
    exact ih (h.record (hs g List.mem_cons_self) reason) fun g' hg' =>
      hs g' (List.mem_cons_of_mem _ hg')

theorem Valid.mem_pending_recordAll {graphs : List Term} (h : b.Valid) (reason : String)
    (hs : ∀ g ∈ graphs, IsScope space (some g))
    (he : e ∈ (b.recordAll space reason graphs).pending) : e.space = space ∨ e ∈ b.pending := by
  induction graphs generalizing b with
  | nil => exact .inr he
  | cons g graphs ih =>
    have hg := hs g List.mem_cons_self
    have hrest : ∀ g ∈ graphs, IsScope space (some g) := fun g' hg' =>
      hs g' (List.mem_cons_of_mem _ hg')
    rcases ih (h.record hg reason) hrest he with hspace | he
    · exact .inl hspace
    · rcases (h.mem_pending_record hg reason).mp he with rfl | ⟨he, -⟩
      · exact .inl rfl
      · exact .inr he

/-- Recording graphs of a space leaves the entries of other spaces alone. -/
theorem Valid.mem_pending_recordAll_of_ne {graphs : List Term} (h : b.Valid) (reason : String)
    (hs : ∀ g ∈ graphs, IsScope space (some g)) (he : e.space ≠ space) :
    e ∈ (b.recordAll space reason graphs).pending ↔ e ∈ b.pending := by
  refine ⟨fun hp => (h.mem_pending_recordAll reason hs hp).resolve_left he, fun hp => ?_⟩
  induction graphs generalizing b with
  | nil => exact hp
  | cons g graphs ih =>
    have hg := hs g List.mem_cons_self
    exact ih (h.record hg reason) (fun g' hg' => hs g' (List.mem_cons_of_mem _ hg'))
      ((h.mem_pending_record hg reason).mpr (.inr ⟨hp, fun h => he h.1⟩))

/-! ## Removing -/

theorem get?_removeAll_eq_some {keys : List String} {k : String} :
    (b.removeAll keys).entries.get? k = some e ↔ k ∉ keys ∧ b.entries.get? k = some e := by
  rw [removeAll, SortedMap.get?_filter, Option.filter_eq_some_iff, and_comm, Bool.not_eq_true',
    ← Bool.not_eq_true, List.contains_iff_mem]

theorem get?_removeAll (b : Backlog) (keys : List String) (k : String) :
    (b.removeAll keys).entries.get? k = if k ∈ keys then none else b.entries.get? k := by
  refine Option.ext fun e => ?_
  rw [get?_removeAll_eq_some]
  split
  next hk => exact ⟨fun h => absurd hk h.1, nofun⟩
  next hk => exact and_iff_right hk

theorem mem_keysOf {k : String} :
    k ∈ b.keysOf space ↔ (∃ e, b.entries.get? k = some e) ∧ isKeyOf space k = true := by
  rw [keysOf, List.mem_filter, SortedMap.mem_keys]

theorem get?_forget (b : Backlog) (space k : String) :
    (b.forget space).entries.get? k = if isKeyOf space k then none else b.entries.get? k := by
  refine Option.ext fun e => ?_
  rw [forget, get?_removeAll_eq_some, mem_keysOf]
  split
  next hk => exact ⟨fun h => absurd ⟨⟨e, h.2⟩, hk⟩ h.1, nofun⟩
  next hk => exact and_iff_right fun h => hk h.2

theorem isCurrent_iff : b.isCurrent e = true ↔
    ∃ current, b.entries.get? (key e.space e.graph) = some current ∧
      current.generation = e.generation := by
  simp only [isCurrent, Option.any_eq_true, beq_iff_eq]

theorem Keyed.isCurrent_iff (h : b.Keyed) : b.isCurrent e = true ↔
    ∃ u ∈ b.pending, key u.space u.graph = key e.space e.graph ∧
      u.generation = e.generation := by
  rw [Backlog.isCurrent_iff]
  constructor
  · rintro ⟨u, hu, hgeneration⟩
    exact ⟨u, SortedMap.mem_values.mpr ⟨_, hu⟩, (h _ u hu).symm, hgeneration⟩
  · rintro ⟨u, hu, hkey, hgeneration⟩
    exact ⟨u, hkey ▸ h.mem_pending.mp hu, hgeneration⟩

theorem complete_cases (b : Backlog) (e : Entry) :
    (b.complete e).2 = b ∨ (b.complete e).2 = b.removeAll [key e.space e.graph] := by
  rw [complete]
  split
  · exact .inr rfl
  · exact .inl rfl

theorem Keyed.removeAll (h : b.Keyed) (keys : List String) : (b.removeAll keys).Keyed :=
  fun k e hk => h k e (get?_removeAll_eq_some.mp hk).2

theorem Keyed.mem_pending_removeAll {keys : List String} (h : b.Keyed) :
    e ∈ (b.removeAll keys).pending ↔ e ∈ b.pending ∧ key e.space e.graph ∉ keys := by
  rw [(h.removeAll keys).mem_pending, h.mem_pending, get?_removeAll_eq_some, and_comm]

theorem Valid.removeAll (h : b.Valid) (keys : List String) : (b.removeAll keys).Valid :=
  ⟨h.key.removeAll keys, fun k e hk => h.scope k e (get?_removeAll_eq_some.mp hk).2⟩

theorem Valid.complete (h : b.Valid) (e : Entry) : (b.complete e).2.Valid := by
  rcases b.complete_cases e with heq | heq <;> rw [heq]
  · exact h
  · exact h.removeAll _

theorem Valid.forget (h : b.Valid) (space : String) : (b.forget space).Valid := h.removeAll _

theorem mem_pending_of_removeAll {keys : List String} (h : e ∈ (b.removeAll keys).pending) :
    e ∈ b.pending := by
  rw [pending, SortedMap.mem_values] at h ⊢
  obtain ⟨k, hk⟩ := h
  exact ⟨k, (get?_removeAll_eq_some.mp hk).2⟩

theorem Valid.mem_pending_forget (h : b.Valid) (hs : isSpaceName space = true) :
    e ∈ (b.forget space).pending ↔ e ∈ b.pending ∧ e.space ≠ space := by
  rw [Backlog.forget, h.key.mem_pending_removeAll]
  refine and_congr_right fun he => not_congr ?_
  rw [mem_keysOf, isKeyOf_key (h.isScope he).name hs]
  exact and_iff_right ⟨e, h.mem_pending.mp he⟩

theorem mem_pending_of_complete {e' : Entry} (h : e' ∈ (b.complete e).2.pending) :
    e' ∈ b.pending := by
  rcases b.complete_cases e with heq | heq <;> rw [heq] at h
  · exact h
  · exact mem_pending_of_removeAll h

/-- Completing an entry leaves the entries of other scopes alone. -/
theorem Valid.mem_pending_complete {e' : Entry} (h : b.Valid) (hs : IsScope e.space e.graph)
    (hne : ¬ (e'.space = e.space ∧ e'.graph = e.graph)) :
    e' ∈ (b.complete e).2.pending ↔ e' ∈ b.pending := by
  refine ⟨mem_pending_of_complete, fun he => ?_⟩
  rcases b.complete_cases e with heq | heq <;> rw [heq]
  · exact he
  · refine h.key.mem_pending_removeAll.mpr ⟨he, fun hkey => hne ?_⟩
    exact (h.isScope he).key_inj hs (List.mem_singleton.mp hkey)

/-- An entry that is still there is completed. -/
theorem Valid.complete_eq (h : b.Valid) (he : e ∈ b.pending) :
    b.complete e = (true, b.removeAll [Backlog.key e.space e.graph]) :=
  if_pos (isCurrent_iff.mpr ⟨e, h.mem_pending.mp he, rfl⟩)

/-- An entry that is still there is removed, and it alone. -/
theorem Valid.complete_pending (h : b.Valid) (he : e ∈ b.pending) : (b.complete e).1 = true ∧
    ∀ e', e' ∈ (b.complete e).2.pending ↔ e' ∈ b.pending ∧ e' ≠ e := by
  rw [h.complete_eq he]
  refine ⟨rfl, fun e' => h.key.mem_pending_removeAll.trans ?_⟩
  refine and_congr_right fun he' => not_congr ?_
  rw [List.mem_singleton]
  exact ⟨h.key.eq_of_key he' he, fun heq => heq ▸ rfl⟩

/-- Entries that stand each under its own key are listed once. -/
theorem nodup_values {entries : SortedMap String Entry}
    (h : ∀ k e, entries.get? k = some e → k = Backlog.key e.space e.graph) :
    entries.values.Nodup := by
  refine List.Nodup.of_map (fun e => Backlog.key e.space e.graph) ?_
  have hkeys : entries.values.map (fun e => Backlog.key e.space e.graph) = entries.keys := by
    rw [SortedMap.values, SortedMap.keys, List.map_map]
    refine List.map_congr_left fun r hr => ?_
    exact (h r.1 r.2 (SortedMap.get?_eq_some_iff.mpr hr)).symm
  rw [hkeys]
  exact SortedMap.nodup_keys _

theorem Keyed.nodup_pendingFor (h : b.Keyed) (space : String) : (b.pendingFor space).Nodup := by
  refine nodup_values fun k e hk => ?_
  rw [SortedMap.get?_filter, Option.filter_eq_some_iff] at hk
  exact h k e hk.1

/-- No entry is listed twice. -/
theorem Valid.nodup_pending (h : b.Valid) : b.pending.Nodup := nodup_values h.key

/-! ## Graphs that are recorded -/

/-- The graph is to be rebuilt, alone or with its whole space. -/
def Covers (b : Backlog) (space : String) (g : Term) : Prop :=
  ∃ e ∈ b.pending, e.space = space ∧ (e.graph = none ∨ e.graph = some g)

theorem Covers.congr {b' : Backlog} {g : Term} (h : b.Covers space g)
    (hpending : ∀ e, e.space = space → (e ∈ b'.pending ↔ e ∈ b.pending)) : b'.Covers space g := by
  obtain ⟨e, he, hspace, hgraph⟩ := h
  exact ⟨e, (hpending e hspace).mpr he, hspace, hgraph⟩

theorem Valid.covers_record {g : Term} (h : b.Valid) (hs : IsScope space graph) (reason : String)
    (hg : graph = none ∨ graph = some g) : (b.record space graph reason).2.Covers space g :=
  ⟨_, (h.mem_pending_record hs reason).mpr (.inl rfl), rfl, hg⟩

/-- An entry may make way for one of the same scope. -/
theorem Covers.record {g : Term} (hc : b.Covers name g) (h : b.Valid) (hs : IsScope space graph)
    (reason : String) : (b.record space graph reason).2.Covers name g := by
  obtain ⟨e, he, rfl, hgraph⟩ := hc
  by_cases hscope : e.space = space ∧ e.graph = graph
  · rw [hscope.1]
    exact h.covers_record hs reason (hscope.2 ▸ hgraph)
  · exact ⟨e, (h.mem_pending_record hs reason).mpr (.inr ⟨he, hscope⟩), rfl, hgraph⟩

theorem Covers.recordAll {g : Term} {graphs : List Term} (hc : b.Covers name g) (h : b.Valid)
    (hs : ∀ g ∈ graphs, IsScope space (some g)) (reason : String) :
    (b.recordAll space reason graphs).Covers name g := by
  induction graphs generalizing b with
  | nil => exact hc
  | cons first graphs ih =>
    have hfirst := hs first List.mem_cons_self
    exact ih (hc.record h hfirst reason) (h.record hfirst reason) fun g hg =>
      hs g (List.mem_cons_of_mem _ hg)

/-- All graphs that are recorded are covered. -/
theorem Valid.covers_recordAll {g : Term} {graphs : List Term} (h : b.Valid)
    (hs : ∀ g ∈ graphs, IsScope space (some g)) (reason : String) (hg : g ∈ graphs) :
    (b.recordAll space reason graphs).Covers space g := by
  induction graphs generalizing b with
  | nil => cases hg
  | cons first graphs ih =>
    have hfirst := hs first List.mem_cons_self
    have hrest : ∀ g ∈ graphs, IsScope space (some g) := fun g hg =>
      hs g (List.mem_cons_of_mem _ hg)
    rcases List.mem_cons.mp hg with rfl | hg
    · have hcovers := h.covers_record hfirst reason (.inr rfl)
      exact hcovers.recordAll (h.record hfirst reason) hrest reason
    · exact ih (h.record hfirst reason) hrest hg

/-- Completing an entry uncovers graphs of its scope only. -/
theorem Covers.complete {g : Term} (hc : b.Covers name g) (h : b.Valid)
    (hs : IsScope e.space e.graph)
    (hne : ¬ (e.space = name ∧ (e.graph = none ∨ e.graph = some g))) :
    (b.complete e).2.Covers name g := by
  obtain ⟨e', he', rfl, hgraph⟩ := hc
  refine ⟨e', (h.mem_pending_complete hs ?_).mpr he', rfl, hgraph⟩
  rintro ⟨hspace, heq⟩
  exact hne ⟨hspace.symm, heq ▸ hgraph⟩

end Backlog
end DualStore
