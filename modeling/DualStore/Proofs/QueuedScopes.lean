import DualStore.Proofs.Backlogs

/-! The backlog under calls that are made one after the other, in any order. It is a map from scopes
to the entries that were recorded last (`Backlog.Follows.after`), as long as every scope has a key
of its own (`Backlog.Named.key_eq_iff`). -/

namespace DualStore
namespace Backlog

/-! ## Calls -/

inductive Call where
  | record (space : String) (graph : Option Term) (reason : String)
  | complete (e : Entry)
  | pending
  | pendingFor (space : String)
  | forget (space : String)

inductive Reply where
  | recorded (e : Entry)
  | completed (removed : Bool)
  | listed (entries : List Entry)
  | done
  deriving DecidableEq

def send (b : Backlog) : Call → Reply × Backlog
  | .record space graph reason =>
    (.recorded (b.record space graph reason).1, (b.record space graph reason).2)
  | .complete e => (.completed (b.complete e).1, (b.complete e).2)
  | .pending => (.listed b.pending, b)
  | .pendingFor space => (.listed (b.pendingFor space), b)
  | .forget space => (.done, b.forget space)

/-- The backlog after calls on an empty one. -/
def run (calls : List Call) : Backlog := calls.foldl (fun b c => (b.send c).2) {}

/-- The entries that a reply tells of. -/
def Reply.entries : Reply → List Entry
  | recorded e => [e]
  | listed entries => entries
  | completed _ | done => []

/-- A space with a name that it may have, and an IRI or all graphs of the space. -/
structure Named (space : String) (graph : Option Term) : Prop where
  name : isSpaceName space = true
  graph : ∀ g, graph = some g → ∃ text, g = .iri text

/-- The IRI is not empty, so that the key is not the one of the whole space. -/
structure OwnKey (space : String) (graph : Option Term) : Prop where
  name : isSpaceName space = true
  graph : HasIri graph

/-- The scope of a call satisfies `P`. A space that is named alone has a name that it may have. -/
def Call.Scoped (P : String → Option Term → Prop) : Call → Prop
  | record space graph _ => P space graph
  | complete e => P e.space e.graph
  | pending => True
  | pendingFor space | forget space => isSpaceName space = true

/-! ## Ledgers -/

/-- A map from scopes to their entries, and the generation of the next one. -/
structure Ledger where
  latest : String → Option Term → Option Entry := fun _ _ => none
  next : Nat := 0

namespace Ledger

def set (l : Ledger) (space : String) (graph : Option Term) (e : Option Entry) : Ledger :=
  { l with latest := fun s g => if s = space ∧ g = graph then e else l.latest s g }

/-- The entry of the scope is of the same generation. -/
def isCurrent (l : Ledger) (e : Entry) : Bool :=
  (l.latest e.space e.graph).any (·.generation == e.generation)

/-- What a call makes of the map. -/
def after (l : Ledger) : Call → Ledger
  | .record space graph reason =>
    { l.set space graph (some ⟨space, graph, reason, l.next⟩) with next := l.next + 1 }
  | .complete e => if l.isCurrent e then l.set e.space e.graph none else l
  | .pending | .pendingFor _ => l
  | .forget space => { l with latest := fun s g => if s = space then none else l.latest s g }

/-- What a call is answered. Entries are listed once, in any order. -/
def Answers (l : Ledger) : Call → Reply → Prop
  | .record space graph reason, r => r = .recorded ⟨space, graph, reason, l.next⟩
  | .complete e, r => r = .completed (l.isCurrent e)
  | .pending, r => ∃ entries, r = .listed entries ∧ entries.Nodup ∧
      ∀ e, e ∈ entries ↔ l.latest e.space e.graph = some e
  | .pendingFor space, r => ∃ entries, r = .listed entries ∧ entries.Nodup ∧
      ∀ e, e ∈ entries ↔ e.space = space ∧ l.latest e.space e.graph = some e
  | .forget _, r => r = .done

/-- The map after calls on an empty one. -/
def run (calls : List Call) : Ledger := calls.foldl after {}

end Ledger

variable {b : Backlog} {l : Ledger} {c : Call} {calls : List Call} {e : Entry}
  {space name reason : String} {graph graph' : Option Term}

theorem run_concat (calls : List Call) (c : Call) : run (calls ++ [c]) = ((run calls).send c).2 :=
  List.foldl_concat ..

theorem Ledger.run_concat (calls : List Call) (c : Call) :
    Ledger.run (calls ++ [c]) = (Ledger.run calls).after c := List.foldl_concat ..

/-! ## Keys of scopes -/

/-- Two scopes have one key only if one is the whole space and the other its graph with the empty
IRI. -/
theorem Named.key_eq_iff (h : Named space graph) (h' : Named name graph') :
    key space graph = key name graph' ↔ space = name ∧ (graph = graph' ∨
      graph = none ∧ graph' = some (.iri "") ∨ graph = some (.iri "") ∧ graph' = none) := by
  constructor
  · intro hkey
    obtain ⟨hspace, hgraph⟩ := Backlog.key_inj h.name h'.name hkey
    refine ⟨hspace, ?_⟩
    cases graph with
    | none =>
      cases graph' with
      | none => exact .inl rfl
      | some g' =>
        obtain ⟨text', rfl⟩ := h'.graph g' rfl
        obtain rfl : "" = text' := hgraph
        exact .inr (.inl ⟨rfl, rfl⟩)
    | some g =>
      obtain ⟨text, rfl⟩ := h.graph g rfl
      cases graph' with
      | none =>
        obtain rfl : text = "" := hgraph
        exact .inr (.inr ⟨rfl, rfl⟩)
      | some g' =>
        obtain ⟨text', rfl⟩ := h'.graph g' rfl
        obtain rfl : text = text' := hgraph
        exact .inl rfl
  · rintro ⟨rfl, rfl | ⟨rfl, rfl⟩ | ⟨rfl, rfl⟩⟩ <;> rfl

theorem OwnKey.key_inj (h : OwnKey space graph) (h' : OwnKey name graph')
    (hkey : key space graph = key name graph') : space = name ∧ graph = graph' := by
  obtain ⟨hspace, hgraph⟩ := Backlog.key_inj h.name h'.name hkey
  exact ⟨hspace, h.graph.graphKey_inj h'.graph hgraph⟩

/-! ## The map -/

/-- Keys lead to what the map has of their scopes. -/
structure Follows (b : Backlog) (l : Ledger) : Prop where
  get : ∀ k e, b.entries.get? k = some e ↔
    k = key e.space e.graph ∧ l.latest e.space e.graph = some e
  scope : ∀ space graph e, l.latest space graph = some e →
    OwnKey space graph ∧ e.space = space ∧ e.graph = graph
  next : b.next = l.next

theorem follows_empty : ({} : Backlog).Follows {} :=
  ⟨fun _ _ => iff_of_false nofun nofun, nofun, rfl⟩

theorem Follows.get?_key (h : b.Follows l) (hs : OwnKey space graph) :
    b.entries.get? (key space graph) = l.latest space graph := by
  refine Option.ext fun e => ?_
  rw [h.get]
  constructor
  · rintro ⟨hkey, hlatest⟩
    obtain ⟨rfl, rfl⟩ := hs.key_inj (h.scope _ _ _ hlatest).1 hkey
    exact hlatest
  · intro hlatest
    obtain ⟨-, rfl, rfl⟩ := h.scope _ _ _ hlatest
    exact ⟨rfl, hlatest⟩

theorem Follows.keyed (h : b.Follows l) : b.Keyed := fun k e hk => ((h.get k e).mp hk).1

theorem Follows.mem_pending (h : b.Follows l) :
    e ∈ b.pending ↔ l.latest e.space e.graph = some e := by
  rw [h.keyed.mem_pending, h.get]
  exact and_iff_right rfl

theorem Follows.isSpaceName (h : b.Follows l) (he : e ∈ b.pending) : isSpaceName e.space = true :=
  (h.scope _ _ _ (h.mem_pending.mp he)).1.name

/-! ## One call -/

theorem Follows.complete_eq (h : b.Follows l) (hs : OwnKey e.space e.graph) :
    b.complete e = (l.isCurrent e,
      if l.isCurrent e then b.removeAll [key e.space e.graph] else b) := by
  have hcurrent : b.isCurrent e = l.isCurrent e := by
    rw [Backlog.isCurrent, h.get?_key hs, Ledger.isCurrent]
  rw [Backlog.complete, hcurrent]
  cases l.isCurrent e <;> rfl

theorem Follows.answers (h : b.Follows l) (hc : c.Scoped OwnKey) :
    l.Answers c (b.send c).1 := by
  cases c with
  | record => exact congrArg (fun n => Reply.recorded ⟨_, _, _, n⟩) h.next
  | complete e =>
    rw [send, h.complete_eq hc]
    rfl
  | pending => exact ⟨_, rfl, nodup_values h.keyed, fun e => h.mem_pending⟩
  | pendingFor space =>
    refine ⟨_, rfl, h.keyed.nodup_pendingFor space, fun e => ?_⟩
    rw [h.keyed.mem_pendingFor (fun e => h.isSpaceName) hc, h.mem_pending]
  | forget => rfl

/-- What is put under the key of a scope, or taken away from there, changes this scope alone. -/
theorem Follows.set (h : b.Follows l) (hs : OwnKey space graph) (entry : Option Entry)
    (hentry : ∀ e, entry = some e → e.space = space ∧ e.graph = graph) {b' : Backlog} {l' : Ledger}
    (hget : ∀ k, b'.entries.get? k =
      if k = key space graph then entry else b.entries.get? k)
    (hlatest : l'.latest = (l.set space graph entry).latest) (hnext : b'.next = l'.next) :
    b'.Follows l' := by
  refine ⟨fun k e => ?_, fun s g e he => ?_, hnext⟩
  · rw [hget, hlatest, Ledger.set]
    dsimp only
    by_cases hscope : e.space = space ∧ e.graph = graph
    · obtain ⟨rfl, rfl⟩ := hscope
      simp only [and_self, if_true]
      split
      next hk => exact (and_iff_right hk).symm
      next hk => exact iff_of_false (fun he => hk ((h.get k e).mp he).1) fun he => hk he.1
    · rw [if_neg hscope]
      split
      next hk =>
        refine iff_of_false (fun he => hscope (hentry e he)) fun ⟨hkey, he⟩ => hscope ?_
        exact (h.scope _ _ _ he).1.key_inj hs (hkey.symm.trans hk)
      next => exact h.get k e
  · rw [hlatest, Ledger.set] at he
    dsimp only at he
    split at he
    next hscope =>
      obtain ⟨rfl, rfl⟩ := hscope
      exact ⟨hs, hentry e he⟩
    next => exact h.scope s g e he

/-- One call to the backlog does what it does to the map. -/
theorem Follows.after (h : b.Follows l) (hc : c.Scoped OwnKey) :
    (b.send c).2.Follows (l.after c) := by
  cases c with
  | record space graph reason =>
    refine h.set hc (some ⟨space, graph, reason, l.next⟩) ?_ (fun k => ?_) rfl ?_
    · rintro _ ⟨⟩
      exact ⟨rfl, rfl⟩
    · rw [← h.next]
      exact SortedMap.get?_insert ..
    · exact congrArg (· + 1) h.next
  | complete e =>
    rw [send, h.complete_eq hc, Ledger.after]
    dsimp only
    split
    · refine h.set hc none nofun (fun k => ?_) rfl h.next
      rw [get?_removeAll]
      simp only [List.mem_singleton]
    · exact h
  | pending | pendingFor => exact h
  | forget space =>
    refine ⟨fun k e => ?_, fun s g e he => ?_, h.next⟩
    · have hforget : (b.forget space).entries.get? k = some e ↔
          b.entries.get? k = some e ∧ isKeyOf space k = false := by
        rw [get?_forget]
        cases isKeyOf space k <;> simp
      have hafter : (l.after (.forget space)).latest e.space e.graph = some e ↔
          e.space ≠ space ∧ l.latest e.space e.graph = some e := by
        rw [Ledger.after]
        dsimp only
        split
        next hspace => exact iff_of_false (Option.some_ne_none e).symm fun he => he.1 hspace
        next hspace => exact (and_iff_right hspace).symm
      rw [send, hforget, hafter, h.get, and_assoc, and_comm (a := e.space ≠ space)]
      refine and_congr_right ?_
      rintro rfl
      refine and_congr_right fun he => ?_
      rw [← Bool.not_eq_true, isKeyOf_key (h.scope _ _ _ he).1.name hc]
    · rw [Ledger.after] at he
      dsimp only at he
      split at he
      next => cases he
      next => exact h.scope s g e he

/-! ## Runs -/

theorem follows_run (h : ∀ c ∈ calls, c.Scoped OwnKey) :
    (run calls).Follows (Ledger.run calls) := by
  induction calls using List.reverseRecOn with
  | nil => exact follows_empty
  | append_singleton calls c ih =>
    rw [run_concat, Ledger.run_concat]
    exact (ih fun c hc => h c (List.mem_append_left _ hc)).after
      (h c (List.mem_append_right _ List.mem_cons_self))

end Backlog
end DualStore
