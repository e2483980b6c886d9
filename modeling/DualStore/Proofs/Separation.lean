import DualStore.Proofs.SpaceViews

/-! Spaces are separate. Whatever else is asked of the service about other spaces, a space gets the
same answers and ends with the same store, dataset and entries (`Service.separation`). -/

namespace DualStore
namespace Service

open IndexState (Any)

variable {s t : Service MemoryIndex} {name other : String} {graph : Option Term} {e e' : Entry}

/-! ## Passes over the backlog -/

/-- The store of the space came about by writing, and keeps to the limits of the machine. -/
def HasStore (s : Service MemoryIndex) (name : String) : Prop :=
  ∀ space, s.registry.spaces.get? name = some space → space.store.Reachable ∧ space.store.Fits

/-- Rebuilds do not go by the numbers of new blank nodes. -/
theorem rebuild_alike (h : s.Alike Any name t) (hstore : s.HasStore name)
    (hg : IsGraphScope graph) :
    (rebuild name graph s).1 = (rebuild name graph t).1 ∧
      (rebuild name graph s).2.Alike Any name (rebuild name graph t).2 := by
  rw [rebuild_run, rebuild_run, Registry.get_congr h.space, h.settings]
  cases hget : t.registry.get name with
  | error e => exact ⟨rfl, h⟩
  | ok store =>
    obtain ⟨-, info, hspace⟩ := Registry.get_eq_ok.mp hget
    obtain ⟨hreachable, hf⟩ := hstore _ (h.space.trans hspace)
    obtain ⟨hvalid, hstorable⟩ := hreachable.valid hf
    have hrespects : Respects (IndexState.Alike Any name)
        (Scope.rebuild t.settings name store graph) :=
      Scope.rebuild_respects_of_storable hg fun q hq => hstorable q ((hvalid.mem_scan hf).mp hq).1
    obtain ⟨hr, hside⟩ := hrespects s.side t.side h.side
    exact ⟨hr, rfl, hside, h.space, h.waiting⟩

theorem complete_alike (hs : s.Valid) (ht : t.Valid) (h : s.Alike Any name t)
    (he : e ∈ s.backlog.pending) (he' : e' ∈ t.backlog.pending) (hsame : e.undated = e'.undated) :
    Alike Any name { s with backlog := (s.backlog.complete e).2 }
      { t with backlog := (t.backlog.complete e').2 } := by
  obtain ⟨hspace, hgraph⟩ := Entry.scope_of_undated hsame
  refine { h with waiting := ?_ }
  rw [hs.backlog.waiting_complete he, ht.backlog.waiting_complete he', h.waiting, hspace, hgraph]

/-- Work on entries of the space that are recorded on both sides goes alike. -/
theorem reconcileEntry_alike (hs : s.Valid) (ht : t.Valid) (h : s.Alike Any name t)
    (hstore : s.HasStore name) (he : e ∈ s.backlog.pending) (he' : e' ∈ t.backlog.pending)
    (hspace : e.space = name) (hsame : e.undated = e'.undated) (sum sum' : Summary) :
    (reconcileEntry sum e s).2.Alike Any name (reconcileEntry sum' e' t).2 ∧
      (sum = sum' → (reconcileEntry sum e s).1 = (reconcileEntry sum' e' t).1) := by
  obtain ⟨hspace', hgraph⟩ := Entry.scope_of_undated hsame
  rw [hspace] at hspace'
  have hrebuild := rebuild_alike h hstore (hs.backlog.isScope he).graph
  have hvalid := rebuild_valid hs name e.graph
  have hvalid' := rebuild_valid ht name e.graph
  have hbacklog := backlog_rebuild name e.graph s
  have hbacklog' := backlog_rebuild name e.graph t
  rw [reconcileEntry_run, reconcileEntry_run, hspace, ← hspace', ← hgraph,
    Registry.contains_congr h.space]
  split
  · generalize rebuild name e.graph s = r at *
    generalize rebuild name e.graph t = r' at *
    obtain ⟨fault | n, s₁⟩ := r <;> obtain ⟨r', t₁⟩ := r' <;> obtain ⟨hr, halike⟩ := hrebuild <;>
      cases hr
    · exact ⟨halike, fun hsum => by rw [hsum]⟩
    · have hdone := (hvalid.backlog.complete_pending (hbacklog ▸ he)).1
      have hdone' := (hvalid'.backlog.complete_pending (hbacklog' ▸ he')).1
      refine ⟨complete_alike hvalid hvalid' halike (hbacklog ▸ he) (hbacklog' ▸ he') hsame,
        fun hsum => ?_⟩
      dsimp only at hdone hdone' ⊢
      rw [hdone, hdone', hsum]
  · exact ⟨complete_alike hs ht h he he' hsame, fun hsum => by rw [hsum]⟩

/-- Work on an entry leaves the others. -/
theorem mem_pending_reconcileEntry (hs : s.Valid) (he : e ∈ s.backlog.pending)
    (he' : e' ∈ s.backlog.pending) (hne : e' ≠ e) (sum : Summary) :
    e' ∈ (reconcileEntry sum e s).2.backlog.pending := by
  have hvalid := rebuild_valid hs e.space e.graph
  have hbacklog := backlog_rebuild e.space e.graph s
  rw [reconcileEntry_run]
  split
  · generalize rebuild e.space e.graph s = r at *
    obtain ⟨fault | n, s₁⟩ := r
    · exact hbacklog ▸ he'
    · exact ((hvalid.backlog.complete_pending (hbacklog ▸ he)).2 e').mpr ⟨hbacklog ▸ he', hne⟩
  · exact ((hs.backlog.complete_pending he).2 e').mpr ⟨he', hne⟩

/-- A pass over recorded entries comes, for a space, to a pass over those that are its own. -/
theorem reconcileEntries_alike {es es' : List Entry} (hs : s.Valid) (ht : t.Valid)
    (h : s.Alike Any name t) (hstore : s.HasStore name) (hnodup : es.Nodup) (hnodup' : es'.Nodup)
    (hes : ∀ e ∈ es, e ∈ s.backlog.pending) (hes' : ∀ e ∈ es', e ∈ t.backlog.pending)
    (hown : (es.filter (·.space = name)).map Entry.undated = es'.map Entry.undated)
    (sum sum' : Summary) :
    (reconcileEntries sum es s).2.Alike Any name (reconcileEntries sum' es' t).2 ∧
      (sum = sum' → (∀ e ∈ es, e.space = name) →
        (reconcileEntries sum es s).1 = (reconcileEntries sum' es' t).1) := by
  induction es generalizing es' s t sum sum' with
  | nil =>
    obtain rfl : es' = [] := List.map_eq_nil_iff.mp hown.symm
    exact ⟨h, fun hsum _ => congrArg Except.ok hsum⟩
  | cons e es ih =>
    obtain ⟨hfirst, hrest⟩ := List.nodup_cons.mp hnodup
    obtain ⟨he, hes⟩ := List.forall_mem_cons.mp hes
    obtain ⟨sum₁, hrun₁, hrun⟩ := reconcileEntries_cons (s := s) sum e es
    have hvalid := reconcileEntry_valid hs sum e
    have hstore₁ : (reconcileEntry sum e s).2.HasStore name := fun space hget =>
      hstore space (registry_reconcileEntry sum e s ▸ hget)
    have hes₁ : ∀ e' ∈ es, e' ∈ (reconcileEntry sum e s).2.backlog.pending := fun e' he' =>
      mem_pending_reconcileEntry hs he (hes e' he') (fun heq => hfirst (heq ▸ he')) sum
    rw [hrun]
    by_cases hspace : e.space = name
    · rw [List.filter_cons, if_pos (decide_eq_true hspace), List.map_cons] at hown
      obtain ⟨e', es', rfl, hsame, hown⟩ := List.map_eq_cons_iff.mp hown.symm
      obtain ⟨hfirst', hrest'⟩ := List.nodup_cons.mp hnodup'
      obtain ⟨he', hes'⟩ := List.forall_mem_cons.mp hes'
      obtain ⟨sum₁', hrun₁', hrun'⟩ := reconcileEntries_cons (s := t) sum' e' es'
      obtain ⟨halike, hresult⟩ :=
        reconcileEntry_alike hs ht h hstore he he' hspace hsame.symm sum sum'
      have hes₁' : ∀ u ∈ es', u ∈ (reconcileEntry sum' e' t).2.backlog.pending := fun u hu =>
        mem_pending_reconcileEntry ht he' (hes' u hu) (fun heq => hfirst' (heq ▸ hu)) sum'
      obtain ⟨hpass, hresults⟩ := ih hvalid (reconcileEntry_valid ht sum' e') halike hstore₁ hrest
        hrest' hes₁ hes₁' hown.symm sum₁ sum₁'
      rw [hrun']
      refine ⟨hpass, fun hsum hall => hresults ?_ (List.forall_mem_cons.mp hall).2⟩
      have heq := hresult hsum
      rw [hrun₁, hrun₁'] at heq
      exact Except.ok.inj heq
    · rw [List.filter_cons, if_neg (by simpa using hspace)] at hown
      have hkeeps := (reconcileEntry_agreesBut hs (hs.backlog.isScope he) sum).alike hs hvalid
        (Ne.symm hspace)
      obtain ⟨hpass, -⟩ := ih hvalid ht (hkeeps.trans h) hstore₁ hrest hnodup' hes₁ hes' hown
        sum₁ sum'
      exact ⟨hpass, fun _ hall => absurd (hall e List.mem_cons_self) hspace⟩

/-- The own entries of a space, in a pass over them or over all. -/
private theorem pass_alike {es : List Entry} (hs : s.Valid) (ht : t.Valid)
    (h : s.Alike Any name t) (hstore : s.HasStore name) (hnodup : es.Nodup)
    (hes : ∀ e ∈ es, e ∈ s.backlog.pending)
    (hown : es.filter (·.space = name) = s.backlog.pendingFor name) :
    (reconcileEntries {} es s).2.Alike Any name (reconcileSpace name t).2 ∧
      ((∀ e ∈ es, e.space = name) →
        (reconcileEntries {} es s).1 = (reconcileSpace name t).1) := by
  have hnodup' : (t.backlog.pendingFor name).Nodup := by
    rw [← ht.backlog.filter_pending]
    exact ht.backlog.nodup_pending.filter _
  have hundated : (es.filter (·.space = name)).map Entry.undated =
      (t.backlog.pendingFor name).map Entry.undated := by
    rw [hown, ← Backlog.values_waiting, h.waiting, Backlog.values_waiting]
  obtain ⟨halike, hresult⟩ := reconcileEntries_alike hs ht h hstore hnodup hnodup' hes
    (fun e he => Backlog.mem_pending_of_mem_pendingFor he) hundated {} {}
  exact ⟨halike, hresult rfl⟩

theorem reconcilePending_alike (hs : s.Valid) (ht : t.Valid) (h : s.Alike Any name t)
    (hstore : s.HasStore name) :
    (reconcilePending s).2.Alike Any name (reconcilePending t).2 := by
  have hstore' : t.HasStore name := fun space hget => hstore space (h.space.trans hget)
  obtain ⟨hpass, -⟩ := pass_alike hs ht h hstore hs.backlog.nodup_pending (fun _ he => he)
    (hs.backlog.filter_pending name)
  obtain ⟨hpass', -⟩ := pass_alike ht ht (.refl name t) hstore' ht.backlog.nodup_pending
    (fun _ he => he) (ht.backlog.filter_pending name)
  rw [reconcilePending_run, reconcilePending_run]
  exact hpass.trans hpass'.symm

theorem reconcileSpace_alike (hs : s.Valid) (ht : t.Valid) (h : s.Alike Any name t)
    (hstore : s.HasStore name) :
    (reconcileSpace name s).1 = (reconcileSpace name t).1 ∧
      (reconcileSpace name s).2.Alike Any name (reconcileSpace name t).2 := by
  have hown : ∀ e ∈ s.backlog.pendingFor name, e.space = name := by
    rw [← hs.backlog.filter_pending]
    exact fun e he => of_decide_eq_true (List.mem_filter.mp he).2
  have hnodup : (s.backlog.pendingFor name).Nodup := by
    rw [← hs.backlog.filter_pending]
    exact hs.backlog.nodup_pending.filter _
  obtain ⟨halike, hresult⟩ := pass_alike hs ht h hstore hnodup
    (fun e he => Backlog.mem_pending_of_mem_pendingFor he)
    (List.filter_eq_self.mpr fun e he => decide_eq_true (hown e he))
  exact ⟨hresult hown, halike⟩

end Service

/-! ## Events -/

/-- A call, or a question that changes nothing besides the numbers of new blank nodes. -/
inductive Event where
  | call (c : Call)
  | listSpaces
  | listGraphs (space : String)
  | readStore (space : String)
  | query (space : String) (p : QuadPattern)
  | queryDocument (space : String) (p : QuadPattern)
  /-- The batch that a body stands for. -/
  | translate (space : String) (body : Body) (action : Action)

/-- The space that an event names. -/
def Event.space? : Event → Option String
  | call (.reconcileSpace space) => some space
  | call c => c.space?
  | listSpaces => none
  | listGraphs space | readStore space | query space _ | queryDocument space _
  | translate space _ _ => some space

/-- What an event is answered with, unless it fails. -/
inductive Finding where
  | done
  | space (info : SpaceInfo)
  | spaces (infos : List SpaceInfo)
  | graphs (graphs : List Term)
  | store (store : Store)
  | quads (quads : List Quad)
  | document (content : Json)
  | batch (b : Batch)
  | outcome (o : Outcome)
  | rebuilt (quads : Nat)
  | report (report : Report)
  | answer (answer : Answer)
  | summary (summary : Summary)

namespace Service

def respond : Event → ServiceM MemoryIndex Finding
  | .call (.createSpace name createdAt) => return .space (← createSpace name createdAt)
  | .call (.dropSpace name) => do dropSpace name; return .done
  | .call (.applyBatch b validate) => return .outcome (← applyBatch b validate)
  | .call (.update space body action validate) =>
    return .outcome (← update space body action validate)
  | .call (.rebuild space graph) => return .rebuilt (← rebuild space graph)
  | .call (.check space graph) => return .report (← check space graph)
  | .call (.sparqlQuery space text) => return .answer (← sparqlQuery space text)
  | .call .reconcilePending => return .summary (← reconcilePending)
  | .call (.reconcileSpace space) => return .summary (← reconcileSpace space)
  | .call (.setAvailable available) => do
    modify fun s => { s with side := { s.side with index := { s.side.index with available } } }
    return .done
  | .listSpaces => return .spaces (← listSpaces)
  | .listGraphs space => return .graphs (← listGraphs space)
  | .readStore space => return .store (← store space)
  | .query space p => return .quads (← query space p)
  | .queryDocument space p => return .document (← queryDocument space p)
  | .translate space body action => return .batch (← batchFor space body action)

/-- A call leaves behind the same, whether or not its answer is looked at. -/
theorem respond_call (c : Call) (s : Service MemoryIndex) :
    (respond (.call c) s).2 = s.perform c := by
  cases c with
  | setAvailable available => rfl
  | _ => exact congrArg Prod.snd (bind_pure_run _ _)

open IndexState (Any)

variable {s t : Service MemoryIndex} {name : String} {event : Event} {e : Entry}

/-- A question changes nothing besides the numbers of new blank nodes. -/
theorem respond_sameBut (h : ∀ c, event ≠ .call c) : SameBut s (respond event s).2 := by
  have hstore : ∀ space, Keeps SameBut (store (ι := MemoryIndex) space) := fun _ =>
    refl_of SameBut
  have hquery : ∀ space p, Keeps SameBut (query (ι := MemoryIndex) space p) := fun space _ =>
    (hstore space).bind fun _ => .pure _
  cases event with
  | call c => exact absurd rfl (h c)
  | listSpaces => exact refl_of SameBut s
  | listGraphs space => exact ((hstore space).bind fun _ => .pure _).bind (fun _ => .pure _) s
  | readStore space => exact (hstore space).bind (fun _ => .pure _) s
  | query space p => exact (hquery space p).bind (fun _ => .pure _) s
  | queryDocument space p =>
    exact ((hquery space p).bind fun _ => .pure _).bind (fun _ => .pure _) s
  | translate space body action =>
    rw [respond, bind_pure_run, batchFor_run]
    split
    · exact refl_of SameBut s
    split
    · exact refl_of SameBut s
    · exact ⟨_, rfl⟩

theorem respond_valid (hs : s.Valid) (event : Event) : (respond event s).2.Valid := by
  by_cases h : ∃ c, event = .call c
  · obtain ⟨c, rfl⟩ := h
    rw [respond_call]
    exact perform_valid hs c
  · exact (respond_sameBut fun c hc => h ⟨c, hc⟩).valid hs

theorem space_of_mem_pendingFor (hs : s.Valid) (he : e ∈ s.backlog.pendingFor name) :
    e.space = name := by
  rw [← hs.backlog.filter_pending] at he
  exact of_decide_eq_true (List.mem_filter.mp he).2

theorem reconcileSpace_agreesBut (hs : s.Valid) : AgreesBut name s (reconcileSpace name s).2 := by
  refine (reconcileEntries_induction (P := fun t => t.Valid ∧ AgreesBut name s t)
    (fun e he sum t ht => ⟨reconcileEntry_valid ht.1 sum e, ?_⟩)
    ⟨hs, refl_of (AgreesBut name) s⟩).2
  have hscope := hs.backlog.isScope (Backlog.mem_pending_of_mem_pendingFor he)
  have hagrees := reconcileEntry_agreesBut ht.1 hscope sum
  rw [space_of_mem_pendingFor hs he] at hagrees
  exact trans_of (AgreesBut name) ht.2 hagrees

/-- An event leaves the spaces alone that it does not name. -/
theorem respond_agreesBut (hs : s.Valid) (h : event.space? = some name) :
    AgreesBut name s (respond event s).2 := by
  cases event with
  | call c =>
    rw [respond_call]
    cases c with
    | reconcileSpace space =>
      cases h
      exact reconcileSpace_agreesBut hs
    | _ => exact perform_agreesBut hs h
  | _ => exact (respond_sameBut fun _ h => by cases h).agreesBut

/-- An event that names the space goes by what the space can tell of the service. -/
theorem respond_alike (hs : s.Valid) (ht : t.Valid) (halike : s.Alike Eq name t)
    (hstore : s.HasStore name) (h : event.space? = some name) :
    (respond event s).1 = (respond event t).1 ∧
      (respond event s).2.Alike Any name (respond event t).2 := by
  have of_respects : Respects (Alike Eq name) (respond event) →
      (respond event s).1 = (respond event t).1 ∧
        (respond event s).2.Alike Any name (respond event t).2 := fun hrespects =>
    ⟨(hrespects s t halike).1, (hrespects s t halike).2.any⟩
  have hread : ∀ {α : Type} (f : Store → α), Respects (Alike Eq name)
      (store (ι := MemoryIndex) name >>= fun store => pure (f store)) := fun _ =>
    store_respects.bind fun _ => .pure _
  cases event with
  | call c =>
    cases c with
    | createSpace => cases h; exact of_respects (createSpace_respects.bind fun _ => .pure _)
    | dropSpace => cases h; exact of_respects (dropSpace_respects.bind fun _ => .pure _)
    | applyBatch => cases h; exact of_respects ((applyBatch_respects _ _).bind fun _ => .pure _)
    | update => cases h; exact of_respects ((update_respects _ _ _).bind fun _ => .pure _)
    | rebuild => cases h; exact of_respects (rebuild_respects.bind fun _ => .pure _)
    | check => cases h; exact of_respects (check_respects.bind fun _ => .pure _)
    | sparqlQuery => cases h; exact of_respects ((sparqlQuery_respects _).bind fun _ => .pure _)
    | reconcileSpace =>
      cases h
      obtain ⟨hresult, hafter⟩ := reconcileSpace_alike hs ht halike.any hstore
      rw [respond, bind_pure_run, bind_pure_run, hresult]
      exact ⟨rfl, hafter⟩
    | reconcilePending | setAvailable => cases h
  | listSpaces => cases h
  | listGraphs => cases h; exact of_respects ((hread _).bind fun _ => .pure _)
  | readStore => cases h; exact of_respects (store_respects.bind fun _ => .pure _)
  | query => cases h; exact of_respects ((hread _).bind fun _ => .pure _)
  | queryDocument =>
    cases h
    exact of_respects (((hread _).bind fun _ => .pure _).bind fun _ => .pure _)
  | translate => cases h; exact of_respects ((batchFor_respects _ _).bind fun _ => .pure _)

/-- What becomes of the index or of the whole backlog shows alike to a space, whatever else there
is. -/
theorem respond_alike_of_unnamed (hs : s.Valid) (ht : t.Valid) (halike : s.Alike Any name t)
    (hstore : s.HasStore name) (h : event.space? = none) :
    (respond event s).2.Alike Any name (respond event t).2 := by
  cases event with
  | call c =>
    rw [respond_call, respond_call]
    cases c with
    | reconcilePending => exact reconcilePending_alike hs ht halike hstore
    | setAvailable available =>
      have hindex := halike.side.index
      exact { halike with side := ⟨⟨rfl, hindex.delay, hindex.dataset⟩, trivial⟩ }
    | _ => cases h
  | listSpaces => exact halike
  | _ => cases h

/-! ## Stores -/

/-- A store that came about by writing is written to. -/
theorem Written.reachable {c : Call} {store : Store} (h : Written s c name store)
    (hs : ∀ space, s.registry.spaces.get? name = some space → space.store.Reachable) :
    store.Reachable := by
  cases h with
  | kept hold hstore => exact hstore ▸ hs _ hold
  | empty hstore => exact hstore ▸ .empty
  | applied hold hb happly => exact .write (hs _ hold) happly

end Service

/-! ## Runs -/

/-- An event, and the number from which on it numbers new blank nodes. As the time of creation does,
the number comes from outside. -/
structure Turn where
  number : Nat
  event : Event

/-- The turn names no space but this one. -/
def Turn.Concerns (name : String) (turn : Turn) : Prop := ∀ space ∈ turn.event.space?, space = name

instance (name : String) : DecidablePred (Turn.Concerns name) := fun turn =>
  inferInstanceAs (Decidable (∀ space ∈ turn.event.space?, space = name))

/-- What there is of a space on either side, and what is recorded of it. -/
structure Holding where
  space : Option Space
  dataset : Option (SortedSet Quad)
  entries : List Entry

namespace Service

open IndexState (Any)

variable {s t start : Service MemoryIndex} {name : String} {turn : Turn} {turns : List Turn}

def take (s : Service MemoryIndex) (turn : Turn) : Except Error Finding × Service MemoryIndex :=
  respond turn.event { s with side := { s.side with next := turn.number } }

/-- What turns leave behind, one after the other. -/
def after (s : Service MemoryIndex) (turns : List Turn) : Service MemoryIndex :=
  turns.foldl (fun s turn => (s.take turn).2) s

/-- The answers to the turns that name the space. -/
def answersTo (name : String) : Service MemoryIndex → List Turn → List (Except Error Finding)
  | _, [] => []
  | s, turn :: turns =>
    if turn.event.space? = some name then
      (s.take turn).1 :: answersTo name (s.take turn).2 turns
    else answersTo name (s.take turn).2 turns

/-- What there is of a space, but for the generations of its entries. -/
def holding (s : Service MemoryIndex) (name : String) : Holding :=
  ⟨s.registry.spaces.get? name, s.side.index.datasets.get? name,
    (s.backlog.pendingFor name).map Entry.undated⟩

/-- Before each turn, the store of the space keeps to the limits of the machine. -/
def FitsThrough (name : String) : Service MemoryIndex → List Turn → Prop
  | _, [] => True
  | s, turn :: turns => (∀ space ∈ s.registry.spaces.get? name, space.store.Fits) ∧
      FitsThrough name (s.take turn).2 turns

instance decidableFitsThrough (name : String) : ∀ (s : Service MemoryIndex) (turns : List Turn),
    Decidable (s.FitsThrough name turns)
  | _, [] => isTrue trivial
  | s, turn :: turns =>
    have := decidableFitsThrough name (s.take turn).2 turns
    inferInstanceAs (Decidable ((∀ space ∈ s.registry.spaces.get? name, space.store.Fits) ∧
      FitsThrough name (s.take turn).2 turns))

/-- The turns that the service takes if it goes by its own numbers (`after_numbered`). -/
def numbered (s : Service MemoryIndex) : List Event → List Turn
  | [] => []
  | event :: events => ⟨s.side.next, event⟩ :: numbered (respond event s).2 events

theorem after_numbered (calls : List Call) :
    s.after (s.numbered (calls.map .call)) = s.run calls := by
  induction calls generalizing s with
  | nil => rfl
  | cons c calls ih => exact ih.trans (congrArg (run · calls) (respond_call c s))

theorem Alike.holding (h : s.Alike Any name t) : s.holding name = t.holding name := by
  rw [Service.holding, Service.holding, h.space, h.side.index.dataset, ← Backlog.values_waiting,
    h.waiting, Backlog.values_waiting]

/-- The number of a turn does not show. -/
theorem alike_numbered (s : Service MemoryIndex) (turn : Turn) :
    Alike Any name { s with side := { s.side with next := turn.number } } s :=
  SameBut.alike ⟨turn.number, rfl⟩

theorem take_valid (hs : s.Valid) (turn : Turn) : (s.take turn).2.Valid :=
  respond_valid (valid_of_side hs _) turn.event

theorem take_reachable
    (hs : ∀ space, s.registry.spaces.get? name = some space → space.store.Reachable)
    (turn : Turn) : ∀ space, (s.take turn).2.registry.spaces.get? name = some space →
      space.store.Reachable := by
  intro space hget
  unfold take at hget
  by_cases h : ∃ c, turn.event = .call c
  · obtain ⟨c, hc⟩ := h
    rw [hc, respond_call] at hget
    exact (written_perform hget).reachable hs
  · rw [(respond_sameBut fun c hc => h ⟨c, hc⟩).registry] at hget
    exact hs space hget

/-- A turn about another space does not show. -/
theorem take_alike_of_other (hs : s.Valid) {other : String} (h : turn.event.space? = some other)
    (hne : name ≠ other) : (s.take turn).2.Alike Any name s :=
  have hs' := valid_of_side hs { s.side with next := turn.number }
  ((respond_agreesBut hs' h).alike hs' (take_valid hs turn) hne).trans (alike_numbered s turn)

/-- A turn about the space is answered alike, and shows alike. -/
theorem take_alike (hs : s.Valid) (ht : t.Valid) (halike : s.Alike Any name t)
    (hstore : s.HasStore name) (h : turn.event.space? = some name) :
    (s.take turn).1 = (t.take turn).1 ∧ (s.take turn).2.Alike Any name (t.take turn).2 :=
  respond_alike (valid_of_side hs _) (valid_of_side ht _)
    { halike with side := ⟨halike.side.index, rfl⟩ } hstore h

theorem take_alike_of_unnamed (hs : s.Valid) (ht : t.Valid) (halike : s.Alike Any name t)
    (hstore : s.HasStore name) (h : turn.event.space? = none) :
    (s.take turn).2.Alike Any name (t.take turn).2 :=
  respond_alike_of_unnamed (valid_of_side hs _) (valid_of_side ht _)
    { halike with side := ⟨halike.side.index, trivial⟩ } hstore h

/-- Services that a space cannot tell apart answer it alike, if one of them takes all turns and the
other those that concern the space. -/
theorem after_alike (hs : s.Valid) (ht : t.Valid) (h : s.Alike Any name t)
    (hstore : ∀ space, s.registry.spaces.get? name = some space → space.store.Reachable)
    (hf : s.FitsThrough name turns) :
    answersTo name s turns = answersTo name t (turns.filter (Turn.Concerns name ·)) ∧
      (s.after turns).Alike Any name (t.after (turns.filter (Turn.Concerns name ·))) := by
  induction turns generalizing s t with
  | nil => exact ⟨rfl, h⟩
  | cons turn turns ih =>
    obtain ⟨hfits, hf⟩ := hf
    have hhas : s.HasStore name := fun space hget => ⟨hstore space hget, hfits space hget⟩
    have hs' := take_valid hs turn
    have ht' := take_valid ht turn
    have hstore' := take_reachable hstore turn
    rw [answersTo]
    cases hspace : turn.event.space? with
    | none =>
      have hkeep : turn.Concerns name := by simp [Turn.Concerns, hspace]
      rw [List.filter_cons, if_pos (decide_eq_true hkeep), answersTo, hspace, if_neg nofun,
        if_neg nofun]
      exact ih hs' ht' (take_alike_of_unnamed hs ht h hhas hspace) hstore' hf
    | some other =>
      by_cases hname : other = name
      · subst hname
        have hkeep : turn.Concerns other := by simp [Turn.Concerns, hspace]
        obtain ⟨hanswer, halike⟩ := take_alike hs ht h hhas hspace
        obtain ⟨hanswers, hafter⟩ := ih hs' ht' halike hstore' hf
        rw [List.filter_cons, if_pos (decide_eq_true hkeep), answersTo, hspace, if_pos rfl,
          if_pos rfl, hanswer, hanswers]
        exact ⟨rfl, hafter⟩
      · have hdrop : ¬ turn.Concerns name := by simp [Turn.Concerns, hspace, hname]
        rw [List.filter_cons, if_neg (by simpa using hname), if_neg (by simpa using hdrop)]
        exact ih hs' ht ((take_alike_of_other hs hspace (Ne.symm hname)).trans h) hstore' hf

/-- Take any turns, and leave out those that name another space. The turns that name this one are
answered as before, and its store with the dictionary, its dataset and its entries are the same in
the end. Turns keep their numbers, so new blank nodes have the same labels. -/
theorem separation (hs : start.Valid)
    (hstore : ∀ space, start.registry.spaces.get? name = some space → space.store.Reachable)
    (hf : start.FitsThrough name turns) :
    answersTo name start turns = answersTo name start (turns.filter (Turn.Concerns name ·)) ∧
      (start.after turns).holding name =
        (start.after (turns.filter (Turn.Concerns name ·))).holding name := by
  obtain ⟨hanswers, hafter⟩ := after_alike hs hs (.refl name start) hstore hf
  exact ⟨hanswers, hafter.holding⟩

/-- While the index is off, two spaces are written to whose names start alike. The one is dropped,
and a pass over the backlog brings the quad of the other to the index. -/
theorem separation_outage :
    let start : Service MemoryIndex := { side := { index := {} } }
    let q : Quad := ⟨.blank "b", .iri "x:p", .plain "v", .iri "x:g"⟩
    let insert (space : String) : Event := .call (.applyBatch ⟨space, [⟨.insert, q⟩]⟩ false)
    let turns : List Turn := [⟨0, .call (.createSpace "a" "1")⟩, ⟨1, .call (.createSpace "ab" "2")⟩,
      ⟨2, .call (.setAvailable false)⟩, ⟨3, insert "a"⟩, ⟨4, insert "ab"⟩,
      ⟨5, .call (.setAvailable true)⟩, ⟨6, .call (.dropSpace "ab")⟩, ⟨7, .call .reconcilePending⟩,
      ⟨8, .call (.check "a" none)⟩]
    let kept := turns.filter (Turn.Concerns "a" ·)
    kept.map Turn.number = [0, 2, 3, 5, 7, 8] ∧ start.Valid ∧ start.FitsThrough "a" turns ∧
      answersTo "a" start turns = answersTo "a" start kept ∧
      (start.after turns).holding "a" = (start.after kept).holding "a" ∧
      (start.after turns).mirror "a" = Quad.skolemizeAll (.ofList [q]) := by
  intro start q insert turns kept
  have hstart : start.Fresh := ⟨rfl, rfl, rfl⟩
  have hf : start.FitsThrough "a" turns := by decide +kernel
  obtain ⟨hanswers, hholding⟩ := separation hstart.valid nofun hf
  exact ⟨by decide +kernel, hstart.valid, hf, hanswers, hholding, by decide +kernel⟩

end Service
end DualStore
