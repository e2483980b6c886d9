import DualStore.Plan
import DualStore.Proofs.Solutions

/-! Plans of whole requests. What an update does depends on the quads that it reads alone
(`Update.effect_plan_congr`), and so does what a list of updates does (`Update.planAll_congr`).
Planning a list of updates against one set, each on top of the operations staged by those before
it, comes to the same as performing them one at a time, each planned against the set that is really
there (`Update.planAll_eq_performEach`). -/

namespace DualStore

variable {src src' : Source} {s s' : SortedSet Quad} {q : Quad} {qs qs' : List Quad}

/-! ## Operations of one kind -/

namespace Operation

theorem mem_applyAll_inserts : q ∈ applyAll s (inserts qs) ↔ q ∈ qs ∨ q ∈ s := by
  induction qs generalizing s with
  | nil => simp [inserts]
  | cons p qs ih =>
    have := ih (s := s.insert p)
    simp only [inserts, List.map_cons, applyAll_cons, apply] at this ⊢
    rw [this, SortedSet.mem_insert, List.mem_cons, or_left_comm, or_assoc]

theorem mem_applyAll_deletes : q ∈ applyAll s (deletes qs) ↔ q ∈ s ∧ q ∉ qs := by
  induction qs generalizing s with
  | nil => simp [deletes]
  | cons p qs ih =>
    have := ih (s := s.erase p)
    simp only [deletes, List.map_cons, applyAll_cons, apply] at this ⊢
    rw [this, SortedSet.mem_erase, List.mem_cons, not_or, and_assoc, and_left_comm]

theorem applyAll_inserts_congr (h : ∀ q, q ∈ qs ↔ q ∈ qs') :
    applyAll s (inserts qs) = applyAll s (inserts qs') :=
  SortedSet.ext fun q => by rw [mem_applyAll_inserts, mem_applyAll_inserts, h]

theorem applyAll_deletes_congr (h : ∀ q, q ∈ qs ↔ q ∈ qs') :
    applyAll s (deletes qs) = applyAll s (deletes qs') :=
  SortedSet.ext fun q => by rw [mem_applyAll_deletes, mem_applyAll_deletes, h]

end Operation

/-! ## What updates read -/

/-- A quad that a target stands for. -/
def GraphTarget.covers (q : Quad) : GraphTarget → Bool
  | default => q.graph == .defaultGraph
  | named => !q.inDefaultGraph
  | all => true
  | graph t => q.graph == t

namespace Update

open Operation (applyAll lastOnly applyAll_append applyAll_lastOnly)

/-- A quad that a pattern of an update reads, or that is in a graph whose quads are looked up. -/
def reads (q : Quad) : Update → Bool
  | insertData _ | deleteData _ => false
  | deleteWhere templates => Group.reads (templates.map (·.pattern)) q
  | modify _ _ pattern => pattern.reads q
  | create silent graph => !silent && q.graph == graph
  | drop _ target | clear _ target => target.covers q
  | transfer mode _ source destination => source ≠ destination &&
      (q.graph == source.getD .defaultGraph ||
        mode.replaces && q.graph == destination.getD .defaultGraph)

/-! ## Single updates -/

/-- The templates of what an update deletes, and of what it inserts. -/
def deleteTemplates : Update → List QuadTemplate
  | deleteWhere templates => templates
  | modify delete _ _ => delete
  | _ => []

@[inherit_doc deleteTemplates]
def insertTemplates : Update → List QuadTemplate
  | modify _ insert _ => insert
  | _ => []

/-- No template has a blank node. The grammar sees to this for what is deleted
(`ofText_deleteTemplates`). -/
structure BlankFree (u : Update) : Prop where
  delete : ∀ t ∈ u.deleteTemplates, t.BlankFree
  insert : ∀ t ∈ u.insertTemplates, t.BlankFree

instance (u : Update) : Decidable u.BlankFree :=
  decidable_of_iff ((∀ t ∈ u.deleteTemplates, t.BlankFree) ∧ ∀ t ∈ u.insertTemplates, t.BlankFree)
    ⟨fun h => ⟨h.1, h.2⟩, fun h => ⟨h.1, h.2⟩⟩

/-- The set that is left of `s`, or why there is none. -/
def effect (s : SortedSet Quad) (plan : Except GraphFault (List Operation × Nat)) :
    Except GraphFault (SortedSet Quad) := plan.map fun r => applyAll s r.1

theorem mem_quadsIn (h : src.Lawful s) (g : Term) (q : Quad) :
    q ∈ src.quadsIn g ↔ q ∈ s ∧ q.graph = g := by
  rw [Source.quadsIn, (h _).2, QuadPattern.accepts]
  refine and_congr_right fun _ => ?_
  simp only [QuadPattern.ofGraph, Option.all_none, Option.all_some, Bool.true_and, beq_iff_eq]
  exact eq_comm

theorem mem_matching_all (h : src.Lawful s) (q : Quad) : q ∈ src.matching {} ↔ q ∈ s :=
  ((h _).2 q).trans (and_iff_left rfl)

/-- The quads of a graph, where sets agree on it. -/
private theorem mem_quadsIn_congr {g : Term} (h : src.Lawful s) (h' : src'.Lawful s')
    (hs : s.AgreeOn (·.graph == g) s') (q : Quad) : q ∈ src.quadsIn g ↔ q ∈ src'.quadsIn g := by
  rw [mem_quadsIn h, mem_quadsIn h']
  exact and_congr_left fun hq => hs q (beq_iff_eq.mpr hq)

private theorem isEmpty_quadsIn_congr {g : Term} (h : src.Lawful s) (h' : src'.Lawful s')
    (hs : s.AgreeOn (·.graph == g) s') : (src.quadsIn g).isEmpty = (src'.quadsIn g).isEmpty := by
  rw [Bool.eq_iff_iff]
  simp only [List.isEmpty_iff, List.eq_nil_iff_forall_not_mem, mem_quadsIn_congr h h' hs]

private theorem planModify_effect {delete insert : List QuadTemplate} {pattern : Group}
    (hd : ∀ t ∈ delete, t.BlankFree) (hi : ∀ t ∈ insert, t.BlankFree) (h : src.Lawful s)
    (h' : src'.Lawful s') (hs : s.AgreeOn pattern.reads s') (next next' : Nat)
    (r : SortedSet Quad) : applyAll r (planModify src next delete insert pattern).1 =
      applyAll r (planModify src' next' delete insert pattern).1 := by
  have hsols : ∀ sol, sol ∈ pattern.solutions src ↔ sol ∈ pattern.solutions src' := fun _ =>
    (Group.solutions_perm h h' hs).mem_iff
  simp only [planModify, applyAll_append]
  have hdeletes : ∀ q, q ∈ QuadTemplate.quads delete
        (QuadTemplate.nameBlanks (delete ++ insert) next (pattern.solutions src)).1 ↔
      q ∈ QuadTemplate.quads delete
        (QuadTemplate.nameBlanks (delete ++ insert) next' (pattern.solutions src')).1 := by
    simp only [QuadTemplate.mem_quads_nameBlanks hd, hsols, implies_true]
  rw [Operation.applyAll_deletes_congr hdeletes]
  refine Operation.applyAll_inserts_congr fun q => ?_
  simp only [QuadTemplate.mem_quads_nameBlanks hi, hsols]

private theorem planDrop_effect {target : GraphTarget} (h : src.Lawful s) (h' : src'.Lawful s')
    (hs : s.AgreeOn target.covers s') (silent : Bool) (r : SortedSet Quad) :
    (planDrop src silent target).map (applyAll r) =
      (planDrop src' silent target).map (applyAll r) := by
  cases target with
  | default =>
    exact congrArg Except.ok (Operation.applyAll_deletes_congr (mem_quadsIn_congr h h' hs))
  | all =>
    refine congrArg Except.ok (Operation.applyAll_deletes_congr fun q => ?_)
    rw [mem_matching_all h, mem_matching_all h', hs q rfl]
  | named =>
    refine congrArg Except.ok (Operation.applyAll_deletes_congr fun q => ?_)
    rw [List.mem_filter, List.mem_filter, mem_matching_all h, mem_matching_all h']
    exact and_congr_left (hs q)
  | graph t =>
    simp only [planDrop, isEmpty_quadsIn_congr h h' hs]
    split
    · rfl
    · exact congrArg Except.ok (Operation.applyAll_deletes_congr (mem_quadsIn_congr h h' hs))

private theorem planTransfer_effect {mode : TransferMode} {silent : Bool}
    {source destination : Option Term} (h : src.Lawful s) (h' : src'.Lawful s')
    (hs : s.AgreeOn (reads · (.transfer mode silent source destination)) s')
    (r : SortedSet Quad) : (planTransfer src mode silent source destination).map (applyAll r) =
      (planTransfer src' mode silent source destination).map (applyAll r) := by
  by_cases hsame : source = destination
  · simp only [planTransfer, if_pos hsame]
  have hreads : ∀ q, (q.graph == source.getD .defaultGraph ||
      mode.replaces && q.graph == destination.getD .defaultGraph) = true → (q ∈ s ↔ q ∈ s') :=
    fun q hq => hs q (Bool.and_eq_true_iff.mpr ⟨decide_eq_true hsame, hq⟩)
  have hsource : s.AgreeOn (·.graph == source.getD .defaultGraph) s' := fun q hq =>
    hreads q (Bool.or_eq_true_iff.mpr (.inl hq))
  have hin := mem_quadsIn_congr h h' hsource
  have hmap : ∀ q, q ∈ (src.quadsIn (source.getD .defaultGraph)).map
      (·.withGraph (destination.getD .defaultGraph)) ↔ q ∈ (src'.quadsIn
        (source.getD .defaultGraph)).map (·.withGraph (destination.getD .defaultGraph)) := by
    simp only [List.mem_map, hin, implies_true]
  simp only [planTransfer, if_neg hsame, isEmpty_quadsIn_congr h h' hsource]
  split
  · rfl
  have hreplaced : ∀ t, applyAll t (if mode.replaces then
        Operation.deletes (src.quadsIn (destination.getD .defaultGraph)) else []) =
      applyAll t (if mode.replaces then
        Operation.deletes (src'.quadsIn (destination.getD .defaultGraph)) else []) := by
    intro t
    split
    next hm =>
      exact Operation.applyAll_deletes_congr <| mem_quadsIn_congr h h' fun q hq =>
        hreads q (Bool.or_eq_true_iff.mpr (.inr (Bool.and_eq_true_iff.mpr ⟨hm, hq⟩)))
    next => rfl
  have hemptied : ∀ t, applyAll t (if mode.empties then
        Operation.deletes (src.quadsIn (source.getD .defaultGraph)) else []) =
      applyAll t (if mode.empties then
        Operation.deletes (src'.quadsIn (source.getD .defaultGraph)) else []) := by
    intro t
    split
    · exact Operation.applyAll_deletes_congr hin
    · rfl
  refine congrArg Except.ok ?_
  simp only [applyAll_append, hreplaced, hemptied, Operation.applyAll_inserts_congr hmap]

/-- What an update does, to whatever set, depends on the quads that it reads alone. -/
theorem effect_plan_congr {u : Update} (hu : u.BlankFree) (h : src.Lawful s)
    (h' : src'.Lawful s') (hs : s.AgreeOn u.reads s') (next next' : Nat) (r : SortedSet Quad) :
    effect r (u.plan src next) = effect r (u.plan src' next') := by
  have noted : ∀ (p : Except GraphFault (List Operation)) n,
      effect r (p.map (·, n)) = p.map (applyAll r) := fun p n => by cases p <;> rfl
  cases u with
  | insertData quads | deleteData quads => rfl
  | deleteWhere templates =>
    exact congrArg Except.ok (planModify_effect hu.delete (by simp) h h' hs ..)
  | modify delete insert pattern =>
    exact congrArg Except.ok (planModify_effect hu.delete hu.insert h h' hs ..)
  | create silent graph =>
    cases silent with
    | true => rfl
    | false =>
      simp only [plan, isEmpty_quadsIn_congr h h' hs]
      split <;> rfl
  | drop silent target | clear silent target =>
    simp only [plan, noted, planDrop_effect h h' hs]
  | transfer mode silent source destination =>
    simp only [plan, noted, planTransfer_effect h h' hs]

/-! ## Lists of updates -/

/-- Plans that do the same to every set fail alike, or else their operations do the same. -/
private theorem cases_of_effect {p p' : Except GraphFault (List Operation × Nat)}
    (h : ∀ r, effect r p = effect r p') : (∃ fault, p = .error fault ∧ p' = .error fault) ∨
      ∃ ops next ops' next', p = .ok (ops, next) ∧ p' = .ok (ops', next') ∧
        Operation.Alike ops ops' := by
  have hempty := h ∅
  rcases p with fault | ⟨ops, next⟩ <;> rcases p' with fault' | ⟨ops', next'⟩
  · exact .inl ⟨fault, rfl, congrArg Except.error (Except.error.inj hempty).symm⟩
  · cases hempty
  · cases hempty
  · exact .inr ⟨ops, next, ops', next', rfl, rfl, fun r => Except.ok.inj (h r)⟩

private theorem effect_planFrom_congr {us : List Update} (hus : ∀ u ∈ us, u.BlankFree)
    (h : src.Lawful s) (h' : src'.Lawful s') (hs : s.AgreeOn (fun q => us.any (reads q)) s')
    {staged staged' : List Operation} (hstaged : Operation.Alike staged staged')
    (next next' : Nat) (r : SortedSet Quad) :
    effect r (planFrom src staged next us) = effect r (planFrom src' staged' next' us) := by
  induction us generalizing staged staged' next next' with
  | nil => exact congrArg Except.ok (hstaged r)
  | cons u us ih =>
    -- what is staged is the same on both sides, so the sets still agree when it is done
    have hafter : (applyAll s staged).AgreeOn u.reads (applyAll s' staged') := by
      rw [← hstaged s']
      refine Operation.agreeOn_applyAll (hs.mono fun q hq => ?_) staged
      rw [List.any_cons, hq, Bool.true_or]
    have hu := effect_plan_congr (hus u List.mem_cons_self) (h.after staged)
      (h'.after staged') hafter next next'
    rw [planFrom, planFrom]
    rcases cases_of_effect hu with ⟨fault, hp, hp'⟩ | ⟨ops, n, ops', n', hp, hp', hops⟩
    · simp only [hp, hp', bind, Except.bind]
    · rw [hp, hp']
      refine ih (fun u hu => hus u (List.mem_cons_of_mem _ hu)) (hs.mono fun q hq => ?_)
        (hstaged.append hops) n n'
      rw [List.any_cons, hq, Bool.or_true]

/-- A list of updates is planned alike on sets that hold the same of the quads that it reads: with
the same fault, or with operations that do the same. -/
theorem planAll_congr {us : List Update} (hus : ∀ u ∈ us, u.BlankFree) (h : src.Lawful s)
    (h' : src'.Lawful s') (hs : s.AgreeOn (fun q => us.any (reads q)) s') (next next' : Nat) :
    (∃ fault, planAll src next us = .error fault ∧ planAll src' next' us = .error fault) ∨
      ∃ ops n ops' n', planAll src next us = .ok (ops, n) ∧
        planAll src' next' us = .ok (ops', n') ∧ Operation.Alike ops ops' :=
  cases_of_effect (effect_planFrom_congr hus h h' hs (fun _ => rfl) next next')

/-- Performs updates one at a time: each is planned by itself against the set that those before it
left, and its effective operations are applied. `view` gives the sources that answer for sets. -/
def performEach (view : SortedSet Quad → Source) (next : Nat) (s : SortedSet Quad) :
    List Update → Except GraphFault (SortedSet Quad)
  | [] => .ok s
  | u :: us => do
    let (ops, next) ← planAll (view s) next [u]
    performEach view next (applyAll s (lastOnly ops)) us

theorem planAll_singleton (src : Source) (next : Nat) (u : Update) :
    planAll src next [u] = u.plan (src.after []) next := by
  rw [planAll, planFrom]
  cases u.plan (src.after []) next <;> rfl

/-- The simulation behind `planAll_eq_performEach`: `s` with the staged operations on top stands
for the set that is really there when updates are performed one at a time. -/
private theorem planFrom_effect {view : SortedSet Quad → Source} (h : src.Lawful s)
    (hview : ∀ s, (view s).Lawful s) {us : List Update} (hus : ∀ u ∈ us, u.BlankFree)
    (staged : List Operation) (next next' : Nat) :
    effect s (planFrom src staged next us) = performEach view next' (applyAll s staged) us := by
  induction us generalizing staged next next' with
  | nil => rfl
  | cons u us ih =>
    -- both sources are lawful for the set that is there before `u`
    have hu := effect_plan_congr (hus u List.mem_cons_self) (h.after staged)
      ((hview (applyAll s staged)).after []) (.refl _ _) next next' (applyAll s staged)
    rw [planFrom, performEach, planAll_singleton]
    cases hp : u.plan (src.after staged) next with
    | error fault =>
      cases hp' : u.plan ((view (applyAll s staged)).after []) next' <;>
        simp_all [effect, Except.map, bind, Except.bind]
    | ok r =>
      cases hp' : u.plan ((view (applyAll s staged)).after []) next' with
      | error fault => simp_all [effect, Except.map]
      | ok r' =>
        have hset : applyAll (applyAll s staged) r.1 = applyAll (applyAll s staged) r'.1 := by
          simpa [effect, hp, hp', Except.map] using hu
        have hrest := fun u hu => hus u (List.mem_cons_of_mem _ hu)
        refine (ih hrest (staged ++ r.1) r.2 r'.2).trans ?_
        rw [applyAll_append, hset, ← applyAll_lastOnly _ r'.1]
        rfl

/-- Planning a list of updates as a whole and applying the effective operations of the plan comes
to the same as performing the updates one at a time: the same set is left, or the same fault is
found. -/
theorem planAll_eq_performEach {view : SortedSet Quad → Source} (h : src.Lawful s)
    (hview : ∀ s, (view s).Lawful s) {us : List Update} (hus : ∀ u ∈ us, u.BlankFree)
    (next next' : Nat) : (planAll src next us).map (fun r => applyAll s (lastOnly r.1)) =
      performEach view next' s us := by
  simp only [applyAll_lastOnly]
  exact planFrom_effect h hview hus [] next next'

/-- The second update moves what the first one renamed. -/
theorem planAll_eq_performEach_rename_move :
    let quad : String → Term → Quad := fun p g => ⟨.iri "x:a", .iri p, .plain "v", g⟩
    let triple : String → TriplePattern := fun p => ⟨.var "s", .term (.iri p), .var "o"⟩
    let us : List Update := [.modify [⟨triple "x:p", none⟩] [⟨triple "x:q", none⟩]
      [.triple (triple "x:p")], .transfer .move false none (some (.iri "x:g"))]
    (Source.ofSet (.ofList [quad "x:p" .defaultGraph])).Lawful
        (.ofList [quad "x:p" .defaultGraph]) ∧ (∀ u ∈ us, u.BlankFree) ∧
      (planAll (.ofSet (.ofList [quad "x:p" .defaultGraph])) 0 us).map
        (fun r => applyAll (.ofList [quad "x:p" .defaultGraph]) (lastOnly r.1)) =
          .ok (.ofList [quad "x:q" (.iri "x:g")]) :=
  ⟨Source.lawful_ofSet _, by decide,
    (planAll_eq_performEach (Source.lawful_ofSet _) Source.lawful_ofSet (by decide) 0 0).trans
      (by decide +kernel)⟩

end Update
end DualStore
