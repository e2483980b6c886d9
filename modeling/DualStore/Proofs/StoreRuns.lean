import DualStore.Proofs.Planning
import DualStore.Proofs.StoreCalls

/-! Runs of a store from the empty one: calls in any order, some of which are refused. What a store
holds after a run is what the accepted calls make of a set of quads (`Store.content_run`), and the
terms that have numbers are those that they stored (`Store.knows_run`). -/

namespace DualStore
namespace Store

/-- Something that is asked of a store. -/
inductive Call where
  | insertAll (quads : List Quad)
  | eraseAll (quads : List Quad)
  | apply (b : Batch)
  | intern (t : Term)
  | lookup (t : Term)
  | scan (p : QuadPattern)
  | reopen

namespace Call

/-- The operations that a call comes to. -/
def ops : Call → List Operation
  | insertAll quads => quads.map fun q => ⟨.insert, q⟩
  | eraseAll quads => quads.map fun q => ⟨.delete, q⟩
  | apply b => b.effective
  | intern _ | lookup _ | scan _ | reopen => []

/-- What a call is refused for. -/
def check : Call → Except CallFault Unit
  | insertAll quads => (checkAll (quads.map fun q => ⟨.insert, q⟩)).mapError .quad
  | eraseAll quads => (checkAll (quads.map fun q => ⟨.delete, q⟩)).mapError .quad
  | apply b => (checkAll b.effective).mapError .quad
  | intern t => t.check.mapError .term
  | lookup _ | scan _ | reopen => .ok ()

/-- All quads of a call may be stored, and a term that it numbers is well formed. -/
def Accepted : Call → Prop
  | insertAll quads | eraseAll quads => ∀ q ∈ quads, q.Storable
  | apply b => ∀ op ∈ b.ops, op.quad.Storable
  | intern t => t.check = .ok ()
  | lookup _ | scan _ | reopen => True

/-- What a call that is accepted makes of a set of quads. -/
def after (content : Set Quad) : Call → Set Quad
  | insertAll quads => content ∪ {q | q ∈ quads}
  | eraseAll quads => content \ {q | q ∈ quads}
  | apply b => {q | Operation.last? b.ops q = some .insert ∨
      Operation.last? b.ops q = none ∧ q ∈ content}
  | intern _ | lookup _ | scan _ | reopen => content

/-- The terms that a call stores when it is accepted. -/
def stores : Call → List Term
  | insertAll quads => quads.flatMap Quad.terms
  | apply b => (b.effective.filter (·.action = .insert)).flatMap (·.quad.terms)
  | intern t => [t]
  | eraseAll _ | lookup _ | scan _ | reopen => []

/-- The terms that a call looks up when it is accepted. -/
def names : Call → List Term
  | insertAll quads | eraseAll quads => quads.flatMap Quad.terms
  | apply b => b.effective.flatMap (·.quad.terms)
  | intern t | lookup t => [t]
  | scan p => [p.subject, p.predicate, p.object, p.graph].filterMap id
  | reopen => []

variable {c : Call}

theorem check_eq_ok : c.check = .ok () ↔ c.Accepted := by
  cases c with
  | insertAll quads =>
    rw [check, mapError_eq_ok, checkAll_eq_ok]
    exact List.forall_mem_map
  | eraseAll quads =>
    rw [check, mapError_eq_ok, checkAll_eq_ok]
    exact List.forall_mem_map
  | apply b =>
    rw [check, mapError_eq_ok, checkAll_eq_ok]
    constructor
    · intro h op hop
      obtain ⟨last, hlast, hq⟩ := Operation.touched_lastOnly.mpr ⟨op, hop, rfl⟩
      exact hq ▸ h last hlast
    · exact fun h op hop => h op (Operation.mem_of_mem_lastOnly hop)
  | intern t => exact mapError_eq_ok
  | lookup | scan | reopen => exact iff_of_true rfl trivial

theorem exists_fault (h : ¬ c.Accepted) : ∃ fault, c.check = .error fault := by
  cases hcheck : c.check with
  | ok => exact absurd (check_eq_ok.mp hcheck) h
  | error fault => exact ⟨fault, rfl⟩

theorem storable_of_accepted (h : c.Accepted) : ∀ op ∈ c.ops, op.quad.Storable := by
  intro op hop
  cases c with
  | insertAll quads | eraseAll quads =>
    obtain ⟨q, hq, rfl⟩ := List.mem_map.mp hop
    exact h q hq
  | apply b => exact h op (Operation.mem_of_mem_lastOnly hop)
  | intern | lookup | scan | reopen => cases hop

theorem steady_ops (c : Call) : Operation.Steady c.ops := by
  cases c with
  | insertAll quads => exact Operation.steady_map .insert quads
  | eraseAll quads => exact Operation.steady_map .delete quads
  | apply b => exact Operation.steady_lastOnly b.ops
  | intern | lookup | scan | reopen => exact fun _ h => nomatch h

end Call

/-- A term is looked up before it is stored. -/
theorem Call.mem_names_of_stores {c : Call} {t : Term} (h : t ∈ c.stores) : t ∈ c.names := by
  cases c with
  | insertAll | intern => exact h
  | apply b =>
    obtain ⟨op, hop, ht⟩ := List.mem_flatMap.mp h
    exact List.mem_flatMap.mpr ⟨op, List.mem_of_mem_filter hop, ht⟩
  | eraseAll | lookup | scan | reopen => cases h

/-! ## Sending -/

/-- What a call that is accepted is answered. -/
inductive Answer where
  | wrote (counts : Counts)
  | numbered (id : TermId)
  | found (id : Option TermId)
  | quads (quads : List Quad)
  | reopened
  deriving DecidableEq

/-- How many quads came and went. -/
def Answer.counts : Answer → Counts
  | wrote counts => counts
  | numbered _ | found _ | quads _ | reopened => {}

/-- The answer to a call, and the store after it. A call that is refused changes nothing. -/
def settle (s : Store) : Except CallFault (Store × Answer) → Except CallFault Answer × Store
  | .ok (s', answer) => (.ok answer, s')
  | .error fault => (.error fault, s)

def send (s : Store) : Call → Except CallFault Answer × Store
  | .insertAll quads =>
    s.settle (((s.insertAll quads).map fun (s, n) => (s, .wrote ⟨n, 0⟩)).mapError .quad)
  | .eraseAll quads =>
    s.settle (((s.eraseAll quads).map fun (s, n) => (s, .wrote ⟨0, n⟩)).mapError .quad)
  | .apply b =>
    s.settle (((s.apply b).map fun (s, counts) => (s, .wrote counts)).mapError .quad)
  | .intern t =>
    s.settle (((s.dictionary.intern t).map fun (id, dictionary) =>
      ({ s with dictionary }, .numbered id)).mapError .term)
  | .lookup t => (.ok (.found (s.dictionary.lookup? t)), s)
  | .scan p => (.ok (.quads (s.scan p)), s)
  | .reopen => (.ok .reopened, s.reopen)

/-- The answer to a call that is accepted. -/
def Call.answer (s : Store) : Call → Answer
  | insertAll quads => .wrote ⟨((insertAll quads).ops.foldl perform (s, {})).2.inserted, 0⟩
  | eraseAll quads => .wrote ⟨0, ((eraseAll quads).ops.foldl perform (s, {})).2.deleted⟩
  | apply b => .wrote ((apply b).ops.foldl perform (s, {})).2
  | intern t => .numbered (s.dictionary.number t).1
  | lookup t => .found (s.dictionary.lookup? t)
  | scan p => .quads (s.scan p)
  | reopen => .reopened

/-- The store after a call that is accepted. -/
def Call.done (s : Store) : Call → Store
  | intern t => { s with dictionary := (s.dictionary.number t).2 }
  | reopen => s.reopen
  | c => (c.ops.foldl perform (s, {})).1

variable {s : Store} {c : Call} {calls : List Call}

theorem send_of_accepted (h : c.Accepted) :
    s.send c = (.ok (c.answer s), c.done s) := by
  have hwrite : s.write c.ops = .ok (c.ops.foldl perform (s, {})) :=
    write_eq_ok.mpr ⟨c.storable_of_accepted h, rfl⟩
  cases c with
  | insertAll quads =>
    have hwrite : s.write (quads.map fun q => ⟨.insert, q⟩) = _ := hwrite
    rw [send, insertAll, hwrite]
    rfl
  | eraseAll quads =>
    have hwrite : s.write (quads.map fun q => ⟨.delete, q⟩) = _ := hwrite
    rw [send, eraseAll, hwrite]
    rfl
  | apply b =>
    have hwrite : s.write b.effective = _ := hwrite
    rw [send, Store.apply, hwrite]
    rfl
  | intern t =>
    have hintern : s.dictionary.intern t = .ok (s.dictionary.number t) :=
      check_bind_eq_ok.mpr ⟨h, rfl⟩
    rw [send, hintern]
    rfl
  | lookup | scan | reopen => rfl

/-- A call that is refused changes nothing. -/
theorem send_of_refused {fault : CallFault} (h : c.check = .error fault) :
    s.send c = (.error fault, s) := by
  have hwrite : ∀ {ops : List Operation}, (checkAll ops).mapError CallFault.quad = .error fault →
      ∃ f, CallFault.quad f = fault ∧ s.write ops = .error f := by
    intro ops h
    cases hcheck : checkAll ops with
    | ok => rw [hcheck] at h; cases h
    | error f =>
      rw [hcheck] at h
      exact ⟨f, Except.error.inj h, by rw [write, hcheck]; rfl⟩
  cases c with
  | insertAll quads =>
    obtain ⟨f, rfl, hrun⟩ := hwrite h
    rw [send, insertAll, hrun]
    rfl
  | eraseAll quads =>
    obtain ⟨f, rfl, hrun⟩ := hwrite h
    rw [send, eraseAll, hrun]
    rfl
  | apply b =>
    obtain ⟨f, rfl, hrun⟩ := hwrite h
    rw [send, Store.apply, hrun]
    rfl
  | intern t =>
    cases hcheck : t.check with
    | ok => rw [Call.check, hcheck] at h; cases h
    | error f =>
      rw [Call.check, hcheck] at h
      cases h
      rw [send, Dictionary.intern, hcheck]
      rfl
  | lookup | scan | reopen => cases h

theorem snd_send_of_refused (h : ¬ c.Accepted) : (s.send c).2 = s := by
  obtain ⟨fault, hfault⟩ := Call.exists_fault h
  rw [send_of_refused hfault]

/-! ## Accepted calls -/

theorem fits_of_done (hf : (c.done s).Fits) : s.Fits := by
  cases c with
  | insertAll | eraseAll | apply => exact fits_of_foldl (r := (s, {})) hf
  | intern t => exact Dictionary.fits_of_number hf
  | lookup | scan => exact hf
  | reopen => exact ⟨hf.size, hf.record⟩

theorem Reachable.done (h : s.Reachable) (hc : c.Accepted) : (c.done s).Reachable := by
  cases c with
  | insertAll | eraseAll | apply =>
    exact .write h (write_eq_ok.mpr ⟨Call.storable_of_accepted hc, rfl⟩)
  | intern t => exact .intern h (check_bind_eq_ok.mpr ⟨hc, rfl⟩)
  | lookup | scan => exact h
  | reopen => exact .reopen h

/-- Terms keep their numbers. -/
theorem lookup?_done {t : Term} {id : TermId} (h : s.dictionary.lookup? t = some id) :
    (c.done s).dictionary.lookup? t = some id := by
  cases c with
  | insertAll | eraseAll | apply => exact lookup?_foldl h
  | intern t => exact Dictionary.lookup?_number_of_some h
  | lookup | scan | reopen => exact h

/-- The orderings do not change unless quads are written. -/
theorem Reachable.content_of_extends {s' : Store} (h : s.Reachable) (h' : s'.Reachable)
    (hf : s.Fits) (hf' : s'.Fits) (hext : s.Extends s') : s'.content = s.content := by
  rw [content, (h.valid hf).1.quads_of_extends hf hext (h'.valid hf').1 hf']
  rfl

/-- An accepted call makes of the quads what it makes of a set. -/
theorem Reachable.content_done (h : s.Reachable) (hc : c.Accepted) (hf : (c.done s).Fits) :
    (c.done s).content = c.after s.content := by
  have hs := fits_of_done hf
  have hvalid := (h.valid hs).1
  have hfold : ∀ {ops : List Operation}, (ops.foldl perform (s, {})).1.Fits → ∀ q,
      q ∈ (ops.foldl perform (s, {})).1.content ↔ q ∈ Operation.applyAll s.quads ops := by
    intro ops hf q
    rw [← (Valid.foldl_perform (r := (s, {})) hvalid hf).2]
    rfl
  cases c with
  | insertAll quads =>
    exact Set.ext fun q => (hfold hf q).trans (Operation.mem_applyAll_inserts.trans Or.comm)
  | eraseAll quads =>
    exact Set.ext fun q => (hfold hf q).trans Operation.mem_applyAll_deletes
  | apply b =>
    refine Set.ext fun q => (hfold hf q).trans ?_
    rw [Call.ops, Batch.effective, Operation.applyAll_lastOnly]
    exact Operation.mem_applyAll_iff_last?
  | intern t =>
    refine h.content_of_extends (h.done hc) hs hf ⟨fun o => by cases o <;> rfl, fun u id hu => ?_⟩
    exact Dictionary.lookup?_number_of_some hu
  | lookup | scan => rfl
  | reopen =>
    exact h.content_of_extends (h.done hc) hs hf ⟨fun o => by cases o <;> rfl, fun _ _ hu => hu⟩

/-- The terms that an accepted call stores get numbers, and no others. -/
theorem knows_done (hf : (c.done s).Fits) (t : Term) :
    (c.done s).dictionary.Knows t ↔ t ∈ c.stores ∨ s.dictionary.Knows t := by
  cases c with
  | insertAll quads =>
    refine (knows_foldl hf).trans (or_congr_left ?_)
    rw [Call.stores, List.mem_flatMap]
    constructor
    · rintro ⟨op, hop, -, ht⟩
      obtain ⟨q, hq, rfl⟩ := List.mem_map.mp hop
      exact ⟨q, hq, ht⟩
    · rintro ⟨q, hq, ht⟩
      exact ⟨⟨.insert, q⟩, List.mem_map.mpr ⟨q, hq, rfl⟩, rfl, ht⟩
  | eraseAll quads =>
    refine (knows_foldl hf).trans (or_congr_left (iff_of_false ?_ List.not_mem_nil))
    rintro ⟨op, hop, hinsert, -⟩
    obtain ⟨q, -, rfl⟩ := List.mem_map.mp hop
    cases hinsert
  | apply b =>
    refine (knows_foldl hf).trans (or_congr_left ?_)
    simp only [Call.stores, Call.ops, List.mem_flatMap, List.mem_filter, decide_eq_true_eq,
      and_assoc]
  | intern u => exact (Dictionary.knows_number hf).trans (or_congr_left List.mem_singleton.symm)
  | lookup | scan | reopen => exact (or_iff_right List.not_mem_nil).symm

/-- A call returns how many quads it brought and how many it took away. -/
theorem Reachable.counts_answer (h : s.Reachable) (hc : c.Accepted) (hf : (c.done s).Fits) :
    (c.answer s).counts = .between s.content (c.done s).content := by
  have hvalid := (h.valid (fits_of_done hf)).1
  have hcontent := h.content_done hc hf
  have hcounts : (c.ops.foldl perform (s, {})).1.Fits → (c.ops.foldl perform (s, {})).2 =
      .between s.content (c.ops.foldl perform (s, {})).1.content := by
    intro hf
    rw [Valid.counts_foldl (r := (s, {})) hvalid hf c.steady_ops]
    simp only [Counts.plus, Nat.zero_add]
  cases c with
  | insertAll quads =>
    have hkept : s.content \ (Call.done s (.insertAll quads)).content = ∅ :=
      Set.sdiff_eq_empty.mpr (hcontent ▸ Set.subset_union_left)
    rw [Call.answer, Answer.counts, hcounts hf]
    change (⟨_, 0⟩ : Counts) = ⟨_, (s.content \ (Call.done s (.insertAll quads)).content).ncard⟩
    rw [hkept, Set.ncard_empty]
    rfl
  | eraseAll quads =>
    have hkept : (Call.done s (.eraseAll quads)).content \ s.content = ∅ :=
      Set.sdiff_eq_empty.mpr (hcontent ▸ Set.sdiff_subset)
    rw [Call.answer, Answer.counts, hcounts hf]
    change (⟨0, _⟩ : Counts) = ⟨((Call.done s (.eraseAll quads)).content \ s.content).ncard, _⟩
    rw [hkept, Set.ncard_empty]
    rfl
  | apply b => exact hcounts hf
  | intern | lookup | scan | reopen =>
    rw [hcontent, Call.after, Counts.between_self]
    rfl

/-- Operations that were performed have nothing left to do. -/
theorem Reachable.foldl_perform_done (h : s.Reachable) (hc : c.Accepted) (hf : (c.done s).Fits) :
    c.ops.foldl perform (c.done s, {}) = (c.done s, {}) := by
  obtain ⟨hvalid, -⟩ := (h.done hc).valid hf
  refine foldl_perform_of_done hvalid hf fun op hop => ?_
  have hlast : (c.ops.foldl perform (s, {})).1.Fits →
      (op.quad ∈ (c.ops.foldl perform (s, {})).1.quads ↔ op.action = .insert) := by
    intro hf
    rw [(Valid.foldl_perform (r := (s, {})) (h.valid (fits_of_foldl (r := (s, {})) hf)).1 hf).2]
    exact c.steady_ops.mem_applyAll hop
  cases c with
  | insertAll | eraseAll | apply => exact hlast hf
  | intern | lookup | scan | reopen => cases hop

/-- The store after calls on the empty one. -/
def run (calls : List Call) : Store := calls.foldl (fun s c => (s.send c).2) {}

theorem run_concat (calls : List Call) (c : Call) :
    run (calls ++ [c]) = ((run calls).send c).2 := List.foldl_concat ..

open Classical in
/-- The quads that the accepted calls leave. -/
noncomputable def contents (calls : List Call) : Set Quad :=
  calls.foldl (fun content c => if c.Accepted then c.after content else content) ∅

/-- The terms that the accepted calls stored. -/
def stored (calls : List Call) : Set Term := {t | ∃ c ∈ calls, c.Accepted ∧ t ∈ c.stores}

/-- The terms that the accepted calls looked up. -/
def named (calls : List Call) : Set Term := {t | ∃ c ∈ calls, c.Accepted ∧ t ∈ c.names}

theorem contents_concat_of_accepted (h : c.Accepted) (calls : List Call) :
    contents (calls ++ [c]) = c.after (contents calls) := by
  rw [contents, List.foldl_concat, if_pos h]
  rfl

theorem contents_concat_of_refused (h : ¬ c.Accepted) (calls : List Call) :
    contents (calls ++ [c]) = contents calls := by
  rw [contents, List.foldl_concat, if_neg h]
  rfl

/-! ## Runs -/

theorem reachable_run (calls : List Call) : (run calls).Reachable := by
  induction calls using List.reverseRecOn with
  | nil => exact .empty
  | append_singleton calls c ih =>
    rw [run_concat]
    by_cases hc : c.Accepted
    · rw [send_of_accepted hc]
      exact ih.done hc
    · rw [snd_send_of_refused hc]
      exact ih

theorem fits_of_run_concat (hf : (run (calls ++ [c])).Fits) : (run calls).Fits := by
  rw [run_concat] at hf
  by_cases hc : c.Accepted
  · rw [send_of_accepted hc] at hf
    exact fits_of_done hf
  · rwa [snd_send_of_refused hc] at hf

theorem fits_of_run_append {more : List Call} (hf : (run (calls ++ more)).Fits) :
    (run calls).Fits := by
  induction more using List.reverseRecOn with
  | nil => rwa [List.append_nil] at hf
  | append_singleton more c ih =>
    rw [← List.append_assoc] at hf
    exact ih (fits_of_run_concat hf)

/-- Terms keep their numbers in whatever follows. -/
theorem lookup?_run_append (more : List Call) {t : Term} {id : TermId}
    (h : (run calls).dictionary.lookup? t = some id) :
    (run (calls ++ more)).dictionary.lookup? t = some id := by
  induction more using List.reverseRecOn with
  | nil => rwa [List.append_nil]
  | append_singleton more c ih =>
    rw [← List.append_assoc, run_concat]
    by_cases hc : c.Accepted
    · rw [send_of_accepted hc]
      exact lookup?_done ih
    · rw [snd_send_of_refused hc]
      exact ih

/-- The quads of a store are those that the accepted calls leave. -/
theorem content_run (hf : (run calls).Fits) : (run calls).content = contents calls := by
  induction calls using List.reverseRecOn with
  | nil => exact Set.ext fun q => iff_of_false (SortedSet.not_mem_empty q) (Set.notMem_empty q)
  | append_singleton calls c ih =>
    have hf' := fits_of_run_concat hf
    rw [run_concat] at hf ⊢
    by_cases hc : c.Accepted
    · rw [send_of_accepted hc] at hf ⊢
      rw [(reachable_run calls).content_done hc hf, ih hf', contents_concat_of_accepted hc]
    · rw [snd_send_of_refused hc, ih hf', contents_concat_of_refused hc]

/-- The terms with numbers are those that the accepted calls stored. -/
theorem knows_run (hf : (run calls).Fits) (t : Term) :
    (run calls).dictionary.Knows t ↔ t ∈ stored calls := by
  induction calls using List.reverseRecOn with
  | nil => exact iff_of_false (fun ⟨_, h⟩ => nomatch h) fun ⟨_, h, _⟩ => nomatch h
  | append_singleton calls c ih =>
    have hf' := fits_of_run_concat hf
    have hstored : t ∈ stored (calls ++ [c]) ↔ (c.Accepted ∧ t ∈ c.stores) ∨ t ∈ stored calls := by
      simp only [stored, Set.mem_ofPred_eq, List.mem_append, List.mem_singleton, or_and_right,
        exists_or, exists_eq_left, or_comm]
    rw [hstored]
    rw [run_concat] at hf ⊢
    by_cases hc : c.Accepted
    · rw [send_of_accepted hc] at hf ⊢
      rw [knows_done hf, ih hf', and_iff_right hc]
    · rw [snd_send_of_refused hc, ih hf', or_iff_right fun h => hc h.1]

end Store
end DualStore
