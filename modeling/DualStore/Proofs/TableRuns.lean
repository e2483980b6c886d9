import DualStore.Proofs.Staging
import DualStore.Proofs.StoreRuns

/-! Runs of tables. As long as digests tell the records of stored terms apart, tables keep the store
that the same calls lead to, and answer as it does (`Tables.models_run`). -/

namespace DualStore
namespace Tables

/-- The answer of tables to a call, and the tables after it. -/
def send (digest : Bytes → Bytes) (T : Tables) :
    Store.Call → Except CallFault Store.Answer × Tables
  | .insertAll quads =>
    let (r, T) := T.insertAll digest quads
    (r.map fun n => .wrote ⟨n, 0⟩, T)
  | .eraseAll quads =>
    let (r, T) := T.eraseAll digest quads
    (r.map fun n => .wrote ⟨0, n⟩, T)
  | .apply b =>
    let (r, T) := T.apply digest b
    (r.map .wrote, T)
  | .intern t =>
    let (r, T) := T.intern digest t
    (r.map .numbered, T)
  | .lookup t => (((T.lookup digest t).mapError .table).map .found, T)
  | .scan p => (((T.scan digest p).mapError .table).map .quads, T)
  | .reopen => (.ok .reopened, T.reopen)

/-- The tables after calls on empty ones. -/
def run (digest : Bytes → Bytes) (calls : List Store.Call) : Tables :=
  calls.foldl (fun T c => (T.send digest c).2) {}

/-- No term that is looked up in a run has the digest of another one that is stored. -/
def NoCollision (digest : Bytes → Bytes) (calls : List Store.Call) : Prop :=
  ∀ t ∈ Store.named calls, ∀ u ∈ Store.stored calls,
    digest (Record.ofTerm u) = digest (Record.ofTerm t) → u = t

variable {digest : Bytes → Bytes} {T : Tables} {s : Store} {c : Store.Call}
  {calls more : List Store.Call}

theorem run_concat (digest : Bytes → Bytes) (calls : List Store.Call) (c : Store.Call) :
    run digest (calls ++ [c]) = ((run digest calls).send digest c).2 := List.foldl_concat ..

theorem NoCollision.left (h : NoCollision digest (calls ++ more)) : NoCollision digest calls := by
  rintro t ⟨c, hc, hct⟩ u ⟨c', hc', hcu⟩
  exact h t ⟨c, List.mem_append_left _ hc, hct⟩ u ⟨c', List.mem_append_left _ hc', hcu⟩

/-! ## Answers -/

/-- A call that is refused changes nothing. -/
theorem send_of_refused {fault : CallFault} (h : c.check = .error fault) :
    T.send digest c = (.error fault, T) := by
  have hwrite : ∀ {ops : List Operation},
      (Store.checkAll ops).mapError CallFault.quad = .error fault →
      T.write digest ops = (.error fault, T) := by
    intro ops h
    cases hcheck : Store.checkAll ops with
    | ok => rw [hcheck] at h; cases h
    | error f =>
      rw [hcheck] at h
      cases h
      rw [write, hcheck]
  cases c with
  | insertAll quads => rw [send, insertAll, hwrite h]; rfl
  | eraseAll quads => rw [send, eraseAll, hwrite h]; rfl
  | apply b => rw [send, Tables.apply, hwrite h]; rfl
  | intern t =>
    cases hcheck : t.check with
    | ok => rw [Store.Call.check, hcheck] at h; cases h
    | error f =>
      rw [Store.Call.check, hcheck] at h
      cases h
      rw [send, Tables.intern, hcheck]
      rfl
  | lookup | scan | reopen => cases h

/-- Sound tables answer a call as their store does, and keep the store that comes of it. -/
theorem Sound.send (h : T.Sound digest s) (hc : c.Accepted) (hf : (c.done s).Fits)
    (hapart : ∀ t ∈ c.names, Apart digest (c.done s).dictionary t) :
    ∃ T', T.send digest c = ((s.send c).1, T') ∧ T'.Models digest (c.done s) := by
  have hops : ∀ op ∈ c.ops, ∀ t ∈ op.quad.terms, Apart digest (c.done s).dictionary t := by
    intro op hop t ht
    refine hapart t ?_
    cases c with
    | insertAll quads | eraseAll quads =>
      obtain ⟨q, hq, rfl⟩ := List.mem_map.mp hop
      exact List.mem_flatMap.mpr ⟨q, hq, ht⟩
    | apply b => exact List.mem_flatMap.mpr ⟨op, hop, ht⟩
    | intern | lookup | scan | reopen => cases hop
  rw [Store.send_of_accepted hc]
  have hstorable := c.storable_of_accepted hc
  cases c with
  | insertAll quads =>
    obtain ⟨T', hrun, hmodels⟩ := h.write hstorable (Store.Call.steady_ops _) hf hops
    refine ⟨T', ?_, hmodels⟩
    have hrun : T.write digest (quads.map fun q => ⟨.insert, q⟩) = _ := hrun
    rw [Tables.send, insertAll, hrun]
    rfl
  | eraseAll quads =>
    obtain ⟨T', hrun, hmodels⟩ := h.write hstorable (Store.Call.steady_ops _) hf hops
    refine ⟨T', ?_, hmodels⟩
    have hrun : T.write digest (quads.map fun q => ⟨.delete, q⟩) = _ := hrun
    rw [Tables.send, eraseAll, hrun]
    rfl
  | apply b =>
    obtain ⟨T', hrun, hmodels⟩ := h.write hstorable (Store.Call.steady_ops _) hf hops
    refine ⟨T', ?_, hmodels⟩
    have hrun : T.write digest b.effective = _ := hrun
    rw [Tables.send, Tables.apply, hrun]
    rfl
  | intern t =>
    obtain ⟨T', hrun, hmodels⟩ := h.intern hc hf (hapart t List.mem_cons_self)
    refine ⟨T', ?_, hmodels⟩
    rw [Tables.send, hrun]
    rfl
  | lookup t =>
    refine ⟨T, ?_, h.models⟩
    rw [Tables.send, h.models.lookup_eq h.valid h.fits (hapart t List.mem_cons_self)]
    rfl
  | scan p =>
    refine ⟨T, ?_, h.models⟩
    rw [Tables.send, h.scan hapart]
    rfl
  | reopen => exact ⟨T.reopen, rfl, h.models.reopen⟩

/-! ## Runs -/

theorem apart_of_noCollision (h : NoCollision digest calls) (hf : (Store.run calls).Fits) {t : Term}
    (ht : t ∈ Store.named calls) : Apart digest (Store.run calls).dictionary t :=
  fun u hu => h t ht u ((Store.knows_run hf u).mp hu)

/-- One more call on tables that keep the store of a run. -/
theorem Models.send_run (hmodels : (run digest calls).Models digest (Store.run calls))
    (h : NoCollision digest (calls ++ [c])) (hf : (Store.run (calls ++ [c])).Fits) :
    ((run digest calls).send digest c).1 = ((Store.run calls).send c).1 ∧
      (run digest (calls ++ [c])).Models digest (Store.run (calls ++ [c])) := by
  have hf' := Store.fits_of_run_concat hf
  rw [run_concat]
  by_cases hc : c.Accepted
  · have hsound : (run digest calls).Sound digest (Store.run calls) :=
      ⟨hmodels, ((Store.reachable_run calls).valid hf').1, hf'⟩
    have hdone : Store.run (calls ++ [c]) = c.done (Store.run calls) := by
      rw [Store.run_concat, Store.send_of_accepted hc]
    have hapart : ∀ t ∈ c.names, Apart digest (c.done (Store.run calls)).dictionary t := by
      intro t ht
      rw [← hdone]
      exact apart_of_noCollision h hf ⟨c, List.mem_append_right _ List.mem_cons_self, hc, ht⟩
    rw [hdone] at hf ⊢
    obtain ⟨T', hrun, hmodels'⟩ := hsound.send hc hf hapart
    rw [hrun]
    exact ⟨rfl, hmodels'⟩
  · obtain ⟨fault, hfault⟩ := Store.Call.exists_fault hc
    rw [send_of_refused hfault, Store.run_concat, Store.send_of_refused hfault]
    exact ⟨rfl, hmodels⟩

/-- Tables keep the store that the same calls lead to. -/
theorem models_run (h : NoCollision digest calls) (hf : (Store.run calls).Fits) :
    (run digest calls).Models digest (Store.run calls) := by
  induction calls using List.reverseRecOn with
  | nil => exact models_empty digest
  | append_singleton calls c ih =>
    exact ((ih h.left (Store.fits_of_run_concat hf)).send_run h hf).2

end Tables

namespace Store

variable {s : Store} {calls : List Call} {c : Call}

/-- All orderings have the keys of the same quads of numbers. The numbers are those of terms, and
the quads of these terms are the ones of the set, each of them once. -/
structure Represents (s : Store) (content : Set Quad) : Prop where
  keys : ∀ o key, key ∈ s.keys o ↔ ∃ ids, s.Holds ids ∧ key = o.encode ids
  resolves : ∀ ids, s.Holds ids → ∀ position, ∃ t, s.resolve (ids.get position) = .ok t
  content : ∀ q, q ∈ content ↔ ∃ ids, s.Holds ids ∧ s.decode ids = .ok q
  once : ∀ ids ids' q, s.decode ids = .ok q → s.decode ids' = .ok q → ids = ids'

theorem Valid.represents (h : s.Valid) (hf : s.Fits) : s.Represents s.content := by
  refine ⟨h.keys, fun ids hids position => ?_, fun q => ?_, fun ids ids' q hq hq' => ?_⟩
  · obtain ⟨t, ht⟩ := h.numbered ids hids position
    exact ⟨t, (h.resolve_eq_ok hf).mpr ht⟩
  · simp only [h.decode_eq_ok hf]
    exact (h.mem_quads hf).trans (exists_congr fun _ => and_comm)
  · rw [h.decode_eq_ok hf] at hq hq'
    exact Option.some.inj (hq.symm.trans hq')

/-- After every run of calls, the last of which is `c`, the store represents what the accepted calls
make of a set of quads. The last call returned how many quads are new and how many are gone; if it
was refused, it changed nothing, and if it applied a batch, applying the batch again changes
nothing. Tables, which stage what they write, answer alike and keep the same store. -/
theorem run_represents (calls : List Call) (c : Call) (hf : (run (calls ++ [c])).Fits) :
    (run (calls ++ [c])).Represents (contents (calls ++ [c])) ∧
    (c.Accepted → ((run calls).send c).1.map Answer.counts =
      .ok (.between (contents calls) (contents (calls ++ [c])))) ∧
    (¬ c.Accepted → (∃ fault, ((run calls).send c).1 = .error fault) ∧
      run (calls ++ [c]) = run calls) ∧
    (∀ b, c = .apply b → c.Accepted →
      (run (calls ++ [c])).send c = (.ok (.wrote {}), run (calls ++ [c]))) ∧
    ∀ digest, Tables.NoCollision digest (calls ++ [c]) →
      ((Tables.run digest calls).send digest c).1 = ((run calls).send c).1 ∧
      (Tables.run digest (calls ++ [c])).Models digest (run (calls ++ [c])) := by
  have hf' := fits_of_run_concat hf
  have hreachable := reachable_run calls
  have hdone : c.Accepted → run (calls ++ [c]) = c.done (run calls) := fun hc => by
    rw [run_concat, send_of_accepted hc]
  refine ⟨?_, fun hc => ?_, fun hc => ?_, ?_, fun digest h => ?_⟩
  · rw [← content_run hf]
    exact ((reachable_run _).valid hf).1.represents hf
  · rw [← content_run hf, ← content_run hf', send_of_accepted hc, hdone hc]
    exact congrArg Except.ok (hreachable.counts_answer hc (hdone hc ▸ hf))
  · obtain ⟨fault, hfault⟩ := Call.exists_fault hc
    exact ⟨⟨fault, by rw [send_of_refused hfault]⟩, by rw [run_concat, snd_send_of_refused hc]⟩
  · rintro b rfl hc
    have hagain := hreachable.foldl_perform_done hc (hdone hc ▸ hf)
    rw [send_of_accepted hc, hdone hc, Call.answer, hagain]
    change (Except.ok _, (List.foldl perform _ _).1) = _
    rw [hagain]
  · exact (Tables.models_run h.left hf').send_run h hf

/-- A batch that touches one quad three times takes away another that was inserted twice. -/
theorem run_represents_touched :
    let q : Quad := ⟨.iri "x:a", .iri "x:p", .blank "b", .defaultGraph⟩
    let u : Quad := ⟨.iri "x:a", .iri "x:p", .plain "v", .iri "x:g"⟩
    let calls : List Call := [.insertAll [q, q], .reopen, .intern (.iri "x:z")]
    let c : Call := .apply ⟨"s", [⟨.insert, u⟩, ⟨.delete, q⟩, ⟨.delete, u⟩, ⟨.insert, u⟩]⟩
    (run (calls ++ [c])).Fits ∧ ((run calls).send c).1 = .ok (.wrote ⟨1, 1⟩) ∧
      (run (calls ++ [c])).Represents (contents (calls ++ [c])) ∧
      Counts.between (contents calls) (contents (calls ++ [c])) = ⟨1, 1⟩ ∧
      (run (calls ++ [c])).send c = (.ok (.wrote {}), run (calls ++ [c])) := by
  intro q u calls c
  have hf : (run (calls ++ [c])).Fits := by decide +kernel
  have hc : c.Accepted := Call.check_eq_ok.mp (by decide +kernel)
  have hanswer : ((run calls).send c).1 = .ok (.wrote ⟨1, 1⟩) := by decide +kernel
  obtain ⟨hrepresents, hcounts, -, hagain, -⟩ := run_represents calls c hf
  have hbetween := hcounts hc
  rw [hanswer] at hbetween
  exact ⟨hf, hanswer, hrepresents, (Except.ok.inj hbetween).symm, hagain _ rfl hc⟩

end Store
end DualStore
