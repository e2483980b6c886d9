import DualStore.Proofs.Checks
import DualStore.Proofs.Mailboxes

/-! Checks that wait in the mailbox. A check is behind every batch that was committed before it was
asked for, but the store goes on: a batch that is committed while the check waits is counted in the
store and not yet in the index. -/

namespace DualStore

variable {space : String} {graph : Option Term} {store : Store} {waiting : List Message}
  {reply : Reply} {s t t' : Service MemoryIndex}

/-- The report of a check that waited counts in the index what is there when the check is handled,
and in the store what the index comes to hold once the batches behind the check are brought to it.
It is consistent if and only if the two numbers are equal, as they are if no batch is behind the
check and its graph, if it is about one, is not a blank node. -/
theorem Synced.report_of_steps (h : Synced space s store)
    (hsteps : Relation.ReflTransGen (Step space) ⟨s, []⟩ ⟨t, .check graph :: waiting⟩)
    (hg : ∀ g ∈ graph, g.Normal)
    (hdeliver : Service.deliver space (.check graph) t = (.ok reply, t')) :
    ∃ store', t.registry.get space = .ok store' ∧ (store'.Fits → ∃ r, reply = .report r ∧
      r.space = space ∧ r.graph = graph ∧
      r.indexCount = Quad.countedIn graph (t.mirror space) ∧
      r.primaryCount = Quad.countIn graph
        (Operation.applyAll (t.mirror space) (waiting.flatMap Message.ops)) ∧
      (r.isConsistent = true ↔ r.primaryCount = r.indexCount) ∧
      ((∀ g ∈ graph, g.isBlank = false) → (∀ b, .apply b ∉ waiting) → r.isConsistent = true)) := by
  obtain ⟨store', hget, htracks⟩ := h.tracks_of_steps hsteps
  refine ⟨store', hget, fun hf => ?_⟩
  obtain ⟨-, hsound, -, -, himage⟩ := htracks hf
  rw [List.flatMap_cons, Message.ops, List.nil_append] at himage
  rw [Service.deliver, bind_run, Service.check_run, hget] at hdeliver
  rcases hcheck : Scope.check t.settings space store' graph t.side with ⟨e | r, side⟩
  · simp only [hcheck] at hdeliver
    cases (Prod.mk.inj hdeliver).1
  simp only [hcheck, pure_run] at hdeliver
  obtain rfl := Except.ok.inj (Prod.mk.inj hdeliver).1
  obtain ⟨m, hm, hspace, hgraph, hprimary, hindex, hconsistent⟩ := Scope.check_eq_ok hg hcheck
  have hmirror : t.mirror space = m := by
    rw [Service.mirror, MemoryIndex.held, hm, Option.getD_some]
  have hahead : r.primaryCount = Quad.countIn graph
      (Operation.applyAll (t.mirror space) (waiting.flatMap Message.ops)) := by
    have hstorable := fun q hq => (hsound.quads q hq).2
    rw [hprimary, hsound.valid.count hf, himage, Quad.countIn_skolemizeAll hstorable]
  rw [← hmirror] at hindex
  refine ⟨r, rfl, hspace, hgraph, hindex, hahead, hconsistent, fun hblank hnone => ?_⟩
  have hops : waiting.flatMap Message.ops = [] := List.flatMap_eq_nil_iff.mpr fun m hm => by
    cases m with
    | apply b => exact absurd hm (hnone b)
    | check | rebuild => rfl
  rw [hconsistent, hahead, hindex, hops, Quad.countedIn_of_not_isBlank hblank]
  rfl

/-- Both sides hold a quad of a graph. It is deleted while a check of the graph waits, and the report
counts it in the index only. A check of the graph that a blank node names does the same although
nothing else happens. -/
theorem Synced.report_of_steps_overtaken :
    let q : Quad := ⟨.blank "b", .iri "x:p", .plain "v", .iri "x:g"⟩
    let b : Batch := ⟨"s", [⟨.delete, q⟩]⟩
    let store := (Store.perform ({}, {}) ⟨.insert, q⟩).1
    let s : Service MemoryIndex :=
      { registry := ⟨(∅ : SortedMap _ _).insert "s" ⟨⟨"s", "1"⟩, store⟩⟩
        side := { index := { datasets :=
          (∅ : SortedMap _ _).insert "s" (Quad.skolemizeAll store.quads) } } }
    let IsOff := fun (r : Report) => r.primaryCount = 0 ∧ r.indexCount = 1 ∧ r.isConsistent = false
    Synced "s" s store ∧
      (∃ t t' r, Relation.ReflTransGen (Step "s") ⟨s, []⟩
          ⟨t, [.check (some (.iri "x:g")), .apply b]⟩ ∧
        Service.deliver "s" (.check (some (.iri "x:g"))) t = (.ok (.report r), t') ∧ IsOff r) ∧
      ∃ t' r, Service.deliver "s" (.check (some (.blank "b"))) s = (.ok (.report r), t') ∧
        IsOff r := by
  intro q b store s IsOff
  let t := (Service.commit b s).2
  let t' := (Service.deliver "s" (.check (some (.iri "x:g"))) t).2
  let s' := (Service.deliver "s" (.check (some (.blank "b"))) s).2
  have hwrite : ({} : Store).write [⟨.insert, q⟩] = .ok (store, ⟨1, 0⟩) := by decide +kernel
  have hsynced : Synced "s" s store := ⟨by decide +kernel, .write .empty hwrite,
    by decide +kernel, by decide +kernel⟩
  have hoff : ∀ r : Report, (r.isConsistent = true ↔ r.primaryCount = r.indexCount) →
      r.primaryCount = 0 → r.indexCount = 1 → IsOff r := by
    intro r hconsistent hprimary hindex
    refine ⟨hprimary, hindex, ?_⟩
    rw [← Bool.not_eq_true, hconsistent, hprimary, hindex]
    decide
  have hnormal : ∀ op ∈ b.ops, op.quad.Normal :=
    List.forall_mem_singleton.mpr (by decide +kernel : q.Normal)
  have hcommit : Service.commit b s = (.ok ⟨0, 1⟩, t) := run_eq (by decide +kernel)
  have hlate : Service.deliver "s" (.check (some (.iri "x:g"))) t =
    (.ok (.report ⟨"s", some (.iri "x:g"), 0, 1, some ⟨[], [q]⟩⟩), t') := run_eq (by decide +kernel)
  have hblank : Service.deliver "s" (.check (some (.blank "b"))) s =
    (.ok (.report ⟨"s", some (.blank "b"), 0, 1, some ⟨[], [q.withGraph (.blank "b")]⟩⟩), s') :=
      run_eq (by decide +kernel)
  have hf : t.Fits ∧ s.Fits := by decide +kernel
  have hcounts : Quad.countedIn (some (.iri "x:g")) (t.mirror "s") = 1 ∧
      Quad.countIn (some (.iri "x:g")) (Operation.applyAll (t.mirror "s")
        ([Message.apply b].flatMap Message.ops)) = 0 := by decide +kernel
  have hcounts' : Quad.countedIn (some (.blank "b")) (s.mirror "s") = 1 ∧
      Quad.countIn (some (.blank "b")) (Operation.applyAll (s.mirror "s")
        ([].flatMap Message.ops)) = 0 := by decide +kernel
  clear_value s' t' t
  have hsteps : Relation.ReflTransGen (Step "s") ⟨s, []⟩
      ⟨t, [.check (some (.iri "x:g")), .apply b]⟩ :=
    (Relation.ReflTransGen.single (.check _)).tail (.commit rfl hnormal hcommit)
  refine ⟨hsynced, ?_, ?_⟩
  · obtain ⟨_, hget, hreport⟩ := hsynced.report_of_steps hsteps (by decide +kernel) hlate
    obtain ⟨-, info, hspace⟩ := Registry.get_eq_ok.mp hget
    obtain ⟨r, hr, -, -, hindex, hprimary, hconsistent, -⟩ := hreport (hf.1.store hspace)
    rw [hr] at hlate
    exact ⟨t, t', r, hsteps, hlate,
      hoff r hconsistent (hprimary.trans hcounts.2) (hindex.trans hcounts.1)⟩
  · obtain ⟨_, hget, hreport⟩ := hsynced.report_of_steps (.single (.check _)) (by decide +kernel)
      hblank
    obtain ⟨-, info, hspace⟩ := Registry.get_eq_ok.mp hget
    obtain ⟨r, hr, -, -, hindex, hprimary, hconsistent, -⟩ := hreport (hf.2.store hspace)
    rw [hr] at hblank
    exact ⟨s', r, hblank,
      hoff r hconsistent (hprimary.trans hcounts'.2) (hindex.trans hcounts'.1)⟩

end DualStore
