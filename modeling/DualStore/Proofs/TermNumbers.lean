import DualStore.Proofs.TableRuns

/-! The numbers of terms over a run of tables. -/

namespace DualStore

/-! ## What only deletes -/

namespace Writer

/-- Nothing but removals of keys was staged in between. -/
def OnlyRemoves (w w' : Writer) : Prop :=
  ∃ rows, w'.batch = w.batch ++ rows ∧ ∀ row ∈ rows, ∃ o key, row = .remove o key

instance : IsPreorder Writer OnlyRemoves where
  refl w := ⟨[], (List.append_nil _).symm, List.forall_mem_nil _⟩
  trans _ _ _ := fun ⟨rows, h, hrows⟩ ⟨rows', h', hrows'⟩ =>
    ⟨rows ++ rows', by rw [h', h, List.append_assoc],
      fun row hrow => (List.mem_append.mp hrow).elim (hrows row) (hrows' row)⟩

theorem onlyRemoves_delete (w : Writer) (T : Tables) (ids : IdQuad) :
    OnlyRemoves w (w.delete T ids) := by
  rw [delete]
  split
  · refine ⟨_, rfl, fun row hrow => ?_⟩
    obtain ⟨o, -, rfl⟩ := List.mem_map.mp hrow
    exact ⟨o, _, rfl⟩
  · exact refl_of OnlyRemoves w

end Writer

namespace Tables

variable {digest : Bytes → Bytes} {T : Tables} {c : Store.Call} {calls more : List Store.Call}
  {ops : List Operation}

theorem stageAll_keeps (digest : Bytes → Bytes) (T : Tables)
    (hops : ∀ op ∈ ops, op.action = .delete) :
    Keeps Writer.OnlyRemoves (T.stageAll digest ops) := by
  induction ops with
  | nil => exact .pure ()
  | cons op ops ih =>
    rw [List.forall_mem_cons] at hops
    refine Keeps.bind ?_ fun _ => ih hops.2
    rw [stage, hops.1]
    refine Keeps.bind (fun w => refl_of Writer.OnlyRemoves w) fun ids? => ?_
    cases ids? with
    | none => exact .pure ()
    | some ids => exact fun w => w.onlyRemoves_delete T ids

/-- The same terms have numbers, and the same numbers. -/
def SameTerms (T T' : Tables) : Prop := T'.terms = T.terms ∧ T'.termKeys = T.termKeys

theorem sameTerms_putAll {rows : List Row} (h : ∀ row ∈ rows, ∃ o key, row = .remove o key) :
    T.SameTerms (T.putAll rows) := by
  induction rows generalizing T with
  | nil => exact ⟨rfl, rfl⟩
  | cons row rows ih =>
    obtain ⟨⟨o, key, rfl⟩, hrows⟩ := List.forall_mem_cons.mp h
    have hfirst : T.SameTerms (T.put (.remove o key)) := by cases o <;> exact ⟨rfl, rfl⟩
    obtain ⟨hterms, hkeys⟩ := ih (T := T.put (.remove o key)) hrows
    exact ⟨hterms.trans hfirst.1, hkeys.trans hfirst.2⟩

theorem sameTerms_write (hops : ∀ op ∈ ops, op.action = .delete) :
    T.SameTerms (T.write digest ops).2 := by
  rw [write]
  split
  · exact ⟨rfl, rfl⟩
  · have hkeeps := stageAll_keeps digest T hops { next := T.next }
    dsimp only [commit]
    generalize T.stageAll digest ops { next := T.next } = r at hkeeps ⊢
    obtain ⟨fault | ⟨⟩, w⟩ := r
    · exact ⟨rfl, rfl⟩
    · obtain ⟨rows, hbatch, hrows⟩ := hkeeps
      dsimp only at hbatch ⊢
      rw [hbatch, List.nil_append]
      exact sameTerms_putAll hrows

/-- A call that stores no term, or that is refused, adds none. -/
theorem sameTerms_send (hc : c.stores = [] ∨ ¬ c.Accepted) : T.SameTerms (T.send digest c).2 := by
  rcases hc with hc | hc
  · have hnone : ∀ q : Quad, q.terms ≠ [] := fun q => List.cons_ne_nil _ _
    cases c with
    | insertAll quads =>
      cases quads with
      | nil =>
        have hsame : T.SameTerms (T.write digest []).2 := sameTerms_write (List.forall_mem_nil _)
        exact hsame
      | cons q quads => exact absurd (List.append_eq_nil_iff.mp hc).1 (hnone q)
    | eraseAll quads =>
      refine sameTerms_write fun op hop => ?_
      obtain ⟨q, -, rfl⟩ := List.mem_map.mp hop
      rfl
    | apply b =>
      refine sameTerms_write fun op hop => ?_
      cases haction : op.action with
      | delete => rfl
      | insert =>
        refine absurd (List.flatMap_eq_nil_iff.mp hc op ?_) (hnone op.quad)
        exact List.mem_filter.mpr ⟨hop, decide_eq_true haction⟩
    | intern t => cases hc
    | lookup | scan | reopen => exact ⟨rfl, rfl⟩
  · obtain ⟨fault, hfault⟩ := Store.Call.exists_fault hc
    rw [send_of_refused hfault]
    exact ⟨rfl, rfl⟩

/-! ## Numbers of a run -/

/-- Looking up and resolving are inverse to each other after a run. -/
theorem lookup_run_eq_ok (h : NoCollision digest calls) (hf : (Store.run calls).Fits) {t : Term}
    {id : TermId} : (run digest calls).lookup digest t = .ok (some id) ↔
      (run digest calls).resolve id = .ok t := by
  have hmodels := models_run h hf
  have hvalid := ((Store.reachable_run calls).valid hf).1
  rw [hmodels.resolve_eq_ok, hvalid.dictionary.resolve?_eq_some hf]
  constructor
  · exact hmodels.lookup?_of_lookup hvalid hf
  · intro hlookup
    obtain ⟨c, hc, hacc, ht⟩ := (Store.knows_run hf t).mp ⟨id, hlookup⟩
    rw [hmodels.lookup_eq hvalid hf (apart_of_noCollision h hf
      ⟨c, hc, hacc, Store.Call.mem_names_of_stores ht⟩), hlookup]

/-- The number that a term is given when it is numbered resolves to it in whatever follows. -/
theorem resolve_run_of_intern {t : Term} (h : NoCollision digest (calls ++ .intern t :: more))
    (hf : (Store.run (calls ++ .intern t :: more)).Fits) (ht : t.check = .ok ()) :
    ∃ id, ((run digest calls).send digest (.intern t)).1 = .ok (.numbered id) ∧
      (run digest (calls ++ .intern t :: more)).resolve id = .ok t := by
  have hvalid := ((Store.reachable_run (calls ++ .intern t :: more)).valid hf).1
  have hmodels := models_run h hf
  rw [List.append_cons] at h hf hvalid hmodels ⊢
  have hsend := Store.send_of_accepted (s := Store.run calls) (c := .intern t) ht
  have hf₁ := Store.fits_of_run_append hf
  have hanswer := ((models_run h.left.left (Store.fits_of_run_concat hf₁)).send_run h.left hf₁).1
  refine ⟨_, hanswer.trans (congrArg Prod.fst hsend), ?_⟩
  rw [hmodels.resolve_eq_ok, hvalid.dictionary.resolve?_eq_some hf]
  refine Store.lookup?_run_append more ?_
  rw [Store.run_concat, hsend]
  exact Dictionary.lookup?_number.trans (if_pos rfl)

/-- The terms that a run stores and the numbers that it gives out stand for each other one by one,
for good. What a term is numbered with is what looking it up gives from then on. -/
theorem numbers_of_run (digest : Bytes → Bytes) (calls more : List Store.Call)
    (hf : (Store.run (calls ++ more)).Fits) (h : NoCollision digest (calls ++ more)) :
    let T := run digest calls
    let T' := run digest (calls ++ more)
    (∀ t id, T.lookup digest t = .ok (some id) ↔ T.resolve id = .ok t) ∧
    (∀ t, (∃ id, T.lookup digest t = .ok (some id)) ↔ t ∈ Store.stored calls) ∧
    (∀ id, (∃ record, T.terms.get? id = some record) ↔ ∃ t, T.resolve id = .ok t) ∧
    (∀ t u id id', T.lookup digest t = .ok (some id) → T.lookup digest u = .ok (some id') →
      (id = id' ↔ t = u)) ∧
    (∀ t id, T.resolve id = .ok t → T'.resolve id = .ok t) ∧
    (∀ before t after, calls = before ++ .intern t :: after → t.check = .ok () →
      ∃ id, ((run digest before).send digest (.intern t)).1 = .ok (.numbered id) ∧
        T.lookup digest t = .ok (some id) ∧ T.resolve id = .ok t) ∧
    ∀ c, c.stores = [] ∨ ¬ c.Accepted → T.SameTerms (T.send digest c).2 := by
  intro T T'
  have hf₁ := Store.fits_of_run_append hf
  have hmodels := models_run h.left hf₁
  have hvalid := ((Store.reachable_run calls).valid hf₁).1
  have hinverse : ∀ t id, T.lookup digest t = .ok (some id) ↔ T.resolve id = .ok t :=
    fun t id => lookup_run_eq_ok h.left hf₁
  have hresolve : ∀ t id, T.resolve id = .ok t ↔
      (Store.run calls).dictionary.lookup? t = some id := fun t id => by
    rw [hmodels.resolve_eq_ok, hvalid.dictionary.resolve?_eq_some hf₁]
  refine ⟨hinverse, fun t => ?_, fun id => ?_, fun t u id id' ht hu => ?_, fun t id ht => ?_, ?_,
    fun c => sameTerms_send⟩
  · simp only [hinverse, hresolve]
    exact Store.knows_run hf₁ t
  · constructor
    · rintro ⟨record, hrecord⟩
      rw [hmodels.terms] at hrecord
      obtain ⟨t, rfl⟩ := hvalid.dictionary.record id record hrecord
      exact ⟨t, (hresolve t id).mpr ((hvalid.dictionary.inverse _ _).mp hrecord)⟩
    · rintro ⟨t, ht⟩
      refine ⟨Record.ofTerm t, ?_⟩
      rw [hmodels.terms]
      exact (hvalid.dictionary.inverse _ _).mpr ((hresolve t id).mp ht)
  · constructor
    · rintro rfl
      rw [hinverse] at ht hu
      exact Except.ok.inj (ht.symm.trans hu)
    · rintro rfl
      exact Option.some.inj (Except.ok.inj (ht.symm.trans hu))
  · have hvalid' := ((Store.reachable_run (calls ++ more)).valid hf).1
    rw [(models_run h hf).resolve_eq_ok, hvalid'.dictionary.resolve?_eq_some hf]
    exact Store.lookup?_run_append more ((hresolve t id).mp ht)
  · rintro before t after rfl ht
    obtain ⟨id, hanswer, hid⟩ := resolve_run_of_intern h.left hf₁ ht
    exact ⟨id, hanswer, (hinverse t id).mpr hid, hid⟩

/-- Two literals with one lexical form, the first of which is deleted again, have different numbers.
A term that is numbered twice is given one number. The digests are those of SHA-256. -/
theorem numbers_of_run_literals :
    let digests : List (Term × Nat) := [
      (.iri "x:a",
        0xf4f0617772ffefdef0b919c7ef93361ab074c7ed3e30c3749c7f5cfc31067f08),
      (.iri "x:p",
        0x1a6edec025d42ebc0d45096b184054fb8abfeb8bd1d60e167fd951391ca7d942),
      (.literal ⟨"v", none, some "en"⟩,
        0x4ddedf1624f9679a1c8a85a5acb1f27d0e3ddc810df406ed8904e9a1a20e82d6),
      (.literal ⟨"v", some "x:d", none⟩,
        0x472b70c629b684df5297371220791db68196a4dbc3fa4543f63f87aa275563da),
      (.defaultGraph,
        0xae7872f2dfce964c816de387b8378ae5abf96c0f4d7f75d41bfb9bbbb486c9cf)]
    let digest : Bytes → Bytes := fun record =>
      ((digests.find? fun e => Record.ofTerm e.1 == record).map fun e => Bytes.ofNat 32 e.2).getD []
    let q : Quad := ⟨.iri "x:a", .iri "x:p", .literal ⟨"v", none, some "en"⟩, .defaultGraph⟩
    let u : Quad := ⟨.iri "x:a", .iri "x:p", .literal ⟨"v", some "x:d", none⟩, .defaultGraph⟩
    let before : List Store.Call := [.insertAll [q], .eraseAll [q, u], .reopen]
    let calls : List Store.Call := before ++ [.intern q.object]
    let more : List Store.Call := [.lookup u.object, .apply ⟨"s", [⟨.insert, u⟩]⟩]
    (Store.run (calls ++ more)).Fits ∧ NoCollision digest (calls ++ more) ∧
      (run digest calls).lookup digest q.object = .ok (some 3) ∧
      ((run digest before).send digest (.intern q.object)).1 = .ok (.numbered 3) ∧
      (run digest (calls ++ more)).resolve 3 = .ok q.object ∧
      (run digest (calls ++ more)).lookup digest u.object = .ok (some 5) ∧
      u.object ∉ Store.stored calls := by
  intro digests digest q u before calls more
  have hf : (Store.run (calls ++ more)).Fits := by decide +kernel
  have hdistinct : ∀ t ∈ (calls ++ more).flatMap Store.Call.names,
      ∀ u ∈ (calls ++ more).flatMap Store.Call.names,
        digest (Record.ofTerm u) = digest (Record.ofTerm t) → u = t := by decide +kernel
  have h : NoCollision digest (calls ++ more) := by
    rintro t ⟨c, hc, -, ht⟩ u ⟨c', hc', -, hu⟩
    exact hdistinct t (List.mem_flatMap.mpr ⟨c, hc, ht⟩) u
      (List.mem_flatMap.mpr ⟨c', hc', Store.Call.mem_names_of_stores hu⟩)
  have hlookup : (run digest calls).lookup digest q.object = .ok (some 3) := by decide +kernel
  have hnew : (run digest (calls ++ more)).lookup digest u.object = .ok (some 5) := by
    decide +kernel
  have habsent : (run digest calls).lookup digest u.object = .ok none := by decide +kernel
  obtain ⟨hinverse, hstored, -, -, hkept, hnumbered, -⟩ := numbers_of_run digest calls more hf h
  obtain ⟨id, hanswer, hid, -⟩ := hnumbered before q.object [] rfl (by decide)
  obtain rfl : id = 3 := Option.some.inj (Except.ok.inj (hid.symm.trans hlookup))
  refine ⟨hf, h, hlookup, hanswer, hkept _ _ ((hinverse _ _).mp hlookup), hnew, fun hmem => ?_⟩
  obtain ⟨id, hid⟩ := (hstored _).mpr hmem
  rw [habsent] at hid
  cases hid

end Tables
end DualStore
