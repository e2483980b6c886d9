import DualStore.Proofs.Coverage

/-! Catching up. A pass over the backlog while the index can be updated rebuilds every entry and
leaves none (`Service.reconcilePending_of_ready`). From the time a space is made with no dataset
left over, whatever the index does not follow is recorded, and such a pass brings both sides
together (`Service.run_follows`). -/

namespace DualStore
namespace Service

variable {s s' start : Service MemoryIndex} {name createdAt : String} {c : Call} {e : Entry}
  {sum : Summary}

/-! ## Passes -/

/-- The scope of an entry is rebuilt, and the entry goes. -/
theorem reconcileEntry_of_ready (hs : s.Sound) (hr : s.side.Ready s.settings)
    (he : e ∈ s.backlog.pending) (sum : Summary) :
    ∃ s', reconcileEntry sum e s = (.ok { sum with rebuilt := sum.rebuilt + 1 }, s') ∧ s'.Sound ∧
      s'.side.Ready s'.settings ∧
      ∀ e', e' ∈ s'.backlog.pending ↔ e' ∈ s.backlog.pending ∧ e' ≠ e := by
  have hscope := hs.valid.backlog.isScope he
  have hthere := hs.valid.contains e he
  obtain ⟨space, hget⟩ := Registry.contains_iff.mp hthere
  have hagrees := rebuild_agreesBut e.space e.graph s
  have hvalid := rebuild_valid hs.valid e.space e.graph
  have hreg := registry_rebuild e.space e.graph s
  have hbacklog := backlog_rebuild e.space e.graph s
  obtain ⟨n, hok, -⟩ := (rebuild_cases hs hscope.graph hget).resolve_right fun h => h.1 hr
  have hrun := reconcileEntry_run (s := s) sum e
  have hsound := reconcileEntry_valid hs.valid sum e
  rw [if_pos hthere] at hrun
  generalize rebuild e.space e.graph s = r at hagrees hvalid hreg hbacklog hok hrun
  obtain ⟨outcome, s₁⟩ := r
  obtain rfl : outcome = .ok n := hok
  obtain ⟨hdone, hpending⟩ := hvalid.backlog.complete_pending (hbacklog ▸ he)
  dsimp only at hrun hdone
  rw [if_pos hdone] at hrun
  rw [hrun] at hsound
  refine ⟨_, hrun, hs.of_registry hsound hreg, ?_, fun e' => ?_⟩
  · rw [hagrees.settings]
    exact hagrees.index.ready hr
  · rw [hpending, hbacklog]

/-- Entries are worked off one by one. -/
theorem reconcileEntries_of_ready {entries : List Entry} (hs : s.Sound)
    (hr : s.side.Ready s.settings) (hnodup : entries.Nodup)
    (hsub : ∀ e ∈ entries, e ∈ s.backlog.pending) (sum : Summary) :
    ∃ s', reconcileEntries sum entries s =
        (.ok { sum with rebuilt := sum.rebuilt + entries.length }, s') ∧
      ∀ e, e ∈ s'.backlog.pending ↔ e ∈ s.backlog.pending ∧ e ∉ entries := by
  induction entries generalizing s sum with
  | nil => exact ⟨s, rfl, fun e => (and_iff_left List.not_mem_nil).symm⟩
  | cons e entries ih =>
    obtain ⟨hfirst, hrest⟩ := List.nodup_cons.mp hnodup
    obtain ⟨s₁, hrun₁, hs₁, hr₁, hpending₁⟩ :=
      reconcileEntry_of_ready hs hr (hsub e List.mem_cons_self) sum
    have hsub₁ : ∀ e' ∈ entries, e' ∈ s₁.backlog.pending := fun e' he' =>
      (hpending₁ e').mpr ⟨hsub e' (List.mem_cons_of_mem _ he'), fun heq => hfirst (heq ▸ he')⟩
    obtain ⟨s₂, hrun₂, hpending₂⟩ := ih hs₁ hr₁ hrest hsub₁ { sum with rebuilt := sum.rebuilt + 1 }
    refine ⟨s₂, ?_, fun e' => ?_⟩
    · rw [reconcileEntries, bind_run, hrun₁]
      dsimp only
      rw [hrun₂, List.length_cons, Nat.add_assoc, Nat.add_comm 1]
    · rw [hpending₂, hpending₁, List.mem_cons, not_or, and_assoc]

theorem reconcilePending_of_ready (hs : s.Sound) (hr : s.side.Ready s.settings) :
    ∃ s', reconcilePending s = (.ok { rebuilt := s.backlog.pending.length }, s') ∧
      ∀ e, e ∉ s'.backlog.pending := by
  obtain ⟨s', hrun, hpending⟩ := reconcileEntries_of_ready hs hr hs.valid.backlog.nodup_pending
    (fun _ he => he) {}
  refine ⟨s', ?_, fun e he => ?_⟩
  · rw [reconcilePending_run, hrun, Nat.zero_add]
  · obtain ⟨he, hnot⟩ := (hpending e).mp he
    exact hnot he

/-! ## Settings -/

/-- How long the index holds updates back, and how long the service waits. -/
def limits (s : Service MemoryIndex) : Nat × Settings := (s.side.index.delay, s.settings)

theorem AgreesBut.limits (h : AgreesBut name s s') : s'.limits = s.limits :=
  Prod.ext h.index.delay h.settings

/-- No call changes the limits. -/
theorem perform_limits (hs : s.Valid) (c : Call) : (s.perform c).limits = s.limits := by
  cases hspace : c.space? with
  | some name => exact (perform_agreesBut hs hspace).limits
  | none =>
    refine (perform_induction hspace (P := fun t => t.Valid ∧ t.limits = s.limits)
      (fun _ => ⟨valid_of_side hs _, rfl⟩) (fun e he sum t ht => ?_) ⟨hs, rfl⟩).2
    exact ⟨reconcileEntry_valid ht.1 sum e,
      (reconcileEntry_agreesBut ht.1 (hs.backlog.isScope he) sum).limits.trans ht.2⟩

theorem run_limits (hs : s.Valid) (calls : List Call) : (s.run calls).limits = s.limits := by
  induction calls generalizing s with
  | nil => rfl
  | cons c calls ih => exact (ih (perform_valid hs c)).trans (perform_limits hs c)

/-! ## Spaces that are kept -/

/-- A space that is made with no dataset left over is covered: both sides are empty. -/
theorem createSpace_covered {info : SpaceInfo}
    (h : createSpace name createdAt s = (.ok info, s'))
    (habsent : s.side.index.datasets.get? name = none) :
    s'.registry.contains name = true ∧ s'.Covered name := by
  rcases createSpace_cases h with ⟨⟨e, he⟩, -⟩ | ⟨registry, hcreate, -, hcases⟩
  · cases he
  obtain ⟨-, -, rfl⟩ := Registry.create_eq_ok.mp hcreate
  have hreg : s'.registry = ⟨s.registry.spaces.insert name ⟨⟨name, createdAt⟩, {}⟩⟩ := by
    rcases hcases with ⟨index, -, rfl⟩ | ⟨fault, -, rfl⟩ <;> rfl
  have hnone : s.mirror name = ∅ := by
    rw [mirror, MemoryIndex.held, habsent, Option.getD_none]
  have hmirror : s'.mirror name = ∅ := by
    rcases hcases with ⟨index, hindex, rfl⟩ | ⟨fault, -, rfl⟩
    · exact (MemoryIndex.held_of_create hindex).trans hnone
    · exact hnone
  refine ⟨hreg ▸ (contains_insert ..).mpr (.inl rfl), fun space hget u => .inl ?_⟩
  rw [hreg, SortedMap.get?_insert, if_pos rfl] at hget
  obtain rfl := Option.some.inj hget
  rw [hmirror]
  exact .rfl

/-- A graph that looks different in the index is recorded. -/
theorem Covered.covers {space : Space} (h : s.Covered name)
    (hget : s.registry.spaces.get? name = some space) {g : Term}
    (hne : (s.mirror name).filter (·.graph == g) ≠
      (Quad.skolemizeAll space.store.quads).filter (·.graph == g)) : s.backlog.Covers name g := by
  by_contra hnot
  refine hne (SortedSet.ext fun u => ?_)
  rw [SortedSet.mem_filter, SortedSet.mem_filter, beq_iff_eq]
  refine and_congr_left fun hu => (h space hget u).resolve_right ?_
  rwa [hu]

/-- Take a space from the time it is made, when the index has no dataset of its name, for as long
as it is not dropped. After any calls, each graph in which the index differs from the store is
recorded, alone or with the whole space. If the index is on and answers in time, a pass over the
backlog fails nowhere, leaves no entry of the space and makes both sides equal.

The calls before the space is made are to be admissible for the sake of the other spaces: the pass
rebuilds what is recorded of these too, and it would fail there at a term that the index refuses or
at a store that has outgrown the machine. No call changes how long the index holds an update back,
so it is asked of the start that this is not longer than the service waits; otherwise every update
of the pass would time out. -/
theorem run_follows {before after : List Call} {info : SpaceInfo} (hstart : start.Fresh)
    (hadmits : start.Admits (before ++ .createSpace name createdAt :: after))
    (habsent : (start.run before).side.index.datasets.get? name = none)
    (hcreate : createSpace name createdAt (start.run before) = (.ok info, s))
    (hkept : .dropSpace name ∉ after) :
    ∃ store, (s.run after).registry.get name = .ok store ∧
      (∀ g, ((s.run after).mirror name).filter (·.graph == g) ≠
          (Quad.skolemizeAll store.quads).filter (·.graph == g) →
        ∃ e ∈ (s.run after).backlog.pending,
          e.space = name ∧ (e.graph = none ∨ e.graph = some g)) ∧
      (start.side.index.delay ≤ start.settings.indexTimeout →
        (s.run after).side.index.available = true →
        ∃ sum s', reconcilePending (s.run after) = (.ok sum, s') ∧ sum.failed = 0 ∧
          s'.registry = (s.run after).registry ∧ (∀ e ∈ s'.backlog.pending, e.space ≠ name) ∧
          s'.mirror name = Quad.skolemizeAll store.quads) := by
  obtain ⟨hbefore, -, hfits, hafter⟩ := admits_append.mp hadmits
  have hmade : (start.run before).perform (.createSpace name createdAt) = s :=
    congrArg Prod.snd hcreate
  rw [hmade] at hfits hafter
  have hsound := run_sound hstart.sound hbefore
  have hsound' : s.Sound := by
    have := perform_sound (c := .createSpace name createdAt) hsound trivial (hmade ▸ hfits)
    rwa [hmade] at this
  obtain ⟨hin, hcovered⟩ := createSpace_covered hcreate habsent
  obtain ⟨hin, hcovered⟩ := run_covered hsound' hafter hkept hin hcovered
  have hend := run_sound hsound' hafter
  have hlimits : (s.run after).limits = start.limits := by
    have hs := perform_limits hsound.valid (.createSpace name createdAt)
    rw [hmade] at hs
    exact (run_limits hsound'.valid after).trans (hs.trans (run_limits hstart.valid before))
  obtain ⟨space, hget⟩ := Registry.contains_iff.mp hin
  refine ⟨space.store, Registry.get_eq_ok.mpr ⟨hend.valid.name name hin, space.info, hget⟩,
    fun g hne => hcovered.covers hget hne, fun hdelay hav => ?_⟩
  obtain ⟨hindex, hsettings⟩ := Prod.mk.inj hlimits
  obtain ⟨s', hrun, hnone⟩ := reconcilePending_of_ready hend
    ⟨hav, by rwa [hindex, hsettings]⟩
  have hpass : (s.run after).perform .reconcilePending = s' := congrArg Prod.snd hrun
  have hreg : s'.registry = (s.run after).registry := hpass ▸ registry_perform_of_unscoped rfl
  have hfits' : s'.Fits := by
    rw [Fits, hreg]
    exact hend.fits
  have hcovered' := perform_covered (c := .reconcilePending) hend trivial (hpass ▸ hfits') hin
    hcovered
  rw [hpass] at hcovered'
  -- the pass keeps the space covered, and nothing is left that could cover a difference
  refine ⟨_, s', hrun, rfl, hreg, fun e he => absurd he (hnone e), SortedSet.ext fun u => ?_⟩
  refine (hcovered' space (hreg ▸ hget) u).resolve_right ?_
  rintro ⟨e, he, -⟩
  exact hnone e he

/-- A space is written to while the index is off. Its graph is recorded, and a pass brings the quad
to the index once this is on again. -/
theorem run_follows_outage :
    let start : Service MemoryIndex := { side := { index := {} } }
    let q : Quad := ⟨.blank "b", .iri "x:p", .plain "v", .iri "x:g"⟩
    let after : List Call := [.setAvailable false, .applyBatch ⟨"s", [⟨.insert, q⟩]⟩ false,
      .setAvailable true]
    let s := (createSpace "s" "1" start).2
    start.Fresh ∧ start.Admits ([] ++ .createSpace "s" "1" :: after) ∧
      start.side.index.datasets.get? "s" = none ∧ .dropSpace "s" ∉ after ∧
      ((s.run after).mirror "s").filter (·.graph == q.graph) ≠
        (Quad.skolemizeAll (.ofList [q])).filter (·.graph == q.graph) ∧
      (∃ e ∈ (s.run after).backlog.pending,
        e.space = "s" ∧ (e.graph = none ∨ e.graph = some q.graph)) ∧
      ∃ sum s', reconcilePending (s.run after) = (.ok sum, s') ∧ sum.failed = 0 ∧
        s'.mirror "s" = Quad.skolemizeAll (.ofList [q]) := by
  intro start q after s
  have hstart : start.Fresh := ⟨rfl, rfl, rfl⟩
  have hcreate : createSpace "s" "1" start = (.ok ⟨"s", "1"⟩, s) :=
    Prod.ext (by decide +kernel) rfl
  have hnormal : ∀ op ∈ [(⟨.insert, q⟩ : Operation)], op.quad.Normal := by decide +kernel
  have hadmits : start.Admits ([] ++ .createSpace "s" "1" :: after) :=
    ⟨trivial, by decide +kernel, trivial, by decide +kernel, hnormal, by decide +kernel,
      trivial, by decide +kernel, trivial⟩
  have hkept : .dropSpace "s" ∉ after := by simp [after]
  obtain ⟨store, hget, hrecorded, hpass⟩ :=
    run_follows hstart hadmits rfl hcreate hkept
  have hquads : ((s.run after).registry.get "s").map Store.quads = .ok (.ofList [q]) := by
    decide +kernel
  rw [hget] at hquads
  have hquads : store.quads = .ofList [q] := Except.ok.inj hquads
  have hdiffers : ((s.run after).mirror "s").filter (·.graph == q.graph) ≠
      (Quad.skolemizeAll (.ofList [q])).filter (·.graph == q.graph) := by decide +kernel
  rw [hquads] at hrecorded hpass
  obtain ⟨sum, s', hrun, hfailed, -, -, hmirror⟩ :=
    hpass (Nat.zero_le _) (by decide +kernel)
  exact ⟨hstart, hadmits, rfl, hkept, hdiffers, hrecorded _ hdiffers,
    sum, s', hrun, hfailed, hmirror⟩

end Service
end DualStore
