import DualStore.Proofs.Coverage
import DualStore.Service.Mailbox

/-! Spaces whose index lags behind. A batch is committed at once and waits in the mailbox to be
brought to the index, and so does a wish for a rebuild. A rebuild copies the store as it is when its
turn comes, with batches that still wait behind it. The invariant is that the batches that wait lead
from the quads of the index to those of the store (`Tracks.image`). A rebuild keeps to it because
what these batches do to a quad does not depend on whether it was there. -/

namespace DualStore

variable {space : String} {graph : Option Term} {b : Batch} {store store' : Store}
  {counts : Counts} {mailbox : List Message} {m : Message} {reply : Reply}
  {s s' : Service MemoryIndex}

/-! ## Operations that wait -/

/-- The operations of a message as the index performs them. -/
def Message.ops : Message → List Operation
  | apply b => b.ops.map Operation.skolemize
  | check _ | rebuild _ => []

namespace Operation

variable {s t : SortedSet Quad} {ops : List Operation}

/-- Taking some quads of the outcome does not change it. -/
theorem applyAll_of_mixed
    (h : ∀ q, (q ∈ t ↔ q ∈ s) ∨ (q ∈ t ↔ q ∈ applyAll s ops)) :
    applyAll t ops = applyAll s ops := by
  refine SortedSet.ext fun q => ?_
  by_cases htouched : ∃ op ∈ ops, op.quad = q
  · exact mem_applyAll_congr (.inr htouched)
  · have hkept : q ∈ applyAll s ops ↔ q ∈ s :=
      mem_applyAll_of_untouched fun op hop he => htouched ⟨op, hop, he⟩
    exact mem_applyAll_congr (.inl ((h q).elim id fun h => h.trans hkept))

end Operation

/-! ## Messages -/

namespace Service

/-- A commit that succeeds writes to the store of its space and to nothing else. -/
theorem commit_ok (h : commit b s = (.ok counts, s')) : ∃ store store',
    s.registry.get b.space = .ok store ∧ store.apply b = .ok (store', counts) ∧
      s' = { s with registry := s.registry.put b.space store' } := by
  rw [commit_run] at h
  split at h
  next => cases (Prod.mk.inj h).1
  next store hget =>
    split at h
    next => cases (Prod.mk.inj h).1
    next store' counts' happly =>
      cases h
      exact ⟨store, store', hget, happly, rfl⟩

/-- A batch that was brought to the index was performed on what the index held. -/
theorem mirror_deliver_apply (hb : ∀ op ∈ b.ops, op.quad.Normal ∧ op.quad.Storable)
    (h : deliver space (.apply b) s = (.ok reply, s')) (hdone : reply.isDone = true) :
    s'.mirror b.space =
      Operation.applyAll (s.mirror b.space) (b.ops.map Operation.skolemize) := by
  simp only [deliver, bind_run, get_run, tryIndex_run] at h
  rcases Scope.apply_cases s.settings s.side hb with ⟨side, hrun, hheld⟩ | ⟨fault, hrun⟩
  · simp only [hrun, pure_run] at h
    obtain ⟨-, rfl⟩ := Prod.mk.inj h
    exact hheld
  · simp only [hrun, bind_run, recordAll_run, pure_run] at h
    obtain ⟨hreply, -⟩ := Prod.mk.inj h
    obtain rfl := Except.ok.inj hreply
    cases hdone

theorem deliver_check_keeps (space : String) (graph : Option Term) :
    Keeps SameBut (deliver (ι := MemoryIndex) space (.check graph)) :=
  check_keeps.bind fun _ => .pure _

/-- A rebuild that succeeded left in its scope what the store holds there. -/
theorem mem_mirror_deliver_rebuild (hget : s.registry.get space = .ok store)
    (hs : store.Sound) (hg : IsGraphScope graph)
    (h : deliver space (.rebuild graph) s = (.ok reply, s')) (u : Quad) : u ∈ s'.mirror space ↔
      if (QuadPattern.ofGraph graph).accepts u then u ∈ Quad.skolemizeAll store.quads
      else u ∈ s.mirror space := by
  simp only [deliver, bind_run, rebuild_run, hget] at h
  by_cases hr : s.side.Ready s.settings
  · obtain ⟨side, hrun, hheld⟩ :=
      Scope.rebuild_of_ready space hr hs.valid hs.fits hs.quads hg
    simp only [hrun, pure_run] at h
    obtain ⟨-, rfl⟩ := Prod.mk.inj h
    exact hheld u
  · obtain ⟨e, side, hrun, -⟩ := Scope.rebuild_of_not_ready space store graph hr
    simp only [hrun] at h
    cases (Prod.mk.inj h).1

theorem registry_deliver (space : String) (m : Message) (s : Service MemoryIndex) :
    (deliver space m s).2.registry = s.registry := by
  cases m with
  | apply b =>
    simp only [deliver, bind_run, get_run, tryIndex_run]
    rcases (Scope.apply s.settings b s.side).1 with fault | ⟨⟩
    · simp only [bind_run, recordAll_run, pure_run]
    · rfl
  | check graph => exact ((check_keeps.bind fun _ => Keeps.pure _) s).registry
  | rebuild graph =>
    have hrebuild := registry_rebuild space graph s
    rw [deliver, bind_run]
    generalize rebuild space graph s = r at hrebuild ⊢
    obtain ⟨_ | n, s₁⟩ := r <;> exact hrebuild

end Service

/-! ## Steps -/

/-- What can happen to a space: a batch of terms that their own parts rebuild is committed, a check
or a rebuild is asked for, or the oldest message is handled with success. -/
inductive Step (space : String) : Queued MemoryIndex → Queued MemoryIndex → Prop
  | commit {b : Batch} {s s' : Service MemoryIndex} {counts : Counts} {mailbox : List Message} :
    b.space = space → (∀ op ∈ b.ops, op.quad.Normal) → Service.commit b s = (.ok counts, s') →
    Step space ⟨s, mailbox⟩ ⟨s', mailbox ++ [.apply b]⟩
  | check {s : Service MemoryIndex} {mailbox : List Message} (graph : Option Term) :
    Step space ⟨s, mailbox⟩ ⟨s, mailbox ++ [.check graph]⟩
  | rebuild {s : Service MemoryIndex} {mailbox : List Message} {graph : Option Term} :
    IsGraphScope graph → Step space ⟨s, mailbox⟩ ⟨s, mailbox ++ [.rebuild graph]⟩
  | deliver {m : Message} {s s' : Service MemoryIndex} {reply : Reply} {mailbox : List Message} :
    Service.deliver space m s = (.ok reply, s') → reply.isDone = true →
    Step space ⟨s, m :: mailbox⟩ ⟨s', mailbox⟩

/-- The batches that wait lead from the quads of the index to those of the store. -/
structure Tracks (space : String) (t : Queued MemoryIndex) (store : Store) : Prop where
  get : t.service.registry.get space = .ok store
  sound : store.Sound
  batch : ∀ b, .apply b ∈ t.mailbox →
    b.space = space ∧ ∀ op ∈ b.ops, op.quad.Normal ∧ op.quad.Storable
  scope : ∀ graph, .rebuild graph ∈ t.mailbox → IsGraphScope graph
  image : Operation.applyAll (t.service.mirror space) (t.mailbox.flatMap Message.ops) =
    Quad.skolemizeAll store.quads

namespace Step

variable {t t' : Queued MemoryIndex}

/-- A step leaves the store as it is, or it commits a batch to it. -/
theorem store_cases (h : Step space t t') (hget : t.service.registry.get space = .ok store) :
    ∃ store', t'.service.registry.get space = .ok store' ∧
      (store' = store ∨ ∃ b counts, store.apply b = .ok (store', counts)) := by
  cases h with
  | commit hspace _ hcommit =>
    subst hspace
    obtain ⟨_, store', hstore, happly, rfl⟩ := Service.commit_ok hcommit
    obtain rfl := Except.ok.inj (hget.symm.trans hstore)
    exact ⟨store', Registry.get_put hget, .inr ⟨_, _, happly⟩⟩
  | check | rebuild => exact ⟨store, hget, .inl rfl⟩
  | @deliver m s _ _ _ hdeliver _ =>
    have hreg := Service.registry_deliver space m s
    rw [hdeliver] at hreg
    exact ⟨store, hreg ▸ hget, .inl rfl⟩

/-- Every step keeps to the invariant, as long as the store keeps to the limits of the machine. -/
theorem tracks (h : Step space t t') (ht : Tracks space t store)
    (hget : t'.service.registry.get space = .ok store') (hf : store'.Fits) :
    Tracks space t' store' := by
  cases h with
  | @commit b s counts s' mailbox hspace hnormal hcommit =>
    subst hspace
    obtain ⟨_, written, hstore, happly, rfl⟩ := Service.commit_ok hcommit
    obtain rfl := Except.ok.inj (ht.get.symm.trans hstore)
    obtain rfl : store' = written := by
      rw [Registry.get_put hstore] at hget
      exact (Except.ok.inj hget).symm
    obtain ⟨hsound, hquads⟩ := ht.sound.apply hnormal happly hf
    refine ⟨hget, hsound, fun b' hb' => ?_, fun graph hg => ?_, ?_⟩
    · rcases List.mem_append.mp hb' with hb' | hb'
      · exact ht.batch b' hb'
      · cases List.mem_singleton.mp hb'
        exact ⟨rfl, fun op hop => ⟨hnormal op hop, (Store.apply_eq_ok.mp happly).1 op hop⟩⟩
    · rcases List.mem_append.mp hg with hg | hg
      · exact ht.scope graph hg
      · cases List.mem_singleton.mp hg
    · rw [hquads, ← ht.image, List.flatMap_append, Operation.applyAll_append,
        List.flatMap_singleton]
      rfl
  | check graph =>
    obtain rfl := Except.ok.inj (ht.get.symm.trans hget)
    refine ⟨hget, ht.sound, fun b hb => ht.batch b ?_, fun graph hg => ht.scope graph ?_, ?_⟩
    · simpa using hb
    · simpa using hg
    · simpa [Message.ops] using ht.image
  | rebuild hscope =>
    obtain rfl := Except.ok.inj (ht.get.symm.trans hget)
    refine ⟨hget, ht.sound, fun b hb => ht.batch b ?_, fun graph hg => ?_, ?_⟩
    · simpa using hb
    · rcases List.mem_append.mp hg with hg | hg
      · exact ht.scope graph hg
      · cases List.mem_singleton.mp hg
        exact hscope
    · simpa [Message.ops] using ht.image
  | @deliver m s s' reply mailbox hdeliver hdone =>
    have himage := ht.image
    dsimp only at himage hget
    rw [List.flatMap_cons, Operation.applyAll_append] at himage
    have hreg := Service.registry_deliver space m s
    rw [hdeliver] at hreg
    obtain rfl := Except.ok.inj (ht.get.symm.trans (hreg ▸ hget))
    refine ⟨hget, ht.sound, fun b hb => ht.batch b (List.mem_cons_of_mem _ hb),
      fun graph hg => ht.scope graph (List.mem_cons_of_mem _ hg), ?_⟩
    dsimp only
    rw [← himage]
    cases m with
    | apply b =>
      obtain ⟨rfl, hb⟩ := ht.batch b List.mem_cons_self
      rw [Service.mirror_deliver_apply hb hdeliver hdone]
      rfl
    | check graph =>
      have hsame := Service.deliver_check_keeps space graph s
      rw [hdeliver] at hsame
      rw [hsame.mirror]
      rfl
    | rebuild graph =>
      have hheld := Service.mem_mirror_deliver_rebuild ht.get ht.sound
        (ht.scope graph List.mem_cons_self) hdeliver
      refine Operation.applyAll_of_mixed fun u => ?_
      rw [hheld, ← ht.image]
      split
      · exact .inr .rfl
      · exact .inl .rfl

end Step

/-! ## Runs -/

/-- A space whose index holds its quads, with nothing that waits. -/
structure Synced (space : String) (s : Service MemoryIndex) (store : Store) : Prop where
  get : s.registry.get space = .ok store
  reachable : store.Reachable
  normal : ∀ q ∈ store.quads, q.Normal
  image : s.mirror space = Quad.skolemizeAll store.quads

theorem Synced.tracks (h : Synced space s store) (hf : store.Fits) :
    Tracks space ⟨s, []⟩ store := by
  obtain ⟨hvalid, hstorable⟩ := h.reachable.valid hf
  exact ⟨h.get, ⟨hvalid, hf, fun q hq => ⟨h.normal q hq, hstorable q hq⟩⟩, nofun, nofun, h.image⟩

/-- The store is there after every run, and the invariant holds as long as it keeps to the limits
of the machine. -/
theorem Synced.tracks_of_steps {t : Queued MemoryIndex} (h : Synced space s store)
    (hsteps : Relation.ReflTransGen (Step space) ⟨s, []⟩ t) :
    ∃ store', t.service.registry.get space = .ok store' ∧
      (store'.Fits → Tracks space t store') := by
  induction hsteps with
  | refl => exact ⟨store, h.get, h.tracks⟩
  | tail _ hstep ih =>
    obtain ⟨store, hget, htracks⟩ := ih
    obtain ⟨store', hget', hcases⟩ := hstep.store_cases hget
    refine ⟨store', hget', fun hf => hstep.tracks (htracks ?_) hget' hf⟩
    rcases hcases with rfl | ⟨b, counts, happly⟩
    · exact hf
    · exact Store.fits_of_apply happly hf

/-- Whatever batches, rebuilds and checks come in, and whenever they are handled, the index differs
from the store only in quads that are touched by a batch that still waits. When nothing waits, it
holds what the store holds. -/
theorem Synced.mirror_of_steps {t : Queued MemoryIndex} (h : Synced space s store)
    (hsteps : Relation.ReflTransGen (Step space) ⟨s, []⟩ t) :
    ∃ store', t.service.registry.get space = .ok store' ∧ (store'.Fits →
      (t.mailbox = [] → t.service.mirror space = Quad.skolemizeAll store'.quads) ∧
      ∀ u, (u ∈ t.service.mirror space ↔ u ∈ Quad.skolemizeAll store'.quads) ∨
        ∃ b, .apply b ∈ t.mailbox ∧ ∃ op ∈ b.ops, op.quad.skolemize = u) := by
  obtain ⟨store', hget, htracks⟩ := h.tracks_of_steps hsteps
  refine ⟨store', hget, fun hf => ⟨fun hempty => ?_, fun u => ?_⟩⟩
  · have himage := (htracks hf).image
    rwa [hempty] at himage
  · rw [← (htracks hf).image]
    by_cases htouched : ∃ op ∈ t.mailbox.flatMap Message.ops, op.quad = u
    · obtain ⟨op, hop, rfl⟩ := htouched
      obtain ⟨m, hm, hop⟩ := List.mem_flatMap.mp hop
      cases m with
      | apply b =>
        obtain ⟨op, hwaits, rfl⟩ := List.mem_map.mp hop
        exact .inr ⟨b, hm, op, hwaits, rfl⟩
      | check | rebuild => cases hop
    · exact .inl (Operation.mem_applyAll_of_untouched
        fun op hop he => htouched ⟨op, hop, he⟩).symm

/-- A rebuild copies two batches that wait behind it. When the first is brought to the index, the
quad that the second inserts is gone again for a while. -/
theorem Synced.mirror_of_steps_ahead :
    let q : Quad := ⟨.blank "b", .iri "x:p", .plain "v", .defaultGraph⟩
    let store := (Store.perform ({}, {}) ⟨.insert, q⟩).1
    let s : Service MemoryIndex :=
      { registry := ⟨(∅ : SortedMap _ _).insert "s" ⟨⟨"s", "1"⟩, store⟩⟩
        side := { index := { datasets :=
          (∅ : SortedMap _ _).insert "s" (Quad.skolemizeAll store.quads) } } }
    Synced "s" s store ∧
      (∃ t, Relation.ReflTransGen (Step "s") ⟨s, []⟩ t ∧
        t.mailbox = [.apply ⟨"s", [⟨.insert, q⟩]⟩] ∧ t.service.mirror "s" = ∅) ∧
      ∃ t, Relation.ReflTransGen (Step "s") ⟨s, []⟩ t ∧ t.mailbox = [] ∧
        t.service.mirror "s" = Quad.skolemizeAll (.ofList [q]) := by
  intro q store s
  let first : Batch := ⟨"s", [⟨.delete, q⟩]⟩
  let second : Batch := ⟨"s", [⟨.insert, q⟩]⟩
  let s₁ := (Service.commit first s).2
  let s₂ := (Service.commit second s₁).2
  let s₃ := (Service.deliver "s" (.rebuild none) s₂).2
  let s₄ := (Service.deliver "s" (.apply first) s₃).2
  let s₅ := (Service.deliver "s" (.apply second) s₄).2
  have hwrite : ({} : Store).write [⟨.insert, q⟩] = .ok (store, ⟨1, 0⟩) := by decide +kernel
  have hsynced : Synced "s" s store := ⟨by decide +kernel, .write .empty hwrite,
    by decide +kernel, by decide +kernel⟩
  have hq : q.Normal := by decide +kernel
  have hnormal : ∀ action, ∀ op ∈ [(⟨action, q⟩ : Operation)], op.quad.Normal := fun _ =>
    List.forall_mem_singleton.mpr hq
  have hfirst : Service.commit first s = (.ok ⟨0, 1⟩, s₁) := run_eq (by decide +kernel)
  have hsecond : Service.commit second s₁ = (.ok ⟨1, 0⟩, s₂) := run_eq (by decide +kernel)
  have hrebuild : Service.deliver "s" (.rebuild none) s₂ = (.ok (.rebuilt 1), s₃) :=
    run_eq (by decide +kernel)
  have happly : Service.deliver "s" (.apply first) s₃ = (.ok (.outcome none), s₄) :=
    run_eq (by decide +kernel)
  have happly' : Service.deliver "s" (.apply second) s₄ = (.ok (.outcome none), s₅) :=
    run_eq (by decide +kernel)
  have hahead : s₄.mirror "s" = ∅ := by decide +kernel
  have hquads : (s₂.registry.get "s").map Store.quads = .ok (.ofList [q]) := by decide +kernel
  have hf : s₂.Fits := by decide +kernel
  have hregistry : s₅.registry = s₂.registry :=
    (Service.registry_deliver ..).trans <| (Service.registry_deliver ..).trans <|
      Service.registry_deliver ..
  clear_value s₅ s₄ s₃ s₂ s₁
  have hbefore : Relation.ReflTransGen (Step "s") ⟨s, []⟩ ⟨s₄, [.apply second]⟩ :=
    ((((Relation.ReflTransGen.single (.rebuild isGraphScope_none)).tail
      (.commit rfl (hnormal .delete) hfirst)).tail
      (.commit rfl (hnormal .insert) hsecond)).tail
      (.deliver hrebuild rfl)).tail (.deliver happly rfl)
  have hafter := hbefore.tail (.deliver happly' rfl)
  obtain ⟨store', hget, hend⟩ := hsynced.mirror_of_steps hafter
  dsimp only at hget hend
  rw [hregistry] at hget
  rw [hget] at hquads
  obtain ⟨-, info, hspace⟩ := Registry.get_eq_ok.mp hget
  obtain ⟨hmirror, -⟩ := hend (hf.store hspace)
  exact ⟨hsynced, ⟨_, hbefore, rfl, hahead⟩, _, hafter, rfl,
    (hmirror rfl).trans (congrArg Quad.skolemizeAll (Except.ok.inj hquads))⟩

/-! ## Requests -/

/-- A request that reaches both sides is a commit that is handled at once. -/
theorem Service.steps_of_applyBatch {validate : Bool} {o : Outcome}
    (hb : ∀ op ∈ b.ops, op.quad.Normal) (h : applyBatch b validate s = (.ok o, s'))
    (hdone : o.indexFault = none) :
    ∃ t, Relation.ReflTransGen (Step b.space) ⟨s, []⟩ ⟨t, []⟩ ∧ SameBut t s' := by
  rw [applyBatch, bind_run] at h
  rcases hcommit : commit b s with ⟨_ | counts, s₁⟩ <;> rw [hcommit] at h
  · cases (Prod.mk.inj h).1
  simp only [bind_run, get_run, tryIndex_run] at h
  rcases hindex : Scope.apply s₁.settings b s₁.side with ⟨fault | ⟨⟩, side⟩ <;>
    simp only [hindex, bind_run, recordAll_run, pure_run] at h
  · obtain rfl := Except.ok.inj (Prod.mk.inj h).1
    cases hdone
  · have hdeliver : deliver b.space (.apply b) s₁ = (.ok (.outcome none), { s₁ with side }) := by
      simp only [deliver, bind_run, get_run, tryIndex_run, hindex, pure_run]
    refine ⟨_, (Relation.ReflTransGen.single (.commit rfl hb hcommit)).tail
      (.deliver hdeliver rfl), ?_⟩
    split at h
    · rw [← (Prod.mk.inj h).2]
      exact (checkGraphs_keeps _).bind (fun _ => Keeps.pure _) _
    · rw [← (Prod.mk.inj h).2]
      exact refl_of SameBut _

/-- A rebuild that succeeds is a message that is handled at once. -/
theorem Service.steps_of_rebuild {n : Nat} (hg : IsGraphScope graph)
    (h : rebuild space graph s = (.ok n, s')) :
    Relation.ReflTransGen (Step space) ⟨s, []⟩ ⟨s', []⟩ := by
  have hdeliver : deliver space (.rebuild graph) s = (.ok (.rebuilt n), s') := by
    rw [deliver, bind_run, h]
    rfl
  exact (Relation.ReflTransGen.single (.rebuild hg)).tail (.deliver hdeliver rfl)

end DualStore
