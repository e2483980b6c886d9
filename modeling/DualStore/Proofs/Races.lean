import DualStore.Proofs.ReadNodes
import DualStore.Proofs.ServiceCalls
import DualStore.Proofs.StoreCalls
import Mathlib.Data.List.Permutation
import Mathlib.Logic.Function.Basic

/-! Two updates of a space at the same time. An update is translated into a batch from what the
space holds, and the batch is applied later; another update may get in between. Updates that
overlap do what one of the two orders does as long as one of them reads nothing that the other
changes (`Service.leaves_of_overlap`). -/

namespace DualStore

open Operation (applyAll)

variable {space : String} {s t : Service MemoryIndex} {store mid left : Store} {b c : Batch}
  {src src' : Source} {next next' : Nat}

/-! ## Requests -/

/-- An update as it is sent to a space. -/
structure Posted where
  text : String
  /-- The graphs of the batch are checked afterwards. -/
  validate : Bool := false

namespace Posted

variable {p : Posted}

/-- What the text says, if it can be read. -/
def updates (p : Posted) : List Update := (Update.ofText p.text).toOption.getD []

/-- A quad that one of the updates reads. -/
def reads (p : Posted) (q : Quad) : Bool := p.updates.any (Update.reads q)

/-- What is inserted has no blank nodes of its own. -/
def BlankFree (p : Posted) : Prop := ∀ u ∈ p.updates, ∀ t ∈ u.insertTemplates, t.BlankFree

instance (p : Posted) : Decidable p.BlankFree :=
  inferInstanceAs (Decidable (∀ u ∈ p.updates, ∀ t ∈ u.insertTemplates, t.BlankFree))

theorem BlankFree.updates (h : p.BlankFree) : ∀ u ∈ p.updates, u.BlankFree := by
  intro u hu
  refine ⟨?_, h u hu⟩
  rw [Posted.updates] at hu
  cases htext : Update.ofText p.text with
  | error fault =>
    rw [htext] at hu
    cases hu
  | ok us =>
    rw [htext] at hu
    exact Update.ofText_deleteTemplates htext u hu

theorem space_of_batchOf (h : Update.batchOf src space next p.text = .ok (b, next')) :
    b.space = space := by
  obtain ⟨us, -, h⟩ := bind_eq_ok.mp h
  obtain ⟨⟨ops, n⟩, -, h⟩ := bind_eq_ok.mp h
  cases pure_eq_ok.mp h
  rfl

/-- A batch that the text stands for, as seen from a store, wherever new blank nodes are numbered
from. -/
def TranslatesTo (p : Posted) (space : String) (store : Store) (b : Batch) : Prop :=
  ∃ next next', Update.batchOf store.source space next p.text = .ok (b, next')

theorem TranslatesTo.space_eq (h : p.TranslatesTo space store b) : b.space = space :=
  let ⟨_, _, h⟩ := h
  space_of_batchOf h

/-- Where sets agree on what is read, a request stands for batches that do the same. -/
theorem batchOf_congr {qs qs' : SortedSet Quad} (hp : p.BlankFree) (h : src.Lawful qs)
    (h' : src'.Lawful qs') (hs : qs.AgreeOn p.reads qs')
    (hb : Update.batchOf src space next p.text = .ok (b, next')) (n : Nat) :
    ∃ b' n', Update.batchOf src' space n p.text = .ok (b', n') ∧
      Operation.Alike b.ops b'.ops := by
  obtain ⟨us, htext, hb⟩ := bind_eq_ok.mp hb
  obtain ⟨⟨ops, _⟩, hplan, hb⟩ := bind_eq_ok.mp hb
  rw [mapError_eq_ok] at htext hplan
  cases pure_eq_ok.mp hb
  have hus : p.updates = us := by rw [updates, htext]; rfl
  rcases Update.planAll_congr (hus ▸ hp.updates) h h' (hus ▸ hs) next n with
    ⟨fault, hplan', -⟩ | ⟨ops₁, n₁, ops', n', hplan₁, hplan', hops⟩
  · rw [hplan] at hplan'
    cases hplan'
  · rw [hplan] at hplan₁
    cases hplan₁
    refine ⟨⟨space, ops'⟩, n', ?_, hops⟩
    rw [Update.batchOf, htext]
    refine bind_eq_ok.mpr ⟨us, rfl, bind_eq_ok.mpr ⟨(ops', n'), ?_, rfl⟩⟩
    rw [hplan']
    rfl

/-- All batches that a request stands for do the same. -/
theorem TranslatesTo.alike (hp : p.BlankFree) (hstore : store.source.Lawful store.quads)
    (hb : p.TranslatesTo space store b) (hc : p.TranslatesTo space store c) :
    Operation.Alike b.ops c.ops := by
  obtain ⟨_, _, hb⟩ := hb
  obtain ⟨next, _, hc⟩ := hc
  obtain ⟨b', _, hb', hops⟩ := batchOf_congr hp hstore hstore (.refl _ _) hb next
  cases hc.symm.trans hb'
  exact hops

end Posted

/-! ## One after the other -/

namespace Service

/-- Makes requests one after the other. -/
def updateEach (space : String) : List Posted → ServiceM MemoryIndex (List Outcome)
  | [] => return []
  | p :: ps => do
    let o ← update space (.update p.text) .insert p.validate
    return o :: (← updateEach space ps)

/-- The store of a space after a run that succeeded. -/
def storeAfter {α : Type} (space : String) :
    Except Error α × Service MemoryIndex → Except Error Store
  | (.ok _, s) => s.registry.get space
  | (.error e, _) => .error e

theorem storeAfter_eq_ok {α : Type} {r : Except Error α × Service MemoryIndex} :
    storeAfter space r = .ok store ↔ ∃ a t, r = (.ok a, t) ∧ t.registry.get space = .ok store := by
  rcases r with ⟨e | a, t⟩
  · exact iff_of_false nofun nofun
  · exact ⟨fun h => ⟨a, t, rfl, h⟩, fun ⟨_, _, hr, h⟩ => by cases hr; exact h⟩

/-- Requests that are made one after the other are all accepted, and the space holds these quads
afterwards. -/
def Leaves (space : String) (ps : List Posted) (s : Service MemoryIndex)
    (qs : SortedSet Quad) : Prop :=
  (storeAfter space (updateEach space ps s)).map Store.quads = .ok qs

instance (space : String) (ps : List Posted) (s : Service MemoryIndex) (qs : SortedSet Quad) :
    Decidable (Leaves space ps s qs) :=
  inferInstanceAs (Decidable ((storeAfter space (updateEach space ps s)).map _ = .ok qs))

theorem leaves_of_run {ps : List Posted} {os : List Outcome}
    (h : updateEach space ps s = (.ok os, t)) (hget : t.registry.get space = .ok store) :
    Leaves space ps s store.quads :=
  map_eq_ok.mpr ⟨store, storeAfter_eq_ok.mpr ⟨os, t, h, hget⟩, rfl⟩

variable {p p' : Posted}

/-- A request is accepted if it can be translated and its batch is taken. -/
theorem update_ok_of_apply {counts : Counts} (hget : s.registry.get space = .ok store)
    (hb : Update.batchOf store.source space s.side.next p.text = .ok (b, next))
    (happly : store.apply b = .ok (mid, counts)) :
    ∃ o t, update space (.update p.text) .insert p.validate s = (.ok o, t) ∧
      t.registry.get space = .ok mid := by
  have hspace := Posted.space_of_batchOf hb
  subst hspace
  obtain ⟨o, t, hrun, hregistry⟩ :=
    applyBatch_of_apply (s := { s with side := { s.side with next } }) p.validate hget happly
  refine ⟨o, t, ?_, hregistry ▸ Registry.get_put hget⟩
  exact bind_run_eq_ok.mpr ⟨b, _, batchFor_ok.mpr ⟨store, next, hget, hb, rfl⟩, hrun⟩

/-- The space is there after a request. -/
theorem get_of_update {o : Outcome} (hget : s.registry.get space = .ok store)
    (h : update space (.update p.text) .insert p.validate s = (.ok o, t)) :
    ∃ store', t.registry.get space = .ok store' := by
  obtain ⟨b, s₁, hb, h⟩ := bind_run_eq_ok.mp h
  obtain ⟨_, next, _, hbatch, rfl⟩ := batchFor_ok.mp hb
  obtain ⟨_, store', _, _, _, hregistry⟩ := applyBatch_ok h
  rw [Posted.space_of_batchOf hbatch] at hregistry
  exact ⟨store', hregistry ▸ Registry.get_put hget⟩

theorem get_of_updateEach {ps : List Posted} {os : List Outcome}
    (hget : s.registry.get space = .ok store) (h : updateEach space ps s = (.ok os, t)) :
    ∃ store', t.registry.get space = .ok store' := by
  induction ps generalizing s store os with
  | nil =>
    cases h
    exact ⟨store, hget⟩
  | cons p ps ih =>
    obtain ⟨o, s₁, ho, h⟩ := bind_run_eq_ok.mp h
    obtain ⟨os', s₂, hos, h⟩ := bind_run_eq_ok.mp h
    cases h
    obtain ⟨store', hget'⟩ := get_of_update hget ho
    exact ih hget' hos

/-- Two requests one after the other, told by batches that do what theirs do. The second is
translated from what the first leaves. The dictionary that has all records shows that the machine's
limits are kept to. -/
theorem leaves_pair {d : Dictionary} (hget : s.registry.get space = .ok store)
    (hvalid : store.Valid) (hb : ∀ op ∈ b.ops, op.quad.Storable)
    (hc : ∀ op ∈ c.ops, op.quad.Storable)
    (hfirst : ∀ n, ∃ b' n', Update.batchOf store.source space n p.text = .ok (b', n') ∧
      Operation.Alike b.ops b'.ops)
    (hsecond : ∀ src : Source, src.Lawful (applyAll store.quads b.ops) → ∀ n, ∃ c' n',
      Update.batchOf src space n p'.text = .ok (c', n') ∧ Operation.Alike c.ops c'.ops)
    (hd : d.Fits) (hlists : ∀ record, Operation.Brings b.effective record ∨
      Operation.Brings c.effective record ∨ store.dictionary.Lists record → d.Lists record) :
    Leaves space [p, p'] s (applyAll (applyAll store.quads b.ops) c.ops) := by
  obtain ⟨b', n, hb', hbb'⟩ := hfirst s.side.next
  obtain ⟨mid, counts, hmid⟩ := Store.apply_of_alike hb hbb' store
  obtain ⟨o, s₁, hrun, hget₁⟩ := update_ok_of_apply hget hb' hmid
  have hlistsmid : ∀ record, mid.dictionary.Lists record ↔
      Operation.Brings b.effective record ∨ store.dictionary.Lists record := fun record => by
    rw [Store.lists_apply hmid, Store.brings_of_alike hbb']
  have hfmid : mid.Fits := Dictionary.fits_of_lists hd fun record hr =>
    hlists record (((hlistsmid record).mp hr).imp_right .inr)
  obtain ⟨hvmid, hqmid⟩ := hvalid.apply hmid hfmid
  rw [← hbb'] at hqmid
  obtain ⟨c', n', hc', hcc'⟩ :=
    hsecond mid.source (hqmid ▸ hvmid.source_lawful hfmid) s₁.side.next
  obtain ⟨left, counts', hleft⟩ := Store.apply_of_alike hc hcc' mid
  obtain ⟨o', s₂, hrun', hget₂⟩ := update_ok_of_apply hget₁ hc' hleft
  have hfleft : left.Fits := Dictionary.fits_of_lists hd fun record hr => by
    rw [Store.lists_apply hleft, ← Store.brings_of_alike hcc', hlistsmid, or_left_comm] at hr
    exact hlists record hr
  have hrunboth : updateEach space [p, p'] s = (.ok [o, o'], s₂) := by
    simp only [updateEach, bind_run, hrun, hrun', pure_run]
  rw [← hqmid, hcc', ← (hvmid.apply hleft hfleft).2]
  exact leaves_of_run hrunboth hget₂

end Service

/-! ## Taking turns -/

/-- The two sides of a race. -/
inductive Party where
  | first
  | second
  deriving DecidableEq

namespace Party

def other : Party → Party
  | first => second
  | second => first

theorem other_ne (party : Party) : party.other ≠ party := by cases party <;> nofun

theorem other_other (party : Party) : party.other.other = party := by cases party <;> rfl

end Party

/-- How far an update has come. -/
inductive Phase where
  | sent
  | translated (b : Batch)
  | applied (o : Outcome)

namespace Service

/-- Brings an update to its next phase. -/
def advance (space : String) (p : Posted) : Phase → ServiceM MemoryIndex Phase
  | .sent => return .translated (← batchFor space (.update p.text) .insert)
  | .translated b => return .applied (← applyBatch b p.validate)
  | .applied o => return .applied o

/-- Two updates that take turns. In its turn an update comes to its next phase. -/
def race (space : String) (posted : Party → Posted) (phases : Party → Phase) :
    List Party → ServiceM MemoryIndex (Party → Phase)
  | [] => return phases
  | party :: turns => do
    let phase ← advance space (posted party) (phases party)
    race space posted (Function.update phases party phase) turns

end Service

/-- Each party has its two turns. One of them has the last turn, and so it is the one that commits
last. Unless the other has its turns before, both translate before either commits. -/
theorem turns_cases {turns : List Party}
    (h : turns.Perm [.first, .first, .second, .second]) : ∃ early : Party,
      turns = [early, early, early.other, early.other] ∨
        turns = [early, early.other, early, early.other] ∨
          turns = [early.other, early, early, early.other] := by
  have hall : ∀ turns ∈ List.permutations' [Party.first, .first, .second, .second],
      (turns = [.first, .first, .second, .second] ∨ turns = [.first, .second, .first, .second] ∨
        turns = [.second, .first, .first, .second]) ∨
      turns = [.second, .second, .first, .first] ∨ turns = [.second, .first, .second, .first] ∨
        turns = [.first, .second, .second, .first] := by decide
  exact (hall turns (List.mem_permutations'.mpr h)).elim (⟨.first, ·⟩) (⟨.second, ·⟩)

namespace Service

variable {posted : Party → Posted} {phases phases' : Party → Phase} {turns : List Party}
  {early : Party} {p : Posted} {phase : Phase}

theorem race_cons_ok {party : Party} :
    race space posted phases (party :: turns) s = (.ok phases', t) ↔ ∃ phase s',
      advance space (posted party) (phases party) s = (.ok phase, s') ∧
        race space posted (Function.update phases party phase) turns s' = (.ok phases', t) :=
  bind_run_eq_ok

theorem advance_sent (h : advance space p .sent s = (.ok phase, t)) :
    ∃ b, phase = .translated b ∧ batchFor space (.update p.text) .insert s = (.ok b, t) := by
  obtain ⟨b, s', hrun, h⟩ := bind_run_eq_ok.mp h
  cases h
  exact ⟨b, rfl, hrun⟩

theorem advance_translated (h : advance space p (.translated b) s = (.ok phase, t)) :
    ∃ o, phase = .applied o ∧ applyBatch b p.validate s = (.ok o, t) := by
  obtain ⟨o, s', hrun, h⟩ := bind_run_eq_ok.mp h
  cases h
  exact ⟨o, rfl, hrun⟩

/-- If one has both its turns before the other, they are made one after the other. -/
theorem updateEach_of_race (h : race space posted (fun _ => .sent)
      [early, early, early.other, early.other] s = (.ok phases, t)) :
    ∃ os, updateEach space [posted early, posted early.other] s = (.ok os, t) := by
  obtain ⟨_, s₁, h₁, h⟩ := race_cons_ok.mp h
  obtain ⟨b, rfl, hb⟩ := advance_sent h₁
  obtain ⟨_, s₂, h₂, h⟩ := race_cons_ok.mp h
  rw [Function.update_self] at h₂
  obtain ⟨o, rfl, ho⟩ := advance_translated h₂
  obtain ⟨_, s₃, h₃, h⟩ := race_cons_ok.mp h
  rw [Function.update_of_ne early.other_ne, Function.update_of_ne early.other_ne] at h₃
  obtain ⟨c, rfl, hc⟩ := advance_sent h₃
  obtain ⟨_, s₄, h₄, h⟩ := race_cons_ok.mp h
  rw [Function.update_self] at h₄
  obtain ⟨o', rfl, ho'⟩ := advance_translated h₄
  cases h
  have hfirst : update space (.update (posted early).text) .insert (posted early).validate s =
      (.ok o, s₂) := bind_run_eq_ok.mpr ⟨b, s₁, hb, ho⟩
  have hsecond : update space (.update (posted early.other).text) .insert
      (posted early.other).validate s₂ = (.ok o', t) := bind_run_eq_ok.mpr ⟨c, s₃, hc, ho'⟩
  exact ⟨[o, o'], by simp only [updateEach, bind_run, hfirst, hsecond, pure_run]⟩

/-- If both have their first turns before either has its second, both are translated from what is
there at first. -/
theorem translations_of_race {party : Party} (hget : s.registry.get space = .ok store)
    (h : race space posted (fun _ => .sent) (party :: party.other :: turns) s = (.ok phases, t)) :
    ∃ b c next phases', (posted party).TranslatesTo space store b ∧
      (posted party.other).TranslatesTo space store c ∧
      phases' party = .translated b ∧ phases' party.other = .translated c ∧
      race space posted phases' turns { s with side := { s.side with next } } =
        (.ok phases, t) := by
  obtain ⟨_, s₁, h₁, h⟩ := race_cons_ok.mp h
  obtain ⟨b, rfl, hb⟩ := advance_sent h₁
  obtain ⟨_, next, hget₁, hbatch, rfl⟩ := batchFor_ok.mp hb
  cases hget.symm.trans hget₁
  obtain ⟨_, s₂, h₂, h⟩ := race_cons_ok.mp h
  rw [Function.update_of_ne party.other_ne] at h₂
  obtain ⟨c, rfl, hc⟩ := advance_sent h₂
  obtain ⟨_, next', hget₂, hbatch', rfl⟩ := batchFor_ok.mp hc
  cases hget.symm.trans hget₂
  refine ⟨b, c, next', _, ⟨_, _, hbatch⟩, ⟨_, _, hbatch'⟩, ?_, Function.update_self .., h⟩
  rw [Function.update_of_ne party.other_ne.symm, Function.update_self]

/-- The second turns write to the store one after the other. -/
theorem commits_of_race (hget : s.registry.get space = .ok store) (hb : b.space = space)
    (hc : c.space = space) (hearly : phases early = .translated b)
    (hlate : phases early.other = .translated c)
    (h : race space posted phases [early, early.other] s = (.ok phases', t)) :
    ∃ mid left counts counts', store.apply b = .ok (mid, counts) ∧
      mid.apply c = .ok (left, counts') ∧ t.registry.get space = .ok left := by
  obtain ⟨_, s₁, h₁, h⟩ := race_cons_ok.mp h
  rw [hearly] at h₁
  obtain ⟨o, rfl, ho⟩ := advance_translated h₁
  obtain ⟨store₁, mid, counts, hget₁, happly, hregistry⟩ := applyBatch_ok ho
  rw [hb] at hget₁ hregistry
  cases hget.symm.trans hget₁
  have hmid : s₁.registry.get space = .ok mid := hregistry ▸ Registry.get_put hget
  obtain ⟨_, s₂, h₂, h⟩ := race_cons_ok.mp h
  rw [Function.update_of_ne early.other_ne, hlate] at h₂
  obtain ⟨o', rfl, ho'⟩ := advance_translated h₂
  obtain ⟨store₂, left, counts', hget₂, happly', hregistry'⟩ := applyBatch_ok ho'
  rw [hc] at hget₂ hregistry'
  cases hmid.symm.trans hget₂
  cases h
  exact ⟨mid, left, counts, counts', happly, happly', hregistry' ▸ Registry.get_put hmid⟩

/-- Batches that are translated from what is there at first and applied one after the other leave
what the requests leave one after the other, if the request that comes second reads nothing that
the batch before it changes. Compatible batches may as well have been applied the other way round.
-/
theorem leaves_of_overlap {p' : Posted} {counts counts' : Counts}
    (hget : s.registry.get space = .ok store) (hstore : store.Reachable) (hp : p.BlankFree)
    (hp' : p'.BlankFree) (hb : p.TranslatesTo space store b) (hc : p'.TranslatesTo space store c)
    (hmid : store.apply b = .ok (mid, counts)) (hleft : mid.apply c = .ok (left, counts'))
    (hf : left.Fits) : left.quads = applyAll (applyAll store.quads b.ops) c.ops ∧
      (store.quads.AgreeOn p'.reads (applyAll store.quads b.ops) →
        Leaves space [p, p'] s left.quads) ∧
      (store.quads.AgreeOn p.reads (applyAll store.quads c.ops) →
        Operation.Compatible b.ops c.ops → Leaves space [p', p] s left.quads) := by
  have hfmid := Store.fits_of_apply hleft hf
  have hfstore := Store.fits_of_apply hmid hfmid
  have hvalid := (hstore.valid hfstore).1
  obtain ⟨hvmid, hqmid⟩ := hvalid.apply hmid hfmid
  have hquads : left.quads = applyAll (applyAll store.quads b.ops) c.ops := by
    rw [(hvmid.apply hleft hf).2, hqmid]
  have hlists : ∀ record, Operation.Brings b.effective record ∨
      Operation.Brings c.effective record ∨ store.dictionary.Lists record →
        left.dictionary.Lists record := fun record hr => by
    rw [Store.lists_apply hleft, Store.lists_apply hmid, or_left_comm]
    exact hr
  have hbs := (Store.apply_eq_ok.mp hmid).1
  have hcs := (Store.apply_eq_ok.mp hleft).1
  have hlawful := hvalid.source_lawful hfstore
  obtain ⟨n, n', hb⟩ := hb
  obtain ⟨m, m', hc⟩ := hc
  refine ⟨hquads, fun hs => ?_, fun hs hcompatible => ?_⟩ <;> rw [hquads]
  · exact leaves_pair hget hvalid hbs hcs
      (p.batchOf_congr hp hlawful hlawful (.refl _ _) hb)
      (fun src hsrc => p'.batchOf_congr hp' hlawful hsrc hs hc) hf hlists
  · rw [hcompatible.applyAll_comm]
    exact leaves_pair hget hvalid hcs hbs
      (p'.batchOf_congr hp' hlawful hlawful (.refl _ _) hc)
      (fun src hsrc => p.batchOf_congr hp hlawful hsrc hs hb) hf
      fun record hr => hlists record (or_left_comm.mp hr)

/-- Two updates of a space that take turns come to an end in a set of quads. If one has both its
turns before the other, they leave what they leave one after the other. If they overlap, both
batches are translated from what the space holds at first and are applied whole, in the order of
the commits. This is what they leave one after the other in that order if the later one reads no
quad that the batch of the earlier one changes. It is what they leave in the opposite order if the
earlier one reads no quad that the batch of the later one changes and the batches are compatible. -/
theorem quads_of_race (hget : s.registry.get space = .ok store) (hstore : store.Reachable)
    (hblank : ∀ party, (posted party).BlankFree)
    (hturns : turns.Perm [.first, .first, .second, .second])
    (hrun : race space posted (fun _ => .sent) turns s = (.ok phases, t)) :
    ∃ left, t.registry.get space = .ok left ∧ (left.Fits → ∃ early : Party,
      turns = [early, early, early.other, early.other] ∧
          Leaves space [posted early, posted early.other] s left.quads ∨
        (turns = [early, early.other, early, early.other] ∨
            turns = [early.other, early, early, early.other]) ∧
          ∃ b c, (posted early).TranslatesTo space store b ∧
            (posted early.other).TranslatesTo space store c ∧
            left.quads = applyAll (applyAll store.quads b.ops) c.ops ∧
            (store.quads.AgreeOn (posted early.other).reads (applyAll store.quads b.ops) →
              Leaves space [posted early, posted early.other] s left.quads) ∧
            (store.quads.AgreeOn (posted early).reads (applyAll store.quads c.ops) →
              Operation.Compatible b.ops c.ops →
                Leaves space [posted early.other, posted early] s left.quads)) := by
  obtain ⟨early, rfl | hoverlap⟩ := turns_cases hturns
  · obtain ⟨os, h⟩ := updateEach_of_race hrun
    obtain ⟨left, hleft⟩ := get_of_updateEach hget h
    exact ⟨left, hleft, fun _ => ⟨early, .inl ⟨rfl, leaves_of_run h hleft⟩⟩⟩
  · have htranslated : ∃ b c next phases', (posted early).TranslatesTo space store b ∧
        (posted early.other).TranslatesTo space store c ∧ phases' early = .translated b ∧
        phases' early.other = .translated c ∧ race space posted phases' [early, early.other]
          { s with side := { s.side with next } } = (.ok phases, t) := by
      rcases hoverlap with rfl | rfl
      · exact translations_of_race hget hrun
      · have hrun' : race space posted (fun _ => .sent)
            [early.other, early.other.other, early, early.other] s = (.ok phases, t) := by
          rwa [early.other_other]
        obtain ⟨c, b, next, phases', hc, hb, hearly, hlate, h⟩ := translations_of_race hget hrun'
        rw [early.other_other] at hb hlate
        exact ⟨b, c, next, phases', hb, hc, hlate, hearly, h⟩
    obtain ⟨b, c, next, phases', hb, hc, hearly, hlate, h⟩ := htranslated
    obtain ⟨mid, left, counts, counts', hmid, happly, hleft⟩ :=
      commits_of_race (s := { s with side := { s.side with next } }) hget hb.space_eq hc.space_eq
        hearly hlate h
    exact ⟨left, hleft, fun hf => ⟨early, .inr ⟨hoverlap, b, c, hb, hc,
      leaves_of_overlap hget hstore (hblank _) (hblank _) hb hc hmid happly hf⟩⟩⟩

end Service

/-! ## Renaming at the same time -/

namespace Renaming

/-- Gives the quads of one predicate another one. -/
def request (p p' : String) : Posted where
  text := "DELETE \x7b ?s <" ++ p ++ "> ?o \x7d INSERT \x7b ?s <" ++ p' ++
    "> ?o \x7d WHERE \x7b ?s <" ++ p ++ "> ?o \x7d"

/-- Either undoes what the other does. -/
def exchange : Party → Posted
  | .first => request "x:p" "x:q"
  | .second => request "x:q" "x:p"

/-- The second makes what the first looks for. -/
def shift : Party → Posted
  | .first => request "x:q" "x:r"
  | .second => request "x:p" "x:q"

def quad (n p : String) : Quad := ⟨.iri n, .iri p, .plain "v", .defaultGraph⟩

def primary : Store :=
  ([⟨.insert, quad "x:a" "x:p"⟩, ⟨.insert, quad "x:b" "x:q"⟩].foldl Store.perform ({}, {})).1

/-- The space of the store, with an index that has its quads. -/
def service : Service MemoryIndex where
  registry := ⟨(∅ : SortedMap _ _).insert "s" ⟨⟨"s", "1"⟩, primary⟩⟩
  side := { index := { datasets := (∅ : SortedMap _ _).insert "s" primary.quads } }

theorem get_service : service.registry.get "s" = .ok primary := by decide +kernel

theorem reachable_primary : primary.Reachable := by
  have hwrite : ({} : Store).write [⟨.insert, quad "x:a" "x:p"⟩, ⟨.insert, quad "x:b" "x:q"⟩] =
      .ok (primary, ⟨2, 0⟩) := by decide +kernel
  exact .write .empty hwrite

end Renaming

namespace Service

open Renaming

/-- A run that was evaluated. -/
private theorem exists_of_storeAfter {α : Type} {r : Except Error α × Service MemoryIndex}
    {qs : SortedSet Quad}
    (h : (storeAfter space r).map (fun left => (left.quads, decide left.Fits)) = .ok (qs, true)) :
    ∃ a t left, r = (.ok a, t) ∧ t.registry.get space = .ok left ∧ left.Fits ∧ left.quads = qs := by
  obtain ⟨left, hleft, heq⟩ := map_eq_ok.mp h
  obtain ⟨a, t, hr, hget⟩ := storeAfter_eq_ok.mp hleft
  obtain ⟨hquads, hfits⟩ := Prod.mk.inj heq
  exact ⟨a, t, left, hr, hget, of_decide_eq_true hfits, hquads⟩

/-- Renamings that overlap exchange two predicates. One after the other, in either order, they leave
only one of them. -/
theorem quads_of_race_exchanged : service.registry.get "s" = .ok primary ∧ primary.Reachable ∧
    (∀ party, (exchange party).BlankFree) ∧
    [Party.first, .second, .first, .second].Perm [.first, .first, .second, .second] ∧
    ∃ phases t left, race "s" exchange (fun _ => .sent) [.first, .second, .first, .second] service =
        (.ok phases, t) ∧
      t.registry.get "s" = .ok left ∧ left.Fits ∧
      ∀ party, ¬ Leaves "s" [exchange party, exchange party.other] service left.quads := by
  have hblank : (exchange .first).BlankFree ∧ (exchange .second).BlankFree := by decide +kernel
  have hleft : (storeAfter "s" (race "s" exchange (fun _ => .sent)
      [.first, .second, .first, .second] service)).map
        (fun left => (left.quads, decide left.Fits)) =
      .ok (.ofList [quad "x:a" "x:q", quad "x:b" "x:p"], true) := by decide +kernel
  have hserial : ¬ Leaves "s" [exchange .first, exchange .second] service
      (.ofList [quad "x:a" "x:q", quad "x:b" "x:p"]) := by decide +kernel
  have hserial' : ¬ Leaves "s" [exchange .second, exchange .first] service
      (.ofList [quad "x:a" "x:q", quad "x:b" "x:p"]) := by decide +kernel
  obtain ⟨phases, t, left, hrun, hget, hf, hquads⟩ := exists_of_storeAfter hleft
  refine ⟨get_service, reachable_primary, fun party => ?_, by decide, phases, t, left, hrun, hget,
    hf, fun party => ?_⟩
  · cases party
    exacts [hblank.1, hblank.2]
  · rw [hquads]
    cases party
    exacts [hserial, hserial']

/-- The first renaming is made while the second is under way. The second reads nothing that the
first changes, so it is as if it came afterwards. -/
theorem quads_of_race_shifted : service.registry.get "s" = .ok primary ∧ primary.Reachable ∧
    (∀ party, (shift party).BlankFree) ∧
    [Party.second, .first, .first, .second].Perm [.first, .first, .second, .second] ∧
    ∃ phases t left, race "s" shift (fun _ => .sent) [.second, .first, .first, .second] service =
        (.ok phases, t) ∧
      t.registry.get "s" = .ok left ∧ left.Fits ∧
      left.quads = .ofList [quad "x:a" "x:q", quad "x:b" "x:r"] ∧
      Leaves "s" [shift .first, shift .second] service left.quads := by
  have hfirst : (shift .first).BlankFree := by decide +kernel
  have hsecond : (shift .second).BlankFree := by decide +kernel
  have hblank : ∀ party, (shift party).BlankFree := fun party => by
    cases party
    exacts [hfirst, hsecond]
  have hturns : [Party.second, .first, .first, .second].Perm
      [.first, .first, .second, .second] := by decide
  have hleft : (storeAfter "s" (race "s" shift (fun _ => .sent)
      [.second, .first, .first, .second] service)).map
        (fun left => (left.quads, decide left.Fits)) =
      .ok (.ofList [quad "x:a" "x:q", quad "x:b" "x:r"], true) := by decide +kernel
  have hbatch : (shift .first).TranslatesTo "s" primary
      ⟨"s", [⟨.delete, quad "x:b" "x:q"⟩, ⟨.insert, quad "x:b" "x:r"⟩]⟩ :=
    ⟨0, 0, by decide +kernel⟩
  have hunread : primary.quads.AgreeOn (shift .second).reads (applyAll primary.quads
      [⟨.delete, quad "x:b" "x:q"⟩, ⟨.insert, quad "x:b" "x:r"⟩]) := by decide +kernel
  have hfits : primary.Fits := by decide +kernel
  have hlawful := (reachable_primary.valid hfits).1.source_lawful hfits
  obtain ⟨phases, t, left, hrun, hget, hf, hquads⟩ := exists_of_storeAfter hleft
  refine ⟨get_service, reachable_primary, hblank, hturns, phases, t, left, hrun, hget, hf, hquads,
    ?_⟩
  obtain ⟨_, hget', hend⟩ := quads_of_race get_service reachable_primary hblank hturns hrun
  cases hget.symm.trans hget'
  obtain ⟨early, ⟨hserial, -⟩ | ⟨horder, b, c, hb, -, -, hleaves, -⟩⟩ := hend hf
  · cases early <;> cases hserial
  · cases early with
    | first =>
      refine hleaves ?_
      rw [hb.alike hfirst hlawful hbatch]
      exact hunread
    | second => rcases horder with h | h <;> cases h

end Service

end DualStore
