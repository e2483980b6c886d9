import DualStore.Proofs.Runs
import Mathlib.Data.List.Induction

/-! The lives of a space. Its dataset outlives it when it is dropped while the index is off, and the
next space of that name starts with what is left there. A space starts with an empty dataset, or
with its whole scope recorded, in all cases but this one (`Service.createSpace_clean_iff`). -/

namespace DualStore
namespace Service

variable {s s' start : Service MemoryIndex} {name createdAt : String} {c : Call}

/-! ## Spaces that are not there -/

private theorem get_ne_ok (h : s.registry.contains name = false) (store : Store) :
    s.registry.get name ≠ .ok store := fun hget => by
  rw [Registry.contains_of_get hget] at h
  cases h

/-- Nothing is done for a space that is not there, besides making it. -/
private theorem perform_of_absent (h : s.registry.contains name = false)
    (hc : c.space? = some name) (h' : (s.perform c).registry.contains name = false) :
    SameBut s (s.perform c) := by
  cases c with
  | createSpace name createdAt =>
    cases hc
    rcases createSpace_cases (t := (createSpace name createdAt s).2) rfl with
      ⟨-, hrun⟩ | ⟨registry, hcreate, -, hrun⟩
    · rw [perform, hrun]
      exact refl_of SameBut s
    · have hreg : (createSpace name createdAt s).2.registry = registry := by
        rcases hrun with ⟨index, -, hrun⟩ | ⟨fault, -, hrun⟩ <;> rw [hrun]
      rw [perform, hreg, (Registry.create_eq_ok.mp hcreate).2.2, Registry.contains,
        SortedMap.contains, SortedMap.get?_insert, if_pos rfl] at h'
      cases h'
  | dropSpace name =>
    cases hc
    rcases dropSpace_cases (t := (dropSpace name s).2) rfl with ⟨-, hrun⟩ | ⟨registry, hremove, -⟩
    · rw [perform, hrun]
      exact refl_of SameBut s
    · rw [(Registry.remove_eq_ok.mp hremove).2.1] at h
      cases h
  | applyBatch b validate =>
    cases hc
    rcases applyBatch_cases (t := (applyBatch b validate s).2) rfl with
      ⟨-, hrun⟩ | ⟨store, store', counts, hget, -⟩
    · rw [perform, hrun]
      exact refl_of SameBut s
    · exact absurd hget (get_ne_ok h store)
  | update space body action validate =>
    cases hc
    rcases update_cases (t := (update name body action validate s).2) rfl with
      ⟨-, hrun⟩ | ⟨store, b, next, hget, -⟩
    · rw [perform, hrun]
      exact refl_of SameBut s
    · exact absurd hget (get_ne_ok h store)
  | rebuild space graph =>
    cases hc
    rw [perform, rebuild_run]
    split
    next store hget => exact absurd hget (get_ne_ok h store)
    next => exact refl_of SameBut s
  | check space graph => exact check_keeps s
  | sparqlQuery space text => exact sparqlQuery_keeps text s
  | reconcilePending | reconcileSpace | setAvailable => cases hc

/-- While a space is not there, its dataset stays as it is. -/
theorem mirror_perform_of_absent (hs : s.Valid) (h : s.registry.contains name = false)
    (h' : (s.perform c).registry.contains name = false) :
    (s.perform c).mirror name = s.mirror name := by
  cases hc : c.space? with
  | some other =>
    by_cases ho : name = other
    · subst ho
      exact (perform_of_absent h hc h').mirror
    · exact (perform_agreesBut hs hc).mirror ho
  | none =>
    refine (perform_induction hc (P := fun t => t.Valid ∧ t.mirror name = s.mirror name)
      (fun _ => ⟨valid_of_side hs _, rfl⟩) (fun e he sum t ht => ?_) ⟨hs, rfl⟩).2
    have hne : name ≠ e.space := by
      rintro rfl
      rw [hs.contains e he] at h
      cases h
    exact ⟨reconcileEntry_valid ht.1 sum e, ((reconcileEntry_agreesBut ht.1
      (hs.backlog.isScope he) sum).mirror hne).trans ht.2⟩

/-! ## Spaces that go -/

private theorem contains_applyBatch (b : Batch) (validate : Bool) (s : Service MemoryIndex)
    (name : String) :
    (applyBatch b validate s).2.registry.contains name = s.registry.contains name := by
  rcases applyBatch_cases (t := (applyBatch b validate s).2) rfl with
    ⟨-, hrun⟩ | ⟨store, store', counts, -, -, ⟨side, -, hrun⟩ | ⟨fault, side, -, hrun⟩⟩
  · rw [hrun]
  · rw [hrun.registry, Registry.contains_put]
  · rw [hrun, Registry.contains_put]

private theorem contains_update {space : String} {body : Body} {action : Action} {validate : Bool} :
    (update space body action validate s).2.registry.contains name = s.registry.contains name := by
  rcases update_cases (t := (update space body action validate s).2) rfl with
    ⟨-, hrun⟩ | ⟨store, b, next, -, -, hrun⟩
  · rw [hrun]
  · have := contains_applyBatch b validate { s with side := { s.side with next } } name
    rwa [hrun] at this

/-- A space goes only when it is dropped. -/
theorem contains_perform (h : s.registry.contains name = true) (hc : c ≠ .dropSpace name) :
    (s.perform c).registry.contains name = true := by
  cases c with
  | createSpace other createdAt =>
    rcases createSpace_cases (t := (createSpace other createdAt s).2) rfl with
      ⟨-, hrun⟩ | ⟨registry, hcreate, -, ⟨index, -, hrun⟩ | ⟨fault, -, hrun⟩⟩ <;> rw [perform, hrun]
    · exact h
    all_goals
      rw [(Registry.create_eq_ok.mp hcreate).2.2]
      exact (contains_insert ..).mpr (.inr h)
  | dropSpace other =>
    rcases dropSpace_cases (t := (dropSpace other s).2) rfl with
      ⟨-, hrun⟩ | ⟨registry, hremove, hrun⟩ <;> rw [perform, hrun]
    · exact h
    · rw [(Registry.remove_eq_ok.mp hremove).2.2]
      exact (contains_erase _).mpr ⟨fun he => hc (he ▸ rfl), h⟩
  | applyBatch b validate => rwa [perform, contains_applyBatch]
  | update space body action validate => rwa [perform, contains_update]
  | rebuild space graph => rwa [perform, registry_rebuild]
  | check space graph => rwa [perform, (check_keeps s).registry]
  | sparqlQuery space text => rwa [perform, (sparqlQuery_keeps text s).registry]
  | reconcilePending | reconcileSpace | setAvailable => rwa [registry_perform_of_unscoped rfl]

/-- A dataset that cannot be reached is not removed with its space. -/
theorem mirror_dropSpace (h : s.registry.contains name = true)
    (h' : (dropSpace name s).2.registry.contains name = false) :
    (dropSpace name s).2.mirror name = if s.side.index.available then ∅ else s.mirror name := by
  rcases dropSpace_cases (t := (dropSpace name s).2) rfl with ⟨-, hrun⟩ | ⟨registry, -, hrun⟩
  · rw [hrun, h] at h'
    cases h'
  · rw [hrun, mirror, mirror, IndexM.remove]
    cases hremove : MemoryIndex.remove name s.side.index with
    | ok index =>
      obtain ⟨hav, -⟩ := MemoryIndex.remove_eq_ok.mp hremove
      simp only [TripleIndex.remove, hremove, hav, if_true, MemoryIndex.held_of_remove hremove]
    | error fault =>
      have hav := MemoryIndex.available_of_remove_error hremove
      simp only [TripleIndex.remove, hremove, hav, Bool.false_eq_true, if_false]

/-! ## What new spaces start with -/

/-- Nothing was asked of the service so far, and its index is empty. -/
structure Fresh (s : Service MemoryIndex) : Prop where
  registry : s.registry = {}
  backlog : s.backlog = {}
  datasets : s.side.index.datasets = ∅

theorem Fresh.valid (h : s.Fresh) : s.Valid := by
  refine ⟨fun name hname => ?_, ?_, fun e he => ?_⟩
  · rw [h.registry] at hname
    cases hname
  · rw [h.backlog]
    exact Backlog.valid_empty
  · rw [h.backlog] at he
    cases he

/-- When the space was last dropped, the index was off and held something of it. The space has not
been there since. -/
def Stranded (start : Service MemoryIndex) (calls : List Call) (name : String) : Prop :=
  ∃ before after, calls = before ++ .dropSpace name :: after ∧
    (start.run before).registry.contains name = true ∧
    (start.run before).side.index.available = false ∧
    (start.run before).mirror name ≠ ∅ ∧
    ∀ part, part <+: after →
      (start.run (before ++ .dropSpace name :: part)).registry.contains name = false

/-- Being stranded lasts for as long as the space is not there. -/
private theorem stranded_concat {calls : List Call}
    (h : (start.run calls).registry.contains name = false)
    (h' : (start.run (calls ++ [c])).registry.contains name = false) :
    start.Stranded (calls ++ [c]) name ↔ start.Stranded calls name := by
  constructor
  · rintro ⟨before, after, hcalls, hthere, hoff, hheld, hgone⟩
    rcases List.eq_nil_or_concat after with rfl | ⟨after, last, rfl⟩
    · obtain ⟨rfl, -⟩ := List.append_inj' hcalls rfl
      rw [hthere] at h
      cases h
    · rw [List.concat_eq_append, ← List.cons_append, ← List.append_assoc] at hcalls
      obtain ⟨rfl, -⟩ := List.append_inj' hcalls rfl
      exact ⟨before, after, rfl, hthere, hoff, hheld, fun part hpart =>
        hgone part (hpart.trans (List.concat_eq_append ▸ List.prefix_append _ _))⟩
  · rintro ⟨before, after, rfl, hthere, hoff, hheld, hgone⟩
    refine ⟨before, after ++ [c], by simp, hthere, hoff, hheld, fun part hpart => ?_⟩
    rcases List.prefix_concat_iff.mp hpart with rfl | hpart
    · simpa using h'
    · exact hgone part hpart

/-- A space is stranded by a drop that finds the index off and something in its dataset. -/
private theorem stranded_dropSpace {calls : List Call}
    (h : (start.run calls).registry.contains name = true)
    (h' : (start.run (calls ++ [.dropSpace name])).registry.contains name = false) :
    start.Stranded (calls ++ [.dropSpace name]) name ↔
      (start.run calls).side.index.available = false ∧ (start.run calls).mirror name ≠ ∅ := by
  constructor
  · rintro ⟨before, after, hcalls, hthere, hoff, hheld, hgone⟩
    rcases List.eq_nil_or_concat after with rfl | ⟨after, last, rfl⟩
    · obtain ⟨rfl, -⟩ := List.append_inj' hcalls rfl
      exact ⟨hoff, hheld⟩
    · rw [List.concat_eq_append, ← List.cons_append, ← List.append_assoc] at hcalls
      obtain ⟨rfl, -⟩ := List.append_inj' hcalls rfl
      rw [hgone after (List.concat_eq_append ▸ List.prefix_append _ _)] at h
      cases h
  · rintro ⟨hoff, hheld⟩
    refine ⟨calls, [], rfl, h, hoff, hheld, fun part hpart => ?_⟩
    rwa [List.prefix_nil.mp hpart]

/-- What the index holds of a space that is not there was left by its last drop. -/
theorem mirror_ne_empty_iff_stranded (hs : start.Fresh) (calls : List Call)
    (h : (start.run calls).registry.contains name = false) :
    (start.run calls).mirror name ≠ ∅ ↔ start.Stranded calls name := by
  -- from the end of the run, as what its last call finds decides whether a dataset is left over
  induction calls using List.reverseRecOn with
  | nil =>
    have hempty : start.mirror name = ∅ := by
      rw [mirror, MemoryIndex.held, hs.datasets]
      rfl
    refine iff_of_false (fun hne => hne hempty) ?_
    rintro ⟨before, after, hcalls, -⟩
    exact absurd hcalls (by simp)
  | append_singleton calls c ih =>
    cases hbefore : (start.run calls).registry.contains name with
    | false =>
      rw [stranded_concat hbefore h, ← ih hbefore, run_concat,
        mirror_perform_of_absent (run_valid hs.valid calls) hbefore (run_concat .. ▸ h)]
    | true =>
      by_cases hc : c = .dropSpace name
      · subst hc
        have hgone := h
        rw [run_concat] at hgone
        rw [stranded_dropSpace hbefore h, run_concat, perform, mirror_dropSpace hbefore hgone]
        cases (start.run calls).side.index.available <;> simp
      · rw [run_concat, contains_perform hbefore hc] at h
        cases h

/-- A space that is made starts with an empty dataset, or its whole scope is recorded, unless the
index is on and was off when the last space of that name was dropped. -/
theorem createSpace_clean_iff (hs : start.Fresh) {calls : List Call} {info : SpaceInfo}
    (h : createSpace name createdAt (start.run calls) = (.ok info, s')) :
    (s'.mirror name = ∅ ∨ ∃ e ∈ s'.backlog.pending, e.space = name ∧ e.graph = none) ↔
      ¬ ((start.run calls).side.index.available = true ∧ start.Stranded calls name) := by
  have hvalid := run_valid hs.valid calls
  rcases createSpace_cases h with ⟨⟨e, he⟩, -⟩ | ⟨registry, hcreate, -, hcases⟩
  · cases he
  obtain ⟨hname, habsent, -⟩ := Registry.create_eq_ok.mp hcreate
  rw [← mirror_ne_empty_iff_stranded hs calls habsent]
  rcases hcases with ⟨index, hindex, rfl⟩ | ⟨fault, hindex, rfl⟩
  · obtain ⟨hav, -⟩ := MemoryIndex.create_eq_ok.mp hindex
    have hnone : ¬ ∃ e ∈ (start.run calls).backlog.pending, e.space = name ∧ e.graph = none := by
      rintro ⟨e, he, rfl, -⟩
      rw [hvalid.contains e he] at habsent
      cases habsent
    have hsame : index.held name = (start.run calls).mirror name :=
      MemoryIndex.held_of_create hindex
    rw [or_iff_left hnone, mirror, hsame, hav, eq_self, true_and, not_not]
  · have hoff := MemoryIndex.available_of_create_error hindex
    have hrecorded := (hvalid.backlog.mem_pending_record (.whole hname)
      fault.message).mpr (.inl rfl)
    refine iff_of_true (.inr ⟨_, hrecorded, rfl, rfl⟩) ?_
    rw [hoff]
    exact fun h => Bool.noConfusion h.1

/-- A space that was dropped while the index was off has its old quad in the index when it is made
again, and no rebuild is scheduled. -/
theorem createSpace_clean_iff_dropped_offline :
    let start : Service MemoryIndex := { side := { index := {} } }
    let calls : List Call := [.createSpace "s" "1",
      .applyBatch ⟨"s", [⟨.insert, ⟨.iri "x:a", .iri "x:p", .plain "v", .defaultGraph⟩⟩]⟩ false,
      .setAvailable false, .dropSpace "s", .setAvailable true]
    let s' := (createSpace "s" "2" (start.run calls)).2
    start.Fresh ∧ createSpace "s" "2" (start.run calls) = (.ok ⟨"s", "2"⟩, s') ∧
      ¬ (s'.mirror "s" = ∅ ∨ ∃ e ∈ s'.backlog.pending, e.space = "s" ∧ e.graph = none) := by
  intro start calls s'
  have hs : start.Fresh := ⟨rfl, rfl, rfl⟩
  have hcreate : createSpace "s" "2" (start.run calls) = (.ok ⟨"s", "2"⟩, s') :=
    Prod.ext (by decide +kernel) rfl
  refine ⟨hs, hcreate, fun h => (createSpace_clean_iff hs hcreate).mp h ⟨by decide +kernel, ?_⟩⟩
  refine ⟨calls.take 3, [.setAvailable true], rfl, by decide +kernel, by decide +kernel,
    by decide +kernel, fun part hpart => ?_⟩
  rcases List.prefix_cons_iff.mp hpart with rfl | ⟨rest, rfl, hrest⟩
  · decide +kernel
  · rw [List.prefix_nil.mp hrest]
    decide +kernel

end Service
end DualStore
