import DualStore.Proofs.Rebuilding
import DualStore.Proofs.RefusedRequests

/-! Work that runs alike from states that are alike (`Respects`). What is done to the index about
one space goes by the dataset of that space alone, and rebuilds do not even go by the numbers of new
blank nodes (`Scope.rebuild_respects_of_storable`). -/

namespace DualStore

section
variable {ε ε' σ α β : Type}

/-- From states that are related, the work comes to the same result and to states that are
related. -/
def Respects (R : σ → σ → Prop) (x : ExceptT ε (StateM σ) α) : Prop :=
  ∀ s t, R s t → (x s).1 = (x t).1 ∧ R (x s).2 (x t).2

variable {R : σ → σ → Prop} {x : ExceptT ε (StateM σ) α}

theorem Respects.pure (a : α) : Respects R (Pure.pure a : ExceptT ε (StateM σ) α) :=
  fun _ _ h => ⟨rfl, h⟩

theorem Respects.throw (e : ε) : Respects R (MonadExcept.throw e : ExceptT ε (StateM σ) α) :=
  fun _ _ h => ⟨rfl, h⟩

/-- What follows need only respect the relation for results that the work can come to. -/
theorem Respects.bind_of {P : α → Prop} {f : α → ExceptT ε (StateM σ) β} (hx : Respects R x)
    (hP : ∀ s a t, x s = (.ok a, t) → P a) (hf : ∀ a, P a → Respects R (f a)) :
    Respects R (x >>= f) := by
  intro s t h
  have hfirst := hx s t h
  have hpost := hP s
  rw [bind_run, bind_run]
  generalize x s = r at hfirst hpost ⊢
  generalize x t = r' at hfirst ⊢
  obtain ⟨e | a, s'⟩ := r <;> obtain ⟨r', t'⟩ := r' <;> obtain ⟨hr, h'⟩ := hfirst <;> cases hr
  · exact ⟨rfl, h'⟩
  · exact hf a (hpost a s' rfl) s' t' h'

theorem Respects.bind {f : α → ExceptT ε (StateM σ) β} (hx : Respects R x)
    (hf : ∀ a, Respects R (f a)) : Respects R (x >>= f) :=
  hx.bind_of (P := fun _ => True) (fun _ _ _ _ => trivial) fun a _ => hf a

/-- Only what related states have in common is used of the state. -/
theorem Respects.get_bind {f : σ → ExceptT ε (StateM σ) β} (heq : ∀ s t, R s t → f s = f t)
    (hf : ∀ s, Respects R (f s)) : Respects R (MonadState.get >>= f) := by
  intro s t h
  rw [bind_run, bind_run, get_run, get_run]
  dsimp only
  rw [heq s t h]
  exact hf t s t h

theorem Respects.tryCatch {h : ε → ExceptT ε (StateM σ) α} (hx : Respects R x)
    (hh : ∀ e, Respects R (h e)) : Respects R (MonadExcept.tryCatch x h) := by
  intro s t hst
  have hfirst := hx s t hst
  rw [tryCatch_run, tryCatch_run]
  generalize x s = r at hfirst ⊢
  generalize x t = r' at hfirst ⊢
  obtain ⟨e | a, s'⟩ := r <;> obtain ⟨r', t'⟩ := r' <;> obtain ⟨hr, h'⟩ := hfirst <;> cases hr
  · exact hh e s' t' h'
  · exact ⟨rfl, h'⟩

theorem Respects.adapt (f : ε → ε') (hx : Respects R x) :
    Respects R (ExceptT.adapt f x : ExceptT ε' (StateM σ) α) := fun s t h =>
  ⟨congrArg (Except.mapError f) (hx s t h).1, (hx s t h).2⟩

end

/-! ## One dataset -/

namespace MemoryIndex

variable {i j k : MemoryIndex} {space other text : String} {fault : IndexFault}

/-- What a space can tell of the index is the same. -/
structure Alike (space : String) (i j : MemoryIndex) : Prop where
  available : i.available = j.available
  delay : i.delay = j.delay
  dataset : i.datasets.get? space = j.datasets.get? space

theorem Alike.refl (space : String) (i : MemoryIndex) : i.Alike space i := ⟨rfl, rfl, rfl⟩

theorem Alike.symm (h : i.Alike space j) : j.Alike space i :=
  ⟨h.available.symm, h.delay.symm, h.dataset.symm⟩

theorem Alike.trans (h : i.Alike space j) (h' : j.Alike space k) : i.Alike space k :=
  ⟨h.available.trans h'.available, h.delay.trans h'.delay, h.dataset.trans h'.dataset⟩

/-- Calls about another space do not show. -/
theorem AgreesBut.alike (h : i.AgreesBut other j) (hne : space ≠ other) : j.Alike space i :=
  ⟨h.available, h.delay, h.dataset space hne⟩

theorem Alike.insert (h : i.Alike space j) (m : SortedSet Quad) :
    Alike space { i with datasets := i.datasets.insert space m }
      { j with datasets := j.datasets.insert space m } :=
  ⟨h.available, h.delay, by
    rw [SortedMap.get?_insert, SortedMap.get?_insert, if_pos rfl, if_pos rfl]⟩

theorem Alike.erase (h : i.Alike space j) :
    Alike space { i with datasets := i.datasets.erase space }
      { j with datasets := j.datasets.erase space } :=
  ⟨h.available, h.delay, by rw [SortedMap.get?_erase, SortedMap.get?_erase, if_pos rfl, if_pos rfl]⟩

theorem Alike.checkAvailable (h : i.Alike space j) : i.checkAvailable = j.checkAvailable := by
  rw [MemoryIndex.checkAvailable, h.available, MemoryIndex.checkAvailable]

theorem Alike.dataset_eq (h : i.Alike space j) : i.dataset space = MemoryIndex.dataset j space := by
  rw [MemoryIndex.dataset, h.dataset, MemoryIndex.dataset]

theorem Alike.create (h : i.Alike space j) :
    (∃ fault, create space i = .error fault ∧ create space j = .error fault) ∨
    ∃ i' j', create space i = .ok i' ∧ create space j = .ok j' ∧ i'.Alike space j' := by
  have hcontains : i.datasets.contains space = j.datasets.contains space := by
    rw [SortedMap.contains, h.dataset, SortedMap.contains]
  rw [MemoryIndex.create, MemoryIndex.create, h.checkAvailable, hcontains]
  cases j.checkAvailable with
  | error fault => exact .inl ⟨fault, rfl, rfl⟩
  | ok =>
    refine .inr ?_
    cases j.datasets.contains space with
    | true => exact ⟨i, j, rfl, rfl, h⟩
    | false => exact ⟨_, _, rfl, rfl, h.insert ∅⟩

theorem Alike.remove (h : i.Alike space j) :
    (∃ fault, remove space i = .error fault ∧ remove space j = .error fault) ∨
    ∃ i' j', remove space i = .ok i' ∧ remove space j = .ok j' ∧ i'.Alike space j' := by
  rw [MemoryIndex.remove, MemoryIndex.remove, h.checkAvailable]
  cases j.checkAvailable with
  | error fault => exact .inl ⟨fault, rfl, rfl⟩
  | ok => exact .inr ⟨_, _, rfl, rfl, h.erase⟩

theorem Alike.update (h : i.Alike space j) (text : String) (next : Nat) :
    (∃ fault, update space text next i = .error fault ∧
      update space text next j = .error fault) ∨
    ∃ i' j' next', update space text next i = .ok (i', next') ∧
      update space text next j = .ok (j', next') ∧ i'.Alike space j' := by
  rw [MemoryIndex.update, MemoryIndex.update, h.checkAvailable, h.dataset_eq]
  cases j.checkAvailable with
  | error fault => exact .inl ⟨fault, rfl, rfl⟩
  | ok =>
    cases MemoryIndex.dataset j space with
    | error fault => exact .inl ⟨fault, rfl, rfl⟩
    | ok m =>
      cases hbatch : Update.batchOf (.ofSet m) space next text with
      | error cause =>
        refine .inl ⟨.refused cause, ?_, ?_⟩ <;> simp only [bind, Except.bind, hbatch] <;> rfl
      | ok r =>
        refine .inr ⟨_, _, r.2, ?_, ?_, h.insert (Operation.applyAll m r.1.effective)⟩ <;>
          simp only [bind, Except.bind, hbatch] <;> rfl

theorem Alike.query (h : i.Alike space j) (text : String) (next : Nat) :
    query space text next i = query space text next j := by
  rw [MemoryIndex.query, MemoryIndex.query, h.checkAvailable, h.dataset_eq]

end MemoryIndex

namespace IndexState

variable {N : Nat → Nat → Prop} {space : String} {s t u : IndexState MemoryIndex}

/-- What a space can tell of the index is the same, and the numbers of the next new blank nodes are
related by `N`. -/
structure Alike (N : Nat → Nat → Prop) (space : String) (s t : IndexState MemoryIndex) : Prop where
  index : s.index.Alike space t.index
  next : N s.next t.next

/-- Any two numbers. -/
def Any (_ _ : Nat) : Prop := True

theorem Alike.any (h : s.Alike N space t) : s.Alike Any space t := ⟨h.index, trivial⟩

theorem Alike.symm (h : s.Alike Any space t) : t.Alike Any space s := ⟨h.index.symm, trivial⟩

theorem Alike.trans (h : s.Alike Any space t) (h' : t.Alike Any space u) : s.Alike Any space u :=
  ⟨h.index.trans h'.index, trivial⟩

end IndexState

open IndexState (Alike)

variable {N : Nat → Nat → Prop} {space text : String} {settings : Settings} {store : Store}
  {graph : Option Term} {qs : List Quad}

namespace IndexM

theorem create_respects : Respects (Alike N space) (create (ι := MemoryIndex) space) := by
  intro s t h
  unfold create
  simp only [TripleIndex.create]
  rcases h.index.create with ⟨fault, hs, ht⟩ | ⟨i, j, hs, ht, halike⟩ <;> rw [hs, ht]
  · exact ⟨rfl, h⟩
  · exact ⟨rfl, halike, h.next⟩

theorem remove_respects : Respects (Alike N space) (remove (ι := MemoryIndex) space) := by
  intro s t h
  unfold remove
  simp only [TripleIndex.remove]
  rcases h.index.remove with ⟨fault, hs, ht⟩ | ⟨i, j, hs, ht, halike⟩ <;> rw [hs, ht]
  · exact ⟨rfl, h⟩
  · exact ⟨rfl, halike, h.next⟩

theorem updateWithin_respects (limit : Nat) (text : String) :
    Respects (Alike Eq space) (updateWithin (ι := MemoryIndex) limit space text) := by
  intro s t h
  unfold updateWithin update
  simp only [TripleIndex.delay, TripleIndex.update, h.index.delay, h.next]
  split
  · exact ⟨rfl, h⟩
  rcases h.index.update text t.next with ⟨fault, hs, ht⟩ | ⟨i, j, next, hs, ht, halike⟩ <;>
    rw [hs, ht]
  · exact ⟨rfl, h⟩
  · exact ⟨rfl, halike, rfl⟩

theorem query_respects (text : String) :
    Respects (Alike Eq space) (query (ι := MemoryIndex) space text) := by
  intro s t h
  unfold query
  simp only [TripleIndex.query, h.index.query, h.next]
  split
  · exact ⟨rfl, h.index, rfl⟩
  · exact ⟨rfl, h⟩

/-! ## Updates without new blank nodes -/

/-- What an update does to an index does not go by the number of the next new blank node, and leaves
it as it is. -/
def Plain (space text : String) : Prop := ∀ i : MemoryIndex, ∃ r : Except IndexFault MemoryIndex,
  ∀ next, MemoryIndex.update space text next i = r.map (·, next)

/-- Without a dataset to update, no update goes by the number. -/
theorem plain_of_update (h : ∀ (i : MemoryIndex) (m : SortedSet Quad), i.available = true →
    i.datasets.get? space = some m → ∃ r : Except IndexFault MemoryIndex,
      ∀ next, MemoryIndex.update space text next i = r.map (·, next)) : Plain space text := by
  intro i
  cases hav : i.checkAvailable with
  | error fault =>
    refine ⟨.error fault, fun next => ?_⟩
    rw [MemoryIndex.update, hav]
    rfl
  | ok =>
    cases hm : i.dataset space with
    | error fault =>
      refine ⟨.error fault, fun next => ?_⟩
      rw [MemoryIndex.update, hav, hm]
      rfl
    | ok m =>
      exact h i m (MemoryIndex.checkAvailable_eq_ok.mp hav) (MemoryIndex.dataset_eq_ok.mp hm)

theorem plain_drop (hg : IsGraphScope graph) : Plain space (Request.drop graph) :=
  plain_of_update fun _ _ hi hm => ⟨.ok _, fun next => MemoryIndex.update_drop hg hi hm next⟩

/-- An insertion of quads that may be stored is performed as it is, or cannot be read. -/
theorem plain_insertData (h : ∀ q ∈ qs, q.Storable) : Plain space (Request.insertData qs) := by
  refine plain_of_update fun i m hi hm => ?_
  cases hread : Update.ofText (Request.insertData qs) with
  | ok us =>
    have hnormal := Update.normal_of_ofText_insertData h hread
    exact ⟨.ok _, fun next =>
      MemoryIndex.update_insertData (fun q hq => ⟨hnormal q hq, h q hq⟩) hi hm next⟩
  | error e =>
    have hbatch : ∀ next, Update.batchOf (.ofSet m) space next (Request.insertData qs) =
        .error (.request e) := by
      intro next
      rw [Update.batchOf, hread]
      rfl
    refine ⟨.error (.refused (.request e)), fun next => ?_⟩
    rw [MemoryIndex.update, MemoryIndex.checkAvailable_eq_ok.mpr hi,
      MemoryIndex.dataset_eq_ok.mpr hm]
    change ((Update.batchOf (.ofSet m) space next _).mapError _ >>= _) = _
    rw [hbatch next]
    rfl

theorem updateWithin_respects_of_plain (limit : Nat) (h : Plain space text) :
    Respects (Alike N space) (updateWithin (ι := MemoryIndex) limit space text) := by
  intro s t hst
  obtain ⟨r, hr⟩ := h s.index
  obtain ⟨r', hr'⟩ := h t.index
  have halike := hst.index.update text s.next
  unfold updateWithin update
  simp only [TripleIndex.delay, TripleIndex.update, hst.index.delay]
  split
  · exact ⟨rfl, hst⟩
  rw [hr s.next, hr' s.next] at halike
  rw [hr s.next, hr' t.next]
  rcases r with fault | i <;> rcases r' with fault' | j <;>
    rcases halike with ⟨_, hi, hj⟩ | ⟨_, _, _, hi, hj, halike⟩ <;> cases hi <;> cases hj
  · exact ⟨rfl, hst⟩
  · exact ⟨rfl, halike, hst.next⟩

end IndexM

/-! ## Scopes -/

namespace Scope

open IndexM

theorem replay_respects {pieces : List (List Quad)} (h : ∀ quads ∈ pieces, Respects (Alike N space)
      (updateWithin (ι := MemoryIndex) settings.indexTimeout space (Request.insertData quads))) :
    Respects (Alike N space) (replay (ι := MemoryIndex) settings space pieces) := by
  induction pieces with
  | nil => exact .pure ()
  | cons quads pieces ih =>
    obtain ⟨hquads, hrest⟩ := List.forall_mem_cons.mp h
    exact hquads.bind fun _ => ih hrest

/-- A rebuild is as dependable as the updates that it is made of. -/
private theorem rebuild_respects_of (hdrop : Respects (Alike N space)
      (updateWithin (ι := MemoryIndex) settings.indexTimeout space (Request.drop graph)))
    (hinsert : ∀ quads ∈ chunks settings.chunkSize (store.scan (.ofGraph graph)),
      Respects (Alike N space) (updateWithin (ι := MemoryIndex) settings.indexTimeout space
        (Request.insertData quads))) :
    Respects (Alike N space) (rebuild (ι := MemoryIndex) settings space store graph) :=
  .adapt _ <| create_respects.bind fun _ => hdrop.bind fun _ =>
    (replay_respects hinsert).bind fun _ => .pure _

theorem rebuild_respects :
    Respects (Alike Eq space) (rebuild (ι := MemoryIndex) settings space store graph) :=
  rebuild_respects_of (updateWithin_respects _ _) fun _ _ => updateWithin_respects _ _

/-- Rebuilding from a store takes no new blank nodes. -/
theorem rebuild_respects_of_storable (hg : IsGraphScope graph)
    (hq : ∀ q ∈ store.scan (.ofGraph graph), q.Storable) :
    Respects (Alike N space) (rebuild (ι := MemoryIndex) settings space store graph) := by
  refine rebuild_respects_of (updateWithin_respects_of_plain _ (plain_drop hg)) fun quads hquads =>
    updateWithin_respects_of_plain _ (plain_insertData fun q h => hq q ?_)
  rw [← flatten_chunks settings.chunkSize (store.scan (.ofGraph graph))]
  exact List.mem_flatten.mpr ⟨quads, hquads, h⟩

theorem apply_respects (settings : Settings) (b : Batch) :
    Respects (Alike Eq b.space) (apply (ι := MemoryIndex) settings b) := by
  unfold apply
  split
  · exact .pure ()
  · exact updateWithin_respects _ _

theorem indexCount_respects :
    Respects (Alike Eq space) (indexCount (ι := MemoryIndex) space graph) :=
  (query_respects _).bind fun answer => by
    split
    · exact .pure _
    · exact .throw _

theorem indexQuads_respects :
    Respects (Alike Eq space) (indexQuads (ι := MemoryIndex) space graph) :=
  (query_respects _).bind fun _ _ _ h => ⟨rfl, h⟩

theorem check_respects :
    Respects (Alike Eq space) (check (ι := MemoryIndex) settings space store graph) :=
  (indexCount_respects.adapt _).bind fun _ => by
    split
    · exact (indexQuads_respects.adapt _).bind fun _ => .pure _
    · exact .pure _

end Scope
end DualStore
