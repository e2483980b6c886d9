import DualStore.Service.Reconcile
import Mathlib.Order.Defs.Unbundled

/-! Running work that may fail and changes a state: what each way of building it comes to when it is
run from a state `s`. -/

namespace DualStore

section
variable {ε ε' σ α β : Type} {s : σ}

theorem run_eq {x : ExceptT ε (StateM σ) α} {r : Except ε α} (h : (x s).1 = r) :
    x s = (r, (x s).2) := Prod.ext h rfl

theorem pure_run (a : α) : (pure a : ExceptT ε (StateM σ) α) s = (.ok a, s) := rfl

theorem get_run : (get : ExceptT ε (StateM σ) σ) s = (.ok s, s) := rfl

theorem modify_run (f : σ → σ) : (modify f : ExceptT ε (StateM σ) Unit) s = (.ok (), f s) := rfl

theorem bind_run (x : ExceptT ε (StateM σ) α) (f : α → ExceptT ε (StateM σ) β) :
    (x >>= f) s = match x s with
      | (.ok a, s') => f a s'
      | (.error e, s') => (.error e, s') := by
  change (match x s with | (r, s') => ExceptT.bindCont f r s') = _
  rcases x s with ⟨_ | a, s'⟩ <;> rfl

theorem bind_pure_run (x : ExceptT ε (StateM σ) α) (f : α → β) :
    (x >>= fun a => pure (f a)) s = ((x s).1.map f, (x s).2) := by
  rw [bind_run]
  generalize x s = r
  obtain ⟨e | a, s'⟩ := r <;> rfl

theorem bind_run_eq_ok {x : ExceptT ε (StateM σ) α} {f : α → ExceptT ε (StateM σ) β} {b : β}
    {t : σ} : (x >>= f) s = (.ok b, t) ↔ ∃ a s', x s = (.ok a, s') ∧ f a s' = (.ok b, t) := by
  rw [bind_run]
  rcases x s with ⟨e | a, s'⟩
  · exact iff_of_false nofun nofun
  · exact ⟨fun h => ⟨a, s', rfl, h⟩, fun ⟨_, _, he, h⟩ => by cases he; exact h⟩

theorem tryCatch_run (x : ExceptT ε (StateM σ) α) (h : ε → ExceptT ε (StateM σ) α) :
    (tryCatch x h) s = match x s with
      | (.ok a, s') => (Except.ok a, s')
      | (.error e, s') => h e s' := by
  change (match x s with
    | (r, s') => (match r with
      | .ok a => (pure (Except.ok a) : StateM σ (Except ε α))
      | .error e => h e) s') = _
  rcases x s with ⟨_ | a, s'⟩ <;> rfl

theorem adapt_run (f : ε → ε') (x : ExceptT ε (StateM σ) α) :
    (ExceptT.adapt f x : ExceptT ε' (StateM σ) α) s = ((x s).1.mapError f, (x s).2) := rfl

/-! ## Relations that all work keeps to -/

/-- The state before and the state after are always related. -/
def Keeps (R : σ → σ → Prop) (x : ExceptT ε (StateM σ) α) : Prop := ∀ s, R s (x s).2

variable {R : σ → σ → Prop} [IsPreorder σ R] {x : ExceptT ε (StateM σ) α}

theorem Keeps.pure (a : α) : Keeps R (Pure.pure a : ExceptT ε (StateM σ) α) := fun s => refl_of R s

theorem Keeps.throw (e : ε) : Keeps R (MonadExcept.throw e : ExceptT ε (StateM σ) α) :=
  fun s => refl_of R s

theorem Keeps.get : Keeps R (MonadState.get : ExceptT ε (StateM σ) σ) := fun s => refl_of R s

theorem Keeps.bind {f : α → ExceptT ε (StateM σ) β} (hx : Keeps R x) (hf : ∀ a, Keeps R (f a)) :
    Keeps R (x >>= f) := by
  intro s
  have hfirst := hx s
  rw [bind_run]
  generalize x s = r at hfirst ⊢
  obtain ⟨_ | a, s'⟩ := r
  · exact hfirst
  · exact trans_of R hfirst (hf a s')

theorem Keeps.tryCatch {h : ε → ExceptT ε (StateM σ) α} (hx : Keeps R x)
    (hh : ∀ e, Keeps R (h e)) : Keeps R (MonadExcept.tryCatch x h) := by
  intro s
  have hfirst := hx s
  rw [tryCatch_run]
  generalize x s = r at hfirst ⊢
  obtain ⟨e | a, s'⟩ := r
  · exact trans_of R hfirst (hh e s')
  · exact hfirst

omit [IsPreorder σ R] in
theorem Keeps.adapt (f : ε → ε') (hx : Keeps R x) :
    Keeps R (ExceptT.adapt f x : ExceptT ε' (StateM σ) α) := fun s => hx s

/-! ## Conditions before and after -/

omit [IsPreorder σ R]

/-- From a state with `P`, work comes to a result with `Q`, or to a fault in a state with `E`. -/
def Leads (P : σ → Prop) (x : ExceptT ε (StateM σ) α) (Q : α → σ → Prop) (E : σ → Prop) : Prop :=
  ∀ s, P s → match x s with
    | (.ok a, s') => Q a s'
    | (.error _, s') => E s'

variable {P E : σ → Prop} {Q : α → σ → Prop}

theorem Leads.pure (a : α) (h : ∀ s, P s → Q a s) :
    Leads P (Pure.pure a : ExceptT ε (StateM σ) α) Q E := h

theorem Leads.modify {f : σ → σ} {Q : Unit → σ → Prop} (h : ∀ s, P s → Q () (f s)) :
    Leads P (modify f : ExceptT ε (StateM σ) Unit) Q E := h

theorem Leads.bind {f : α → ExceptT ε (StateM σ) β} {Q' : β → σ → Prop} (hx : Leads P x Q E)
    (hf : ∀ a, Leads (Q a) (f a) Q' E) : Leads P (x >>= f) Q' E := by
  intro s hs
  have h := hx s hs
  rw [bind_run]
  generalize x s = r at h ⊢
  obtain ⟨_ | a, s'⟩ := r
  · exact h
  · exact hf a s' h

end

namespace Service

variable {ι α : Type} {s : Service ι}

theorem liftExcept_run (r : Except Error α) : liftExcept r s = (r, s) := rfl

theorem liftCheck_run (act : CheckM ι α) :
    liftCheck act s = ((act s.side).1, { s with side := (act s.side).2 }) := rfl

theorem tryIndex_run (act : IndexM ι α) :
    tryIndex act s = (.ok (act s.side).1, { s with side := (act s.side).2 }) := rfl

theorem setRegistry_run (registry : Registry) :
    setRegistry registry s = (.ok (), { s with registry }) := rfl

theorem record_run (space : String) (graph : Option Term) (reason : String) :
    record space graph reason s = (.ok (s.backlog.record space graph reason).1,
      { s with backlog := (s.backlog.record space graph reason).2 }) := rfl

theorem store_run (space : String) : store space s = (s.registry.get space, s) := rfl

theorem complete_run (e : Entry) :
    complete e s = (.ok (s.backlog.complete e).1, { s with backlog := (s.backlog.complete e).2 }) :=
  rfl

end Service
end DualStore
