import DualStore.Proofs.QueuedScopes
import Mathlib.Logic.Function.Basic

/-! The backlog under workers that call it at the same time. Two calls remove what they have read
before: completing an entry looks it up first, forgetting a space lists its keys. Other workers may
call in between, so what is removed in the end need not be what was read. A turn records a scope,
removes keys or leaves the backlog alone (`Backlog.Shared.turn_cases`); what is pending after turns
was recorded in them and left alone since (`Backlog.Shared.mem_pending_after`). -/

namespace DualStore
namespace Backlog

/-! ## Turns -/

/-- What a worker has read and is about to remove. -/
inductive Task where
  | complete (key : String)
  | forget (keys : List String)

namespace Task

def keys : Task → List String
  | complete key => [key]
  | forget keys => keys

/-- The answer once the keys are removed. -/
def reply : Task → Reply
  | complete _ => .completed true
  | forget _ => .done

end Task

/-- What a call reads in order to remove it. Other calls are over at once. -/
def task? (b : Backlog) : Call → Option Task
  | .complete e => if b.isCurrent e then some (.complete (key e.space e.graph)) else none
  | .forget space => some (.forget (b.keysOf space))
  | .record _ _ _ | .pending | .pendingFor _ => none

/-- A call that removes what it reads is the reading and the removal in one. -/
theorem send_of_task {b : Backlog} {c : Call} {task : Task} (h : b.task? c = some task) :
    b.send c = (task.reply, b.removeAll task.keys) := by
  cases c with
  | complete e =>
    rw [task?] at h
    split at h
    next hcurrent =>
      cases h
      rw [send, complete, if_pos hcurrent]
      rfl
    next => cases h
  | forget space =>
    cases h
    rfl
  | record | pending | pendingFor => cases h

theorem complete_of_task?_eq_none {b : Backlog} {e : Entry} (h : b.task? (.complete e) = none) :
    b.complete e = (false, b) := by
  rw [task?] at h
  split at h
  next => cases h
  next hcurrent => rw [complete, if_neg hcurrent]

/-- A worker makes a call, or removes what its call has read. -/
inductive Turn where
  | call (worker : Nat) (c : Call)
  | finish (worker : Nat)

def Turn.Named : Turn → Prop
  | call _ c => c.Scoped Backlog.Named
  | finish _ => True

/-- A backlog with workers, some of which have not finished their calls. -/
structure Shared where
  backlog : Backlog := {}
  tasks : Nat → Option Task := fun _ => none

namespace Shared

/-- The answer to a worker, if its call is over. A worker makes no call before that. -/
def turn (S : Shared) : Turn → Option Reply × Shared
  | .call w c =>
    match S.tasks w, S.backlog.task? c with
    | some _, _ => (none, S)
    | none, some task => (none, { S with tasks := Function.update S.tasks w task })
    | none, none => (some (S.backlog.send c).1, { S with backlog := (S.backlog.send c).2 })
  | .finish w =>
    match S.tasks w with
    | none => (none, S)
    | some task =>
      (some task.reply, ⟨S.backlog.removeAll task.keys, Function.update S.tasks w none⟩)

/-- What there is after turns. -/
def after (S : Shared) (turns : List Turn) : Shared := turns.foldl (fun S t => (S.turn t).2) S

/-- What there is after turns on an empty backlog. -/
def run (turns : List Turn) : Shared := ({} : Shared).after turns

/-- The answers to workers, in the order of their turns. -/
def replies (S : Shared) : List Turn → List Reply
  | [] => []
  | t :: turns => (S.turn t).1.toList ++ (S.turn t).2.replies turns

/-- A worker records the entry at this turn. -/
def Records (S : Shared) (t : Turn) (e : Entry) : Prop := (S.turn t).1 = some (.recorded e)

/-- Something is recorded under the key, or what stands there is removed. -/
def Touches (S : Shared) (k : String) (t : Turn) : Prop :=
  (∃ e, S.Records t e ∧ key e.space e.graph = k) ∨
    ∃ w task, t = .finish w ∧ S.tasks w = some task ∧ k ∈ task.keys

/-- No turn touches the key. -/
def Untouched (S : Shared) (k : String) : List Turn → Prop
  | [] => True
  | t :: turns => ¬ S.Touches k t ∧ (S.turn t).2.Untouched k turns

/-- The entry is recorded at one of the turns, and its key not touched after that. -/
def Leaves (S : Shared) (e : Entry) : List Turn → Prop
  | [] => False
  | t :: turns =>
    S.Records t e ∧ (S.turn t).2.Untouched (key e.space e.graph) turns ∨ (S.turn t).2.Leaves e turns

/-- Something is recorded under the key at one of the turns. -/
def Rerecords (S : Shared) (k : String) : List Turn → Prop
  | [] => False
  | t :: turns =>
    (∃ e, S.Records t e ∧ key e.space e.graph = k) ∨ (S.turn t).2.Rerecords k turns

variable {S : Shared} {t : Turn} {turns : List Turn} {e u : Entry} {k space : String} {w : Nat}
  {task : Task} {c : Call}

/-! ## One turn -/

theorem turn_call_of_busy (h : S.tasks w = some task) (c : Call) :
    S.turn (.call w c) = (none, S) := by
  rw [turn, h]

theorem turn_call_of_task (h : S.tasks w = none) (hc : S.backlog.task? c = some task) :
    S.turn (.call w c) = (none, { S with tasks := Function.update S.tasks w task }) := by
  rw [turn, h, hc]

theorem turn_call_of_none (h : S.tasks w = none) (hc : S.backlog.task? c = none) :
    S.turn (.call w c) =
      (some (S.backlog.send c).1, { S with backlog := (S.backlog.send c).2 }) := by
  rw [turn, h, hc]

theorem turn_finish_of_idle (h : S.tasks w = none) : S.turn (.finish w) = (none, S) := by
  rw [turn, h]

theorem turn_finish (h : S.tasks w = some task) : S.turn (.finish w) =
    (some task.reply, ⟨S.backlog.removeAll task.keys, Function.update S.tasks w none⟩) := by
  rw [turn, h]

/-- A call that records nothing and leaves the backlog alone touches no key. -/
theorem quiet_call {r : Option Reply} {S' : Shared} (h : S.turn (.call w c) = (r, S'))
    (hbacklog : S'.backlog = S.backlog) (hreply : ∀ e, r ≠ some (.recorded e)) :
    (S.turn (.call w c)).2.backlog = S.backlog ∧ ∀ k, ¬ S.Touches k (.call w c) := by
  refine ⟨by rw [h, hbacklog], ?_⟩
  rintro k (⟨e, he, -⟩ | ⟨_, _, ⟨⟩, _⟩)
  rw [Records, h] at he
  exact hreply e he

/-- What a turn can do. -/
theorem turn_cases (S : Shared) (t : Turn) :
    (∃ w space graph reason, t = .call w (.record space graph reason) ∧
      S.turn t = (some (.recorded (S.backlog.record space graph reason).1),
        { S with backlog := (S.backlog.record space graph reason).2 })) ∨
    (∃ w task, t = .finish w ∧ S.tasks w = some task ∧ S.turn t =
      (some task.reply, ⟨S.backlog.removeAll task.keys, Function.update S.tasks w none⟩)) ∨
    (S.turn t).2.backlog = S.backlog ∧ ∀ k, ¬ S.Touches k t := by
  cases t with
  | finish w =>
    cases htask : S.tasks w with
    | some task => exact .inr (.inl ⟨w, task, rfl, htask, turn_finish htask⟩)
    | none =>
      refine .inr (.inr ⟨by rw [turn_finish_of_idle htask], fun k => ?_⟩)
      rintro (⟨e, he, -⟩ | ⟨_, task, ⟨⟩, htask', -⟩)
      · rw [Records, turn_finish_of_idle htask] at he
        cases he
      · exact absurd (htask.symm.trans htask') (Option.some_ne_none task).symm
  | call w c =>
    cases htask : S.tasks w with
    | some task =>
      exact .inr (.inr (quiet_call (turn_call_of_busy htask c) rfl fun e he => by cases he))
    | none =>
      cases hc : S.backlog.task? c with
      | some task =>
        exact .inr (.inr (quiet_call (turn_call_of_task htask hc) rfl fun e he => by cases he))
      | none =>
        have hturn := turn_call_of_none htask hc
        cases c with
        | record space graph reason => exact .inl ⟨w, space, graph, reason, rfl, hturn⟩
        | complete e =>
          rw [send, complete_of_task?_eq_none hc] at hturn
          exact .inr (.inr (quiet_call hturn rfl fun e he => by cases he))
        | pending | pendingFor =>
          exact .inr (.inr (quiet_call hturn rfl fun e he => by cases he))
        | forget => cases hc

/-- What is pending after a turn was recorded at it, or was there and is not touched. -/
theorem mem_pending_turn (h : S.backlog.Keyed) (t : Turn) :
    e ∈ (S.turn t).2.backlog.pending ↔
      S.Records t e ∨ e ∈ S.backlog.pending ∧ ¬ S.Touches (key e.space e.graph) t := by
  rcases S.turn_cases t with ⟨w, space, graph, reason, rfl, hturn⟩ | ⟨w, task, rfl, htask, hturn⟩ |
    ⟨hbacklog, hquiet⟩
  · have hrecords : ∀ u, S.Records (.call w (.record space graph reason)) u ↔
        u = (S.backlog.record space graph reason).1 := fun u => by
      rw [Records, hturn]
      exact ⟨fun hu => (Reply.recorded.inj (Option.some.inj hu)).symm, fun hu => hu ▸ rfl⟩
    rw [hturn, h.mem_pending_record, hrecords]
    refine or_congr_right (and_congr_right fun _ => not_congr ⟨fun hkey => ?_, ?_⟩)
    · exact .inl ⟨_, (hrecords _).mpr rfl, hkey.symm⟩
    · rintro (⟨u, hu, hkey⟩ | ⟨_, _, ⟨⟩, _⟩)
      rw [← hkey, (hrecords u).mp hu]
      rfl
  · have hrecords : ∀ u, ¬ S.Records (.finish w) u := fun u hu => by
      rw [Records, hturn] at hu
      cases task <;> cases hu
    rw [hturn, h.mem_pending_removeAll, or_iff_right (hrecords e)]
    refine and_congr_right fun _ => not_congr ⟨fun hk => .inr ⟨w, task, rfl, htask, hk⟩, ?_⟩
    rintro (⟨u, hu, -⟩ | ⟨_, task', ⟨⟩, htask', hk⟩)
    · exact absurd hu (hrecords u)
    · obtain rfl := Option.some.inj (htask.symm.trans htask')
      exact hk
  · rw [hbacklog, and_iff_left (hquiet _)]
    exact (or_iff_right fun hrec => hquiet _ (.inl ⟨e, hrec, rfl⟩)).symm

theorem keyed_turn (h : S.backlog.Keyed) (t : Turn) : (S.turn t).2.backlog.Keyed := by
  rcases S.turn_cases t with ⟨w, space, graph, reason, rfl, hturn⟩ | ⟨w, task, rfl, -, hturn⟩ |
    ⟨hbacklog, -⟩
  · rw [hturn]
    exact h.record space graph reason
  · rw [hturn]
    exact h.removeAll task.keys
  · rwa [hbacklog]

theorem next_le_turn (S : Shared) (t : Turn) : S.backlog.next ≤ (S.turn t).2.backlog.next := by
  rcases S.turn_cases t with ⟨w, space, graph, reason, rfl, hturn⟩ | ⟨w, task, rfl, -, hturn⟩ |
    ⟨hbacklog, -⟩
  · rw [hturn]
    exact Nat.le_succ _
  · rw [hturn]
    exact Nat.le_refl _
  · rw [hbacklog]

theorem Records.eq (h : S.Records t e) : ∃ w space graph reason,
    t = .call w (.record space graph reason) ∧ e = (S.backlog.record space graph reason).1 ∧
      (S.turn t).2.backlog = (S.backlog.record space graph reason).2 := by
  rcases S.turn_cases t with ⟨w, space, graph, reason, rfl, hturn⟩ | ⟨w, task, rfl, -, hturn⟩ |
    ⟨-, hquiet⟩
  · rw [Records, hturn] at h
    rw [hturn]
    exact ⟨w, space, graph, reason, rfl, (Reply.recorded.inj (Option.some.inj h)).symm, rfl⟩
  · rw [Records, hturn] at h
    cases task <;> cases h
  · exact absurd (.inl ⟨e, h, rfl⟩) (hquiet (key e.space e.graph))

/-- The entries stand under their keys, and their generations were given out. -/
structure Sound (S : Shared) : Prop where
  keyed : S.backlog.Keyed
  dated : ∀ e ∈ S.backlog.pending, e.generation < S.backlog.next

theorem sound_empty : ({} : Shared).Sound := ⟨fun _ _ => nofun, fun _ => nofun⟩

theorem Sound.turn (h : S.Sound) (t : Turn) : (S.turn t).2.Sound := by
  refine ⟨keyed_turn h.keyed t, fun e he => ?_⟩
  rcases (mem_pending_turn h.keyed t).mp he with hrec | ⟨he, -⟩
  · obtain ⟨w, space, graph, reason, -, rfl, hbacklog⟩ := hrec.eq
    rw [hbacklog]
    exact Nat.lt_succ_self _
  · exact Nat.lt_of_lt_of_le (h.dated e he) (S.next_le_turn t)

/-- An answer is that of a removal, or that of a call that is over at once. -/
theorem reply_cases {r : Reply} (h : (S.turn t).1 = some r) : (∃ task : Task, r = task.reply) ∨
    ∃ w c, t = .call w c ∧ S.backlog.task? c = none ∧ r = (S.backlog.send c).1 ∧
      (S.turn t).2.backlog = (S.backlog.send c).2 := by
  cases t with
  | finish w =>
    cases htask : S.tasks w with
    | none =>
      rw [turn_finish_of_idle htask] at h
      cases h
    | some task =>
      rw [turn_finish htask] at h
      exact .inl ⟨task, (Option.some.inj h).symm⟩
  | call w c =>
    cases htask : S.tasks w with
    | some task =>
      rw [turn_call_of_busy htask] at h
      cases h
    | none =>
      cases hc : S.backlog.task? c with
      | some task =>
        rw [turn_call_of_task htask hc] at h
        cases h
      | none =>
        rw [turn_call_of_none htask hc] at h ⊢
        exact .inr ⟨w, c, rfl, hc, (Option.some.inj h).symm, rfl⟩

/-- What a worker is told of was recorded before. -/
theorem Sound.lt_next (h : S.Sound) {r : Reply} (hr : (S.turn t).1 = some r) (he : e ∈ r.entries) :
    e.generation < (S.turn t).2.backlog.next := by
  have hpending : e ∈ S.backlog.pending → e.generation < (S.turn t).2.backlog.next := fun he =>
    Nat.lt_of_lt_of_le (h.dated e he) (S.next_le_turn t)
  rcases reply_cases hr with ⟨task, rfl⟩ | ⟨w, c, rfl, hc, rfl, hbacklog⟩
  · cases task <;> cases he
  · cases c with
    | record =>
      rw [hbacklog]
      obtain rfl := List.mem_singleton.mp he
      exact Nat.lt_succ_self _
    | complete | forget => cases he
    | pending => exact hpending he
    | pendingFor => exact hpending (mem_pending_of_mem_pendingFor he)

/-- A worker that is not done yet has its task until it finishes. -/
theorem tasks_turn (h : S.tasks w = some task) (ht : t ≠ .finish w) :
    (S.turn t).2.tasks w = some task := by
  cases t with
  | finish w' =>
    cases htask : S.tasks w' with
    | none => rwa [turn_finish_of_idle htask]
    | some task' =>
      rw [turn_finish htask]
      exact (Function.update_of_ne (fun heq => ht (congrArg Turn.finish heq.symm)) ..).trans h
  | call w' c =>
    cases htask : S.tasks w' with
    | some task' => rwa [turn_call_of_busy htask]
    | none =>
      cases hc : S.backlog.task? c with
      | none => rwa [turn_call_of_none htask hc]
      | some task' =>
        rw [turn_call_of_task htask hc]
        refine (Function.update_of_ne ?_ ..).trans h
        rintro rfl
        exact Option.some_ne_none task (h.symm.trans htask)

/-! ## Runs -/

theorem run_append (turns more : List Turn) : run (turns ++ more) = (run turns).after more :=
  List.foldl_append ..

theorem Sound.after (h : S.Sound) (turns : List Turn) : (S.after turns).Sound := by
  induction turns generalizing S with
  | nil => exact h
  | cons t turns ih => exact ih (h.turn t)

theorem tasks_after (h : S.tasks w = some task) (hw : .finish w ∉ turns) :
    (S.after turns).tasks w = some task := by
  induction turns generalizing S with
  | nil => exact h
  | cons t turns ih =>
    obtain ⟨ht, hturns⟩ := List.ne_and_not_mem_of_not_mem_cons hw
    exact ih (tasks_turn h ht.symm) hturns

theorem tasks_after_call (h : S.tasks w = none) (hc : S.backlog.task? c = some task)
    (hw : .finish w ∉ turns) : (S.after (.call w c :: turns)).tasks w = some task := by
  refine tasks_after (S := (S.turn (.call w c)).2) ?_ hw
  rw [turn_call_of_task h hc]
  exact Function.update_self ..

/-- What is pending after turns was recorded at one of them or was there before, and its key is not
touched since. -/
theorem mem_pending_after (h : S.Sound) (turns : List Turn) :
    e ∈ (S.after turns).backlog.pending ↔
      S.Leaves e turns ∨ e ∈ S.backlog.pending ∧ S.Untouched (key e.space e.graph) turns := by
  induction turns generalizing S with
  | nil => exact ⟨fun he => .inr ⟨he, trivial⟩, fun he => he.elim False.elim And.left⟩
  | cons t turns ih =>
    refine (ih (h.turn t)).trans ?_
    rw [mem_pending_turn h.keyed, Leaves, Untouched]
    tauto

theorem Leaves.next_le (h : S.Leaves e turns) : S.backlog.next ≤ e.generation := by
  induction turns generalizing S with
  | nil => cases h
  | cons t turns ih =>
    rcases h with ⟨hrec, -⟩ | h
    · obtain ⟨w, space, graph, reason, -, rfl, -⟩ := hrec.eq
      exact Nat.le_refl _
    · exact Nat.le_trans (S.next_le_turn t) (ih h)

theorem Leaves.named (h : S.Leaves e turns) (ht : ∀ t ∈ turns, t.Named) :
    Backlog.Named e.space e.graph := by
  induction turns generalizing S with
  | nil => cases h
  | cons t turns ih =>
    rw [List.forall_mem_cons] at ht
    rcases h with ⟨hrec, -⟩ | h
    · obtain ⟨w, space, graph, reason, rfl, rfl, -⟩ := hrec.eq
      exact ht.1
    · exact ih h ht.2

theorem Rerecords.not_untouched (h : S.Rerecords k turns) : ¬ S.Untouched k turns := by
  induction turns generalizing S with
  | nil => cases h
  | cons t turns ih =>
    rintro ⟨ht, hturns⟩
    rcases h with hrec | h
    · exact ht (.inl hrec)
    · exact ih h hturns

/-- An entry is current as long as its key is not touched, and never again. -/
theorem isCurrent_after (h : S.Sound) (he : e.generation < S.backlog.next) (turns : List Turn) :
    (S.after turns).backlog.isCurrent e = true ↔
      S.backlog.isCurrent e = true ∧ S.Untouched (key e.space e.graph) turns := by
  rw [(h.after turns).keyed.isCurrent_iff, h.keyed.isCurrent_iff]
  simp only [mem_pending_after h]
  constructor
  · rintro ⟨u, hu | ⟨hu, huntouched⟩, hkey, hgeneration⟩
    -- the turns record newer generations only
    · exact absurd (hgeneration ▸ hu.next_le) (Nat.not_le.mpr he)
    · exact ⟨⟨u, hu, hkey, hgeneration⟩, hkey ▸ huntouched⟩
  · rintro ⟨⟨u, hu, hkey, hgeneration⟩, huntouched⟩
    exact ⟨u, .inr ⟨hu, hkey ▸ huntouched⟩, hkey, hgeneration⟩

/-! ## Calls that remove -/

/-- What comes of completing an entry that is current, when turns of others are among those from the
reading to the removal: whatever stands under its key in the end is removed, and the answer is that
the entry was. -/
structure Completes (S : Shared) (w : Nat) (e : Entry) (turns : List Turn) : Prop where
  answer : ((S.after turns).turn (.finish w)).1 = some (.completed true)
  pending : ∀ u, u ∈ ((S.after turns).turn (.finish w)).2.backlog.pending ↔
    u ∈ (S.after turns).backlog.pending ∧ key u.space u.graph ≠ key e.space e.graph
  /-- The entry itself is removed just if its key is not touched before. -/
  current : (S.after turns).backlog.isCurrent e = true ↔ S.Untouched (key e.space e.graph) turns
  /-- Another one is removed just if it was recorded in between. -/
  lost : (∃ u ∈ (S.after turns).backlog.pending, key u.space u.graph = key e.space e.graph ∧
    u.generation ≠ e.generation) ↔ ∃ u, S.Leaves u turns ∧ key u.space u.graph = key e.space e.graph

theorem Sound.completes {later : List Turn} (h : S.Sound) (hw : S.tasks w = none)
    (he : S.backlog.isCurrent e = true) (hlater : .finish w ∉ later) :
    S.Completes w e (.call w (.complete e) :: later) := by
  have htask : S.backlog.task? (.complete e) = some (.complete (key e.space e.graph)) := if_pos he
  have hbegun := tasks_after_call hw htask hlater
  obtain ⟨v, hv, hkey, hgeneration⟩ := h.keyed.isCurrent_iff.mp he
  have hlt : e.generation < S.backlog.next := hgeneration ▸ h.dated v hv
  refine ⟨by rw [turn_finish hbegun]; rfl, fun u => ?_,
    (isCurrent_after h hlt _).trans (and_iff_right he), ?_⟩
  · rw [turn_finish hbegun, (h.after _).keyed.mem_pending_removeAll, Task.keys, List.mem_singleton]
  · simp only [mem_pending_after h]
    constructor
    · rintro ⟨u, hu | ⟨hu, -⟩, hkeyu, hne⟩
      · exact ⟨u, hu, hkeyu⟩
      -- what was there before is what was looked up
      · obtain rfl := h.keyed.eq_of_key hu hv (hkeyu.trans hkey.symm)
        exact absurd hgeneration hne
    · rintro ⟨u, hu, hkeyu⟩
      exact ⟨u, .inl hu, hkeyu, Nat.ne_of_gt (Nat.lt_of_lt_of_le hlt hu.next_le)⟩

/-- What comes of forgetting a space, when turns of others are among those from the reading to the
removal: scopes of which nothing was pending at the reading stay. -/
structure Forgets (S : Shared) (w : Nat) (space : String) (turns : List Turn) : Prop where
  answer : ((S.after turns).turn (.finish w)).1 = some .done
  pending : ∀ u, u ∈ ((S.after turns).turn (.finish w)).2.backlog.pending ↔
    u ∈ (S.after turns).backlog.pending ∧
      ¬ ∃ v ∈ S.backlog.pending, v.space = space ∧ key v.space v.graph = key u.space u.graph

theorem Sound.forgets {later : List Turn} (h : S.Sound)
    (hnames : ∀ v ∈ S.backlog.pending, isSpaceName v.space = true)
    (hs : isSpaceName space = true) (hw : S.tasks w = none) (hlater : .finish w ∉ later) :
    S.Forgets w space (.call w (.forget space) :: later) := by
  have hbegun := tasks_after_call (c := .forget space) hw rfl hlater
  refine ⟨by rw [turn_finish hbegun]; rfl, fun u => ?_⟩
  rw [turn_finish hbegun, (h.after _).keyed.mem_pending_removeAll, Task.keys]
  refine and_congr_right fun _ => not_congr ?_
  rw [mem_keysOf]
  constructor
  · rintro ⟨⟨v, hv⟩, hk⟩
    have hkey := h.keyed _ v hv
    have hpending : v ∈ S.backlog.pending := SortedMap.mem_values.mpr ⟨_, hv⟩
    rw [hkey] at hk
    exact ⟨v, hpending, (isKeyOf_key (hnames v hpending) hs).mp hk, hkey.symm⟩
  · rintro ⟨v, hv, rfl, hkey⟩
    rw [← hkey]
    exact ⟨⟨v, h.keyed.mem_pending.mp hv⟩, isKeyOf_self ..⟩

/-! ## Calls one after the other -/

/-- The turns of calls that do not overlap. -/
def alone (calls : List (Nat × Call)) : List Turn :=
  calls.flatMap fun (w, c) => [.call w c, .finish w]

/-- A worker that is not interrupted does what the call does as a whole. -/
theorem alone_singleton (h : S.tasks w = none) (c : Call) :
    S.after (alone [(w, c)]) = { S with backlog := (S.backlog.send c).2 } ∧
      S.replies (alone [(w, c)]) = [(S.backlog.send c).1] := by
  change ((S.turn (.call w c)).2.turn (.finish w)).2 = _ ∧
    (S.turn (.call w c)).1.toList ++ (((S.turn (.call w c)).2.turn (.finish w)).1.toList ++ []) = _
  cases hc : S.backlog.task? c with
  | none =>
    have hidle : ({ S with backlog := (S.backlog.send c).2 } : Shared).tasks w = none := h
    rw [turn_call_of_none h hc, turn_finish_of_idle hidle]
    exact ⟨rfl, rfl⟩
  | some task =>
    have hbusy : ({ S with tasks := Function.update S.tasks w task } : Shared).tasks w =
        some task := Function.update_self ..
    rw [turn_call_of_task h hc, turn_finish hbusy, send_of_task hc]
    refine ⟨?_, rfl⟩
    simp only [Function.update_idem, mk.injEq, true_and]
    rw [← h, Function.update_eq_self]

theorem run_alone (calls : List (Nat × Call)) :
    run (alone calls) = { backlog := Backlog.run (calls.map Prod.snd) } := by
  induction calls using List.reverseRecOn with
  | nil => rfl
  | append_singleton calls c ih =>
    obtain ⟨w, c⟩ := c
    have hsplit : alone (calls ++ [(w, c)]) = alone calls ++ alone [(w, c)] :=
      List.flatMap_append
    rw [hsplit, run_append, ih, (alone_singleton rfl c).1, List.map_append, List.map_singleton,
      Backlog.run_concat]

/-! ## The backlog of workers -/

/-- What is pending after turns of workers in any order is what was recorded last under each key and
not removed since, and it is listed for a space by the name of the space alone. An entry that was
read before something was recorded under its key is not current any more, and completing it changes
nothing. But an entry that is current when it is looked up is completed even if its scope is
recorded again before the removal, and then what was recorded is lost (`Completes.lost`). Calls that
do not overlap see a map from scopes to the entries that were recorded last, unless one of the
graphs is the empty IRI, which has the key of the whole space. -/
theorem run_latest (turns : List Turn) (h : ∀ t ∈ turns, t.Named) :
    let S := run turns
    ((∀ e, e ∈ S.backlog.pending ↔ ({} : Shared).Leaves e turns) ∧ S.backlog.pending.Nodup ∧
      ∀ space, isSpaceName space = true → (S.backlog.pendingFor space).Nodup ∧
        ∀ e, e ∈ S.backlog.pendingFor space ↔ e.space = space ∧ e ∈ S.backlog.pending) ∧
    (∀ before t later r e, turns = before ++ t :: later → ((run before).turn t).1 = some r →
      e ∈ r.entries → ((run before).turn t).2.Rerecords (key e.space e.graph) later →
        S.backlog.isCurrent e = false) ∧
    (∀ w e, S.tasks w = none → S.backlog.isCurrent e = false →
      S.turn (.call w (.complete e)) = (some (.completed false), S)) ∧
    (∀ w e later, S.tasks w = none → S.backlog.isCurrent e = true → .finish w ∉ later →
      S.Completes w e (.call w (.complete e) :: later)) ∧
    (∀ w space later, isSpaceName space = true → S.tasks w = none → .finish w ∉ later →
      S.Forgets w space (.call w (.forget space) :: later)) ∧
    (∀ calls, turns = alone calls → (∀ c ∈ calls, c.2.Scoped OwnKey) →
      S.backlog.Follows (Ledger.run (calls.map Prod.snd)) ∧ ∀ w c, c.Scoped OwnKey →
        ∃ r, S.replies (alone [(w, c)]) = [r] ∧ (Ledger.run (calls.map Prod.snd)).Answers c r) ∧
    ∀ space graph name graph', Named space graph → Named name graph' →
      (key space graph = key name graph' ↔ space = name ∧ (graph = graph' ∨
        graph = none ∧ graph' = some (.iri "") ∨ graph = some (.iri "") ∧ graph' = none)) := by
  intro S
  have hsound : S.Sound := sound_empty.after turns
  have hpending : ∀ e, e ∈ S.backlog.pending ↔ ({} : Shared).Leaves e turns := fun e =>
    (mem_pending_after sound_empty turns).trans (or_iff_left fun he => nomatch he.1)
  have hnames : ∀ e ∈ S.backlog.pending, isSpaceName e.space = true := fun e he =>
    (((hpending e).mp he).named h).name
  refine ⟨⟨hpending, nodup_values hsound.keyed, fun space hs =>
    ⟨hsound.keyed.nodup_pendingFor space, fun e => hsound.keyed.mem_pendingFor hnames hs⟩⟩,
    ?_, fun w e hw he => ?_, fun w e later hw he hlater => hsound.completes hw he hlater,
    fun w space later hs hw hlater => hsound.forgets hnames hs hw hlater, ?_,
    fun space graph name graph' => Named.key_eq_iff⟩
  · rintro before t later r e rfl hr he hrecords
    have hbefore : (run before).Sound := sound_empty.after before
    have hrun : S = ((run before).turn t).2.after later := run_append before (t :: later)
    rw [hrun, ← Bool.not_eq_true, isCurrent_after (hbefore.turn t) (hbefore.lt_next hr he)]
    exact fun hcurrent => hrecords.not_untouched hcurrent.2
  · have htask : S.backlog.task? (.complete e) = none := if_neg (Bool.eq_false_iff.mp he)
    rw [turn_call_of_none hw htask, send, complete_of_task?_eq_none htask]
  · rintro calls rfl hcalls
    have hfollows : (Backlog.run (calls.map Prod.snd)).Follows (Ledger.run (calls.map Prod.snd)) :=
      follows_run (List.forall_mem_map.mpr hcalls)
    have hrun : S = { backlog := Backlog.run (calls.map Prod.snd) } := run_alone calls
    rw [hrun]
    exact ⟨hfollows, fun w c hc => ⟨_, (alone_singleton rfl c).2, hfollows.answers hc⟩⟩

/-- A worker completes the entry of a space. Another one records the space again before the entry is
removed. What it recorded is gone, and the empty IRI would have had the same key. -/
theorem run_latest_lost :
    let e : Entry := ⟨"s", none, "first", 0⟩
    let turns : List Turn := [.call 0 (.record "s" none "first")]
    let later : List Turn := [.call 1 (.complete e), .call 0 (.record "s" none "second")]
    let S := (run turns).after later
    (∀ t ∈ turns, t.Named) ∧ S.backlog.pending = [⟨"s", none, "second", 1⟩] ∧
      (S.turn (.finish 1)).1 = some (.completed true) ∧
      (S.turn (.finish 1)).2.backlog.pending = [] ∧
      key "s" (some (.iri "")) = key "s" none := by
  intro e turns later S
  have hs : Named "s" none := ⟨by decide, nofun⟩
  have hnamed : ∀ t ∈ turns, t.Named := List.forall_mem_singleton.mpr hs
  have hsecond : S.backlog.pending = [⟨"s", none, "second", 1⟩] := by decide +kernel
  have hempty : Named "s" (some (.iri "")) := by
    refine ⟨by decide, ?_⟩
    rintro _ ⟨⟩
    exact ⟨_, rfl⟩
  obtain ⟨-, -, -, hcompletes, -, -, hkey⟩ := run_latest turns hnamed
  have h : (run turns).Completes 1 e later :=
    hcompletes 1 e [.call 0 (.record "s" none "second")] rfl (by decide +kernel) (by simp)
  refine ⟨hnamed, hsecond, h.answer, List.eq_nil_iff_forall_not_mem.mpr fun u hu => ?_,
    (hkey _ _ _ _ hempty hs).mpr ⟨rfl, .inr (.inr ⟨rfl, rfl⟩)⟩⟩
  obtain ⟨hu, hne⟩ := (h.pending u).mp hu
  obtain rfl := List.mem_singleton.mp (hsecond ▸ hu)
  exact hne rfl

end Shared
end Backlog
end DualStore
