import WriterAgent.Framework.WorkQueueRuns

/-!
# Stop of one send

The `cancel()` of a scope empties the whole queue of the executor, whoever has
put the items there.
-/

namespace WriterAgent.Framework

open List

variable {ρ ε : Type}

namespace WorkItem

def TakenBy (item : WorkItem ρ ε) (cancel : ℕ) : Prop :=
  item.stage = .drained cancel ∨ item.markedBy = some cancel

variable {item next : WorkItem ρ ε} {drains : Option ℕ} {cancel : ℕ}

theorem Moves.scope (moves : item.Moves drains next) : next.scope = item.scope := by
  cases moves with
  | claim =>
    rw [WorkItem.claim]
    split <;> simp
  | mark =>
    rw [WorkItem.mark]
    split <;> simp
  | _ => rfl

theorem Moves.takenBy (moves : item.Moves drains next) (sound : item.Sound)
    (taken : item.TakenBy cancel) : next.TakenBy cancel := by
  rcases taken with drained | marked
  · cases moves with
    | put putting => cases (sound.putting putting).symm.trans drained
    | takeOut queued => cases queued.symm.trans drained
    | claim dequeued => cases dequeued.symm.trans drained
    | start claimed => cases claimed.symm.trans drained
    | finish running => cases running.symm.trans drained
    | mark other =>
      rw [WorkItem.mark]
      split
      · rename_i same
        cases same.symm.trans drained
        exact .inr rfl
      · exact .inl drained
    | _ => exact .inl drained
  · have left := sound.marked (by rw [marked]; rintro ⟨⟩)
    cases moves with
    | put putting => cases (sound.putting putting).symm.trans left
    | takeOut queued => cases queued.symm.trans left
    | claim dequeued => cases dequeued.symm.trans left
    | start claimed => cases claimed.symm.trans left
    | finish running => cases running.symm.trans left
    | mark other =>
      rw [WorkItem.mark, if_neg (by rw [left]; rintro ⟨⟩)]
      exact .inr marked
    | _ => exact .inr marked

theorem Moves.of_takenBy (moves : item.Moves drains next)
    (taken : next.TakenBy cancel) : item.TakenBy cancel ∨
      item.stage = .queued ∧ drains = some cancel ∧ next.stage = .drained cancel := by
  rcases taken with drained | marked
  · cases moves with
    | put | start | finish => cases drained
    | takeOut queued stage =>
      rcases stage with rfl | ⟨other, isDrain, rfl⟩
      · cases drained
      · cases drained
        exact .inr ⟨queued, isDrain, rfl⟩
    | claim =>
      rw [WorkItem.claim] at drained
      split at drained <;> cases drained
    | mark other =>
      rw [WorkItem.mark] at drained
      split_ifs at drained
      exact .inl (.inl drained)
    | _ => exact .inl (.inl drained)
  · left
    cases moves with
    | claim =>
      rw [WorkItem.claim] at marked
      split at marked
      · exact .inr (by simpa using marked)
      · exact .inr marked
    | mark other =>
      rw [WorkItem.mark] at marked
      split at marked
      · rename_i drained
        cases marked
        exact .inl drained
      · exact .inr marked
    | _ => exact .inr marked

end WorkItem

namespace QueueExecutor

variable {executor next : QueueExecutor ρ ε} {action : QueueAction ρ ε}

def InScope (executor : QueueExecutor ρ ε) (cancel : ℕ) (item : WorkItem ρ ε) : Prop :=
  ∃ pending, executor.cancels[cancel]? = some pending ∧ item.scope = some pending.scope

/-- No cancel has touched an item of another scope: it has dropped none from
the queue, marked none as cancelled and sent no waiter a `SendCancelled`. -/
structure Isolated (executor : QueueExecutor ρ ε) : Prop where
  untouched : ∀ item ∈ executor.items, ∀ cancel < executor.cancels.length,
    ¬ executor.InScope cancel item → item.stage ≠ .drained cancel ∧ item.markedBy ≠ some cancel
  ownCancel : ∀ item ∈ executor.items, item.caller = .raised .sendCancelled →
      ∃ cancel, item.markedBy = some cancel ∧ executor.InScope cancel item

def DrainsOwn (executor : QueueExecutor ρ ε) : QueueAction ρ ε → Prop
  | .drain cancel => ∀ id item, executor.workQueue.head? = some id →
      executor.items[id]? = some item → executor.InScope cancel item
  | _ => True

theorem onItem_cancels {id : ℕ} {allowed : WorkItem ρ ε → Bool} {f : WorkItem ρ ε → WorkItem ρ ε}
    (taken : executor.onItem id allowed f = some next) :
    next.cancels = executor.cancels := by
  obtain ⟨item, -, -, rfl⟩ := onItem_eq_some taken
  rfl

theorem pokeMainThread_cancels (accepted : Bool) :
    (executor.pokeMainThread accepted).cancels = executor.cancels := by
  rw [pokeMainThread]
  split <;> rfl

theorem dequeue_cancels : executor.dequeue.cancels = executor.cancels := by
  rw [dequeue]
  split <;> rfl

def scopes (executor : QueueExecutor ρ ε) : List ℕ :=
  executor.cancels.map (·.scope)

theorem drain_scopes (cancel : ℕ) : (executor.drain cancel).scopes = executor.scopes := by
  rw [drain]
  split
  · rw [scopes, scopes]
    apply ext_getElem?
    intro place
    rw [List.getElem?_map, List.getElem?_map, List.getElem?_modify]
    cases executor.cancels[place]? with
    | none => rfl
    | some pending => split <;> rfl
  · rfl

theorem step_scopes (taken : executor.step action = some next) :
    executor.scopes <+: next.scopes := by
  have same : next.cancels = executor.cancels → executor.scopes <+: next.scopes := by
    intro equal
    exact ⟨[], by rw [scopes, scopes, equal, append_nil]⟩
  cases action with
  | setContext =>
    cases taken
    exact same rfl
  | lookUp blocking scope created =>
    cases taken
    apply same
    rw [lookUp]
    split <;> split <;> rfl
  | put id | finish id outcome =>
    obtain ⟨middle, placed, rest⟩ := Option.bind_eq_some_iff.mp taken
    have kept := onItem_cancels placed
    cases rest
    exact same kept
  | poke id accepted =>
    obtain ⟨middle, placed, rest⟩ := Option.bind_eq_some_iff.mp taken
    cases rest
    exact same ((pokeMainThread_cancels accepted).trans (onItem_cancels placed))
  | repoke accepted =>
    rw [step] at taken
    split_ifs at taken
    cases taken
    apply same
    split
    · rfl
    · exact pokeMainThread_cancels accepted
  | callback | pump =>
    rw [step] at taken
    split_ifs at taken
    cases taken
    exact same dequeue_cancels
  | cancel scope =>
    rw [step] at taken
    split_ifs at taken
    cases taken
    exact ⟨[scope], by simp [scopes]⟩
  | drain cancel =>
    rw [step] at taken
    split_ifs at taken
    cases taken
    exact ⟨[], by rw [drain_scopes, append_nil]⟩
  | mark cancel =>
    rw [step] at taken
    split_ifs at taken
    cases taken
    exact same rfl
  | _ => exact same (onItem_cancels taken)

theorem inScope_iff {cancel : ℕ} {item : WorkItem ρ ε} : executor.InScope cancel item ↔
      ∃ scope, executor.scopes[cancel]? = some scope ∧ item.scope = some scope := by
  rw [scopes, List.getElem?_map, InScope]
  cases executor.cancels[cancel]? <;> simp

theorem step_inScope (taken : executor.step action = some next) {cancel : ℕ}
    (called : cancel < executor.cancels.length) {item after : WorkItem ρ ε}
    (same : after.scope = item.scope) :
    next.InScope cancel after ↔ executor.InScope cancel item := by
  obtain ⟨more, whole⟩ := step_scopes taken
  have short : cancel < executor.scopes.length := by rwa [scopes, length_map]
  rw [inScope_iff, inScope_iff, same, ← whole, List.getElem?_append_left short]

theorem InScope.called {cancel : ℕ} {item : WorkItem ρ ε} (inScope : executor.InScope cancel item) :
    cancel < executor.cancels.length := by
  obtain ⟨pending, called, -⟩ := inScope
  exact (List.getElem?_eq_some_iff.mp called).1

theorem step_drain {cancel : ℕ} (taken : executor.step (.drain cancel) = some next) :
    cancel < executor.cancels.length ∧ next = executor.drain cancel := by
  rw [step] at taken
  split_ifs at taken with pending
  cases taken
  refine ⟨?_, rfl⟩
  cases called : executor.cancels[cancel]? with
  | none => simp [called] at pending
  | some _ => exact (List.getElem?_eq_some_iff.mp called).1

theorem drain_workQueue (cancel : ℕ) :
    (executor.drain cancel).workQueue = executor.workQueue.tail := by
  rw [drain]
  split
  · next queue => rw [queue, tail_nil]
  · next id rest queue => rw [queue]; rfl

/-- All that the cancels have taken out is of their own scopes. -/
def Owned (executor : QueueExecutor ρ ε) : Prop :=
  ∀ item ∈ executor.items, ∀ cancel, item.TakenBy cancel → executor.InScope cancel item

theorem Owned.isolated (consistent : executor.Consistent)
    (owned : executor.Owned) : executor.Isolated := by
  constructor
  · intro item member cancel _ foreign
    constructor
    · exact fun drained => foreign (owned item member cancel (.inl drained))
    · exact fun marked => foreign (owned item member cancel (.inr marked))
  · intro item member raised
    have sound := consistent.sound item member
    obtain ⟨cancel, marked⟩ :=
      Option.ne_none_iff_exists'.mp (sound.raised raised)
    exact ⟨cancel, marked, owned item member cancel (.inr marked)⟩

/-- **Step lemma.** Cancels that keep to their scopes own what they take. -/
theorem step_owned (consistent : executor.Consistent) (owned : executor.Owned)
    (own : executor.DrainsOwn action) (taken : executor.step action = some next) : next.Owned := by
  intro after member cancel isTaken
  have advances := step_advances consistent taken
  obtain ⟨id, found⟩ := mem_iff_getElem?.mp member
  cases before : executor.items[id]? with
  | none =>
    obtain ⟨blocking, scope, rfl⟩ := advances.made found before
    rcases isTaken with drained | marked
    · cases drained
    · cases marked
  | some item =>
    obtain ⟨same, at_, moves⟩ := advances.moves before
    cases found.symm.trans at_
    have wasMember := mem_of_getElem? before
    rcases moves.of_takenBy isTaken with wasTaken | ⟨queued, drains, drained⟩
    · have inScope := owned item wasMember cancel wasTaken
      exact (step_inScope taken inScope.called moves.scope).mpr inScope
    · cases action with
      | drain taker =>
        cases drains
        obtain ⟨called, rfl⟩ := step_drain taken
        apply (step_inScope taken called moves.scope).mpr
        apply own id item _ before
        -- An item behind the head is still queued.
        have inQueue := (consistent.queued id).mpr ⟨item, before, queued⟩
        cases queue : executor.workQueue with
        | nil =>
          rw [queue] at inQueue
          cases inQueue
        | cons head rest =>
          rw [queue] at inQueue
          rcases mem_cons.mp inQueue with same | behind
          · rw [same, List.head?_cons]
          · have still := (advances.consistent.queued id).mp (by
              rw [drain_workQueue, queue]
              exact behind)
            obtain ⟨other, at_, isQueued⟩ := still
            cases found.symm.trans at_
            cases drained.symm.trans isQueued
      | _ => cases drains

def Foreign (executor : QueueExecutor ρ ε) : Prop :=
  ∃ item ∈ executor.items, ∃ cancel < executor.cancels.length,
    item.TakenBy cancel ∧ ¬ executor.InScope cancel item

theorem Foreign.not_isolated (foreign : executor.Foreign) : ¬ executor.Isolated := by
  intro isolated
  obtain ⟨item, member, cancel, called, taken, outside⟩ := foreign
  obtain ⟨notDrained, notMarked⟩ :=
    isolated.untouched item member cancel called outside
  exact taken.elim notDrained notMarked

theorem step_called (taken : executor.step action = some next) {cancel : ℕ}
    (called : cancel < executor.cancels.length) :
    cancel < next.cancels.length := by
  have grown := (step_scopes taken).length_le
  rw [scopes, scopes, length_map, length_map] at grown
  omega

theorem step_foreign (consistent : executor.Consistent) (foreign : executor.Foreign)
    (taken : executor.step action = some next) : next.Foreign := by
  obtain ⟨item, member, cancel, called, isTaken, outside⟩ := foreign
  obtain ⟨id, found⟩ := mem_iff_getElem?.mp member
  obtain ⟨after, at_, moves⟩ := (step_advances consistent taken).moves found
  have sound := consistent.sound item member
  refine ⟨after, mem_of_getElem? at_, cancel, step_called taken called,
    moves.takenBy sound isTaken, ?_⟩
  rwa [step_inScope taken called moves.scope]

theorem drain_foreign (outside : ¬ executor.DrainsOwn action)
    (taken : executor.step action = some next) : next.Foreign := by
  cases action with
  | drain cancel =>
    rw [DrainsOwn] at outside
    push Not at outside
    obtain ⟨id, item, head, found, foreign⟩ := outside
    obtain ⟨called, rfl⟩ := step_drain taken
    cases queue : executor.workQueue with
    | nil =>
      rw [queue] at head
      cases head
    | cons first rest =>
      rw [queue] at head
      cases head
      have here : (executor.drain cancel).items[id]? =
          some { item with stage := .drained cancel } := by
        rw [drain, queue]
        simp [modifyItem, found]
      refine ⟨_, mem_of_getElem? here, cancel, step_called taken called, .inl rfl, ?_⟩
      rwa [step_inScope taken called rfl]
  | _ => exact absurd trivial outside

theorem run_drainsOwn_or_foreign {run : List (QueueAction ρ ε)} (consistent : executor.Consistent)
    (reaches : Reaches step Anything executor run next) :
    Reaches step DrainsOwn executor run next ∨ next.Foreign := by
  induction run generalizing executor with
  | nil => exact .inl reaches
  | cons action rest ih =>
    obtain ⟨-, middle, taken, later⟩ := reaches
    have middleConsistent := (step_advances consistent taken).consistent
    by_cases own : executor.DrainsOwn action
    · exact (ih middleConsistent later).imp_left fun rest => ⟨own, middle, taken, rest⟩
    · have invariant := Reaches.invariant (fun executor => executor.Consistent ∧ executor.Foreign)
        (fun _ _ _ holds _ taken =>
          ⟨(step_advances holds.1 taken).consistent, step_foreign holds.1 holds.2 taken⟩)
        ⟨middleConsistent, drain_foreign own taken⟩ later
      exact .inr invariant.2

/-- **Isolation.** In a run the cancels leave the items of other scopes alone
if and only if each takes out only items of its own scope. -/
theorem isolated_iff_drainsOwn {run : List (QueueAction ρ ε)}
    (reaches : Reaches step Anything init run executor) :
    executor.Isolated ↔ Reaches step DrainsOwn init run executor := by
  constructor
  · intro isolated
    apply (run_drainsOwn_or_foreign init_consistent reaches).resolve_right
    exact fun foreign => foreign.not_isolated isolated
  · intro own
    have invariant := Reaches.invariant (fun executor => executor.Consistent ∧ executor.Owned)
      (fun _ _ _ holds own taken =>
        ⟨(step_advances holds.1 taken).consistent, step_owned holds.1 holds.2 own taken⟩)
      ⟨init_consistent, fun _ member => nomatch member⟩ own
    exact invariant.2.isolated invariant.1

/-- The item of a caller whose `cancel()` has taken it out, and of the scope
that the caller was in. -/
def stoppedItem (scope : Option ℕ) : WorkItem ℕ ℕ where
  blocking := true
  scope := scope
  caller := .raised .sendCancelled
  stage := .left
  cancelled := true
  claimed := false
  eventSet := true
  result := none
  exception := some .sendCancelled
  starts := 0
  outcome := none
  markedBy := some 0

/-- A blocking call, and the cancel of the first scope while it is queued. -/
def stopRun (scope : Option ℕ) : List (QueueAction ℕ ℕ) :=
  [.lookUp true scope true, .put 0, .poke 0 true, .cancel 1, .drain 0, .drain 0, .mark 0, .wake 0]

def stopped (scope : Option ℕ) : QueueExecutor ℕ ℕ :=
  ⟨[stoppedItem scope], [], 1, 0, true, true, [⟨1, true⟩]⟩

theorem isolated_iff_drainsOwn_stopRun : (stopped (some 1)).Isolated ↔
      Reaches step DrainsOwn init (stopRun (some 1)) (stopped (some 1)) :=
  isolated_iff_drainsOwn (.of_follow (by decide))

/-- A call outside of every scope ends with the cancel of another send. -/
theorem not_isolated_stopRun : ¬ ∀ (run : List (QueueAction ℕ ℕ)) executor,
      Reaches step Anything init run executor → executor.Isolated := by
  intro isolated
  have reaches : Reaches step Anything init (stopRun none) (stopped none) :=
    .of_follow (by decide)
  obtain ⟨cancel, marked, pending, called, inScope⟩ :=
    (isolated _ _ reaches).ownCancel (stoppedItem none) (.head _) rfl
  cases inScope

end QueueExecutor

end WriterAgent.Framework
