import WriterAgent.Framework.WorkLifecycle
import Mathlib.Data.List.Nodup

/-!
# Runs of the work queue

Each step moves every item along its lifecycle and keeps the queue a list of
queued items.
-/

namespace WriterAgent.Framework

open List Option

variable {ρ ε : Type}

namespace WorkItem

/-- What one step can do to an item, and which cancel takes out items. -/
inductive Moves (item : WorkItem ρ ε) (drains : Option ℕ) : WorkItem ρ ε → Prop where
  | stay : Moves item drains item
  | put (putting : item.caller = .putting) :
      Moves item drains { item with caller := .poking, stage := .queued }
  | goOn {caller : Caller ρ ε} (before : item.caller ≠ .timedOut)
      (after : caller = .waiting ∨ caller = .givingUp ∨ caller = .posted) :
      Moves item drains { item with caller := caller }
  | timeOut : Moves item drains item.timeOut
  | wake (waiting : item.caller = .waiting) (event : item.eventSet = true) :
      Moves item drains item.wake
  | takeOut {stage : WorkStage} (queued : item.stage = .queued) (next : stage = .dequeued ∨
        ∃ cancel, drains = some cancel ∧ stage = .drained cancel) :
      Moves item drains { item with stage := stage }
  | claim (dequeued : item.stage = .dequeued) : Moves item drains item.claim
  | start (claimed : item.stage = .claimed) : Moves item drains item.start
  | finish (running : item.stage = .running) (outcome : Except ε ρ) :
      Moves item drains (item.finish outcome)
  | mark (cancel : ℕ) : Moves item drains (item.mark cancel)

variable {item next : WorkItem ρ ε} {drains : Option ℕ}

theorem Moves.sound (moves : item.Moves drains next) (sound : item.Sound) :
    next.Sound := by
  cases moves with
  | stay => exact sound
  | put putting => exact sound.put putting
  | goOn before after => exact sound.goOn before after
  | timeOut => exact sound.timeOut
  | wake waiting event => exact sound.wake waiting event
  | takeOut queued next =>
    exact sound.takeOut queued (next.imp_right fun ⟨cancel, _, drained⟩ => ⟨cancel, drained⟩)
  | claim dequeued => exact sound.claim dequeued
  | start claimed => exact sound.start claimed
  | finish running outcome => exact sound.finish running outcome
  | mark cancel => exact sound.mark cancel

@[simp] theorem wakeCancelled_scope : item.wakeCancelled.scope = item.scope := by
  rw [wakeCancelled]
  split <;> rfl

@[simp] theorem wakeCancelled_cancelled : item.wakeCancelled.cancelled = item.cancelled := by
  rw [wakeCancelled]
  split <;> rfl

@[simp] theorem wakeCancelled_markedBy : item.wakeCancelled.markedBy = item.markedBy := by
  rw [wakeCancelled]
  split <;> rfl

theorem Moves.cancelled (moves : item.Moves drains next)
    (cancelled : item.cancelled = true) : next.cancelled = true := by
  cases moves with
  | timeOut => simp [WorkItem.timeOut, cancelled]
  | claim => simp [WorkItem.claim, cancelled]
  | mark =>
    rw [WorkItem.mark]
    split
    · simp
    · exact cancelled
  | _ => exact cancelled

theorem Sound.starts_of_cancelled (sound : item.Sound)
    (cancelled : item.cancelled = true) : item.starts = 0 := by
  have unclaimed := (sound.cancelled cancelled).1
  have placed := sound.placed
  rw [Placed] at placed
  cases stage : item.stage with
  | claimed | running =>
    simp only [stage, unclaimed] at placed
    cases placed.1
  | left =>
    simp only [stage, unclaimed] at placed
    obtain ⟨-, ⟨claimed, -⟩ | ⟨-, starts, -⟩⟩ := placed
    · cases claimed
    · exact starts
  | _ =>
    simp only [stage] at placed
    exact placed.2.1

theorem Sound.starts_le_one (sound : item.Sound) : item.starts ≤ 1 := by
  have placed := sound.placed
  rw [Placed] at placed
  cases stage : item.stage with
  | running =>
    simp only [stage] at placed
    exact Nat.le_of_eq placed.2.1
  | left =>
    simp only [stage] at placed
    obtain ⟨-, ⟨-, starts, -⟩ | ⟨-, starts, -⟩⟩ := placed
    · exact Nat.le_of_eq starts
    · exact Nat.le_trans (Nat.le_of_eq starts) (Nat.zero_le 1)
  | _ =>
    simp only [stage] at placed
    exact Nat.le_trans (Nat.le_of_eq placed.2.1) (Nat.zero_le 1)

theorem Sound.event_of_left (sound : item.Sound) (left : item.stage = .left) :
    item.eventSet = item.blocking := by
  have placed := sound.placed
  rw [Placed, left] at placed
  exact placed.1

end WorkItem

def QueueAction.drains : QueueAction ρ ε → Option ℕ
  | .drain taker => some taker
  | _ => none

/-- All items are sound, and the queue holds the places of the queued ones. -/
structure Consistent (items : List (WorkItem ρ ε)) (workQueue : List ℕ) : Prop where
  sound : ∀ item ∈ items, item.Sound
  queued : ∀ id, id ∈ workQueue ↔ ∃ item, items[id]? = some item ∧ item.stage = .queued
  nodup : workQueue.Nodup

/-- Items that have gone on, with the queue behind the step. -/
structure Advances (items : List (WorkItem ρ ε)) (drains : Option ℕ)
    (next : List (WorkItem ρ ε)) (workQueue : List ℕ) : Prop where
  consistent : Consistent next workQueue
  moves : ∀ {id : ℕ} {item : WorkItem ρ ε}, items[id]? = some item →
    ∃ after, next[id]? = some after ∧ item.Moves drains after
  made : ∀ {id : ℕ} {after : WorkItem ρ ε}, next[id]? = some after →
    items[id]? = none → ∃ blocking scope, after = .make blocking scope

variable {items : List (WorkItem ρ ε)} {workQueue nextQueue : List ℕ} {id : ℕ}
  {item : WorkItem ρ ε} {f : WorkItem ρ ε → WorkItem ρ ε} {drains : Option ℕ}

theorem Consistent.refl (consistent : Consistent items workQueue) :
    Advances items drains items workQueue :=
  ⟨consistent, fun found => ⟨_, found, .stay⟩,
    fun found missing => nomatch found.symm.trans missing⟩

theorem Consistent.head (consistent : Consistent items (id :: workQueue)) :
    ∃ item, items[id]? = some item ∧ item.stage = .queued :=
  (consistent.queued id).mp (.head _)

theorem Consistent.modify (consistent : Consistent items workQueue) (found : items[id]? = some item)
    (moves : item.Moves drains (f item))
    (others : ∀ other, other ≠ id → (other ∈ nextQueue ↔ other ∈ workQueue))
    (queued : id ∈ nextQueue ↔ (f item).stage = .queued) (nodup : nextQueue.Nodup) :
    Advances items drains (items.modify id f) nextQueue := by
  have here : (items.modify id f)[id]? = some (f item) := by
    rw [List.getElem?_modify_eq, found]
    rfl
  have elsewhere : ∀ {other}, other ≠ id → (items.modify id f)[other]? = items[other]? := by
    intro other different
    exact List.getElem?_modify_ne f items different.symm
  have itemSound := consistent.sound item (mem_of_getElem? found)
  constructor
  · constructor
    · intro other member
      obtain ⟨place, at_⟩ := mem_iff_getElem?.mp member
      by_cases same : place = id
      · subst same
        rw [here] at at_
        cases at_
        exact moves.sound itemSound
      · rw [elsewhere same] at at_
        exact consistent.sound other (mem_of_getElem? at_)
    · intro other
      by_cases same : other = id
      · subst same
        rw [here, queued]
        constructor
        · exact fun isQueued => ⟨f item, rfl, isQueued⟩
        · rintro ⟨_, ⟨⟩, isQueued⟩
          exact isQueued
      · rw [elsewhere same, others other same]
        exact consistent.queued other
    · exact nodup
  · intro other before at_
    by_cases same : other = id
    · subst same
      rw [found] at at_
      cases at_
      exact ⟨f item, here, moves⟩
    · exact ⟨before, (elsewhere same).trans at_, .stay⟩
  · intro other after at_ missing
    have same : other ≠ id := by
      rintro rfl
      cases found.symm.trans missing
    rw [elsewhere same] at at_
    cases at_.symm.trans missing

theorem Consistent.modify_same (consistent : Consistent items workQueue)
    (found : items[id]? = some item) (moves : item.Moves drains (f item))
    (stays : (f item).stage = .queued ↔ item.stage = .queued) :
    Advances items drains (items.modify id f) workQueue := by
  apply consistent.modify found moves
  · exact fun other _ => .rfl
  · rw [consistent.queued id, stays, found]
    constructor
    · rintro ⟨_, ⟨⟩, isQueued⟩
      exact isQueued
    · exact fun isQueued => ⟨item, rfl, isQueued⟩
  · exact consistent.nodup

theorem Consistent.takeHead (consistent : Consistent items (id :: workQueue)) {stage : WorkStage}
    (next : stage = .dequeued ∨ ∃ cancel, drains = some cancel ∧ stage = .drained cancel) :
    Advances items drains (items.modify id fun item => { item with stage := stage })
      workQueue := by
  obtain ⟨item, found, queued⟩ := consistent.head
  obtain ⟨fresh, nodup⟩ := nodup_cons.mp consistent.nodup
  apply consistent.modify found (.takeOut queued next)
  · intro other different
    rw [mem_cons]
    exact ⟨.inr, fun member => member.resolve_left different⟩
  · constructor
    · exact fun member => absurd member fresh
    · rcases next with rfl | ⟨cancel, -, rfl⟩ <;> nofun
  · exact nodup

theorem Consistent.add (consistent : Consistent items workQueue)
    (blocking : Bool) (scope : Option ℕ) :
    Advances items drains (items ++ [.make blocking scope]) workQueue := by
  have kept : ∀ {id : ℕ} {item : WorkItem ρ ε}, items[id]? = some item →
      (items ++ [.make blocking scope])[id]? = some item := by
    intro id item found
    have short : id < items.length := (List.getElem?_eq_some_iff.mp found).1
    rw [List.getElem?_append_left short]
    exact found
  constructor
  · constructor
    · intro item member
      rcases mem_append.mp member with old | new
      · exact consistent.sound item old
      · cases mem_singleton.mp new
        exact WorkItem.make_sound blocking scope
    · intro id
      rw [consistent.queued id]
      constructor
      · rintro ⟨item, found, queued⟩
        exact ⟨item, kept found, queued⟩
      · rintro ⟨item, found, queued⟩
        rw [List.getElem?_append] at found
        split at found
        · exact ⟨item, found, queued⟩
        · have new := mem_singleton.mp (mem_of_getElem? found)
          rw [new] at queued
          cases queued
    · exact consistent.nodup
  · exact fun found => ⟨_, kept found, .stay⟩
  · intro id after found missing
    rw [List.getElem?_append_right (List.getElem?_eq_none_iff.mp missing)] at found
    exact ⟨blocking, scope, mem_singleton.mp (mem_of_getElem? found)⟩

theorem WorkItem.mark_queued (cancel : ℕ) :
    (item.mark cancel).stage = .queued ↔ item.stage = .queued := by
  rw [WorkItem.mark]
  split
  · rename_i drained
    rw [drained]
    exact ⟨by rintro ⟨⟩, by rintro ⟨⟩⟩
  · exact .rfl

theorem WorkItem.claim_queued (dequeued : item.stage = .dequeued) :
    item.claim.stage = .queued ↔ item.stage = .queued := by
  rw [WorkItem.claim, dequeued]
  split <;> exact ⟨by rintro ⟨⟩, by rintro ⟨⟩⟩

theorem Consistent.markAll (consistent : Consistent items workQueue)
    (cancel : ℕ) : Advances items drains (items.map (.mark cancel)) workQueue := by
  constructor
  · constructor
    · intro item member
      obtain ⟨before, old, rfl⟩ := mem_map.mp member
      exact (consistent.sound before old).mark cancel
    · intro id
      rw [consistent.queued id, List.getElem?_map]
      cases items[id]? with
      | none => simp
      | some item => simp [WorkItem.mark_queued]
    · exact consistent.nodup
  · intro id item found
    refine ⟨item.mark cancel, ?_, .mark cancel⟩
    rw [List.getElem?_map, found, map_some]
  · intro id after found missing
    rw [List.getElem?_map, missing] at found
    cases found

variable {allowed : WorkItem ρ ε → Bool}

namespace QueueExecutor

variable {executor next : QueueExecutor ρ ε} {action : QueueAction ρ ε}

def Consistent (executor : QueueExecutor ρ ε) : Prop :=
  Framework.Consistent executor.items executor.workQueue

def Advances (executor : QueueExecutor ρ ε) (drains : Option ℕ) (next : QueueExecutor ρ ε) : Prop :=
  Framework.Advances executor.items drains next.items next.workQueue

theorem init_consistent : (init : QueueExecutor ρ ε).Consistent := by
  constructor
  · exact fun item member => nomatch member
  · intro id
    simp [init]
  · exact .nil

theorem onItem_eq_some (taken : executor.onItem id allowed f = some next) :
    ∃ item, executor.items[id]? = some item ∧ allowed item = true ∧
      next = executor.modifyItem id f := by
  rw [onItem] at taken
  cases found : executor.items[id]? with
  | none => simp [found] at taken
  | some item =>
    simp only [found, any_some] at taken
    split_ifs at taken with isAllowed
    exact ⟨item, rfl, isAllowed, (some.inj taken).symm⟩

theorem pokeMainThread_items (accepted : Bool) :
    (executor.pokeMainThread accepted).items = executor.items := by
  rw [pokeMainThread]
  split <;> rfl

theorem pokeMainThread_workQueue (accepted : Bool) :
    (executor.pokeMainThread accepted).workQueue = executor.workQueue := by
  rw [pokeMainThread]
  split <;> rfl

theorem lookUp_items (executor : QueueExecutor ρ ε) (created : Bool) :
    (executor.lookUp created).items = executor.items := by
  rw [lookUp]
  split <;> rfl

theorem lookUp_workQueue (executor : QueueExecutor ρ ε) (created : Bool) :
    (executor.lookUp created).workQueue = executor.workQueue := by
  rw [lookUp]
  split <;> rfl

section

variable (consistent : executor.Consistent)

include consistent

theorem onItem_advances (taken : executor.onItem id allowed f = some next)
    (moves : ∀ item, item.Sound → allowed item = true → item.Moves drains (f item))
    (stays : ∀ item, allowed item = true → ((f item).stage = .queued ↔ item.stage = .queued)) :
    executor.Advances drains next := by
  obtain ⟨item, found, isAllowed, rfl⟩ := onItem_eq_some taken
  have sound := consistent.sound item (mem_of_getElem? found)
  exact consistent.modify_same found (moves item sound isAllowed) (stays item isAllowed)

theorem dequeue_advances : executor.Advances drains executor.dequeue := by
  rw [dequeue]
  cases queue : executor.workQueue with
  | nil => exact consistent.refl
  | cons id rest =>
    rw [Consistent, queue] at consistent
    exact consistent.takeHead (.inl rfl)

theorem drain_advances (cancel : ℕ) : executor.Advances (some cancel) (executor.drain cancel) := by
  rw [drain]
  cases queue : executor.workQueue with
  | nil =>
    rw [Consistent, queue] at consistent
    exact consistent.refl
  | cons id rest =>
    rw [Consistent, queue] at consistent
    exact consistent.takeHead (.inr ⟨cancel, rfl, rfl⟩)

theorem put_advances (taken : executor.step (.put id) = some next) :
    executor.Advances drains next := by
  obtain ⟨middle, placed, rest⟩ := bind_eq_some_iff.mp taken
  cases rest
  obtain ⟨item, found, isAllowed, rfl⟩ := onItem_eq_some placed
  have putting : item.caller = .putting := by
    cases caller : item.caller with
    | putting => rfl
    | _ => simp [caller] at isAllowed
  have made := (consistent.sound item (mem_of_getElem? found)).putting putting
  have fresh : id ∉ executor.workQueue := by
    intro member
    obtain ⟨same, at_, queued⟩ := (consistent.queued id).mp member
    rw [found] at at_
    cases at_
    cases made.symm.trans queued
  apply Framework.Consistent.modify consistent found (.put putting)
  · intro other different
    simp [modifyItem, different]
  · simp
  · exact nodup_append.mpr ⟨consistent.nodup, nodup_singleton id, fun a old b new => by
        cases mem_singleton.mp new
        rintro rfl
        exact fresh old⟩

theorem poke_advances {accepted : Bool} (taken : executor.step (.poke id accepted) = some next) :
    executor.Advances drains next := by
  obtain ⟨middle, placed, rest⟩ := bind_eq_some_iff.mp taken
  cases rest
  rw [Advances, pokeMainThread_items, pokeMainThread_workQueue]
  apply onItem_advances consistent placed
  · intro item sound isAllowed
    apply WorkItem.Moves.goOn
    · intro timedOut
      simp [timedOut] at isAllowed
    · cases item.blocking with
      | true => exact .inl rfl
      | false => exact .inr (.inr rfl)
  · exact fun item _ => .rfl

/-- **Step lemma.** Every step of every thread keeps the items sound. -/
theorem step_advances (taken : executor.step action = some next) :
    executor.Advances action.drains next := by
  cases action with
  | setContext =>
    cases taken
    exact consistent.refl
  | lookUp blocking scope created =>
    cases taken
    have same := lookUp_items executor created
    have queue := lookUp_workQueue executor created
    cases (executor.lookUp created).service with
    | true =>
      rw [same, queue]
      exact consistent.add blocking scope
    | false =>
      rw [Advances, if_neg Bool.false_ne_true, same, queue]
      exact consistent.refl
  | put id => exact put_advances consistent taken
  | poke id accepted => exact poke_advances consistent taken
  | callback =>
    rw [step] at taken
    split_ifs at taken
    cases taken
    have fewer : Consistent { executor with
        callbacks := executor.callbacks - 1 } := consistent
    exact dequeue_advances fewer
  | pump =>
    rw [step] at taken
    split_ifs at taken
    cases taken
    exact dequeue_advances consistent
  | claim id =>
    apply onItem_advances consistent taken
    · exact fun item _ allowed => .claim (of_decide_eq_true allowed)
    · exact fun item allowed =>
        WorkItem.claim_queued (of_decide_eq_true allowed)
  | start id =>
    apply onItem_advances consistent taken
    · exact fun item _ allowed => .start (of_decide_eq_true allowed)
    · intro item allowed
      rw [of_decide_eq_true allowed]
      exact ⟨nofun, nofun⟩
  | finish id outcome =>
    obtain ⟨middle, placed, rest⟩ := bind_eq_some_iff.mp taken
    cases rest
    apply onItem_advances consistent placed
    · exact fun item _ allowed => .finish (of_decide_eq_true allowed) outcome
    · intro item allowed
      rw [of_decide_eq_true allowed]
      exact ⟨nofun, nofun⟩
  | repoke accepted =>
    rw [step] at taken
    split_ifs at taken
    cases taken
    split
    · exact consistent.refl
    · rw [Advances, pokeMainThread_items, pokeMainThread_workQueue]
      exact consistent.refl
  | giveUp id =>
    apply onItem_advances consistent taken
    · intro item _ allowed
      apply WorkItem.Moves.goOn
      · intro timedOut
        simp [timedOut] at allowed
      · exact .inr (.inl rfl)
    · exact fun item _ => .rfl
  | timeOut id =>
    apply onItem_advances consistent taken
    · exact fun item _ _ => .timeOut
    · exact fun item _ => .rfl
  | wake id =>
    apply onItem_advances consistent taken
    · intro item _ allowed
      obtain ⟨waits, event⟩ := Bool.and_eq_true_iff.mp allowed
      apply WorkItem.Moves.wake _ event
      cases caller : item.caller with
      | waiting => rfl
      | _ => simp [caller] at waits
    · exact fun item _ => .rfl
  | cancel scope =>
    rw [step] at taken
    split_ifs at taken
    cases taken
    exact consistent.refl
  | drain cancel =>
    rw [step] at taken
    split_ifs at taken
    cases taken
    exact drain_advances consistent cancel
  | mark cancel =>
    rw [step] at taken
    split_ifs at taken
    cases taken
    exact consistent.markAll cancel

end

/-- Any step, whatever the state. -/
def Anything (_executor : QueueExecutor ρ ε) (_action : QueueAction ρ ε) :
    Prop := True

instance (executor : QueueExecutor ρ ε) (action : QueueAction ρ ε) :
    Decidable (executor.Anything action) :=
  inferInstanceAs (Decidable True)

variable {condition : QueueExecutor ρ ε → QueueAction ρ ε → Prop} {run : List (QueueAction ρ ε)}

theorem run_consistent (consistent : executor.Consistent)
    (reaches : Reaches step condition executor run next) : next.Consistent :=
  Reaches.invariant Consistent (fun _ _ _ holds _ taken => (step_advances holds taken).consistent)
    consistent reaches

theorem run_item (holds : WorkItem ρ ε → Prop)
    (kept : ∀ (before after : WorkItem ρ ε) (drains : Option ℕ),
      before.Sound → before.Moves drains after → holds before → holds after)
    (consistent : executor.Consistent)
    (reaches : Reaches step condition executor run next)
    (found : executor.items[id]? = some item) (start : holds item) :
    ∃ after, next.items[id]? = some after ∧ holds after := by
  have invariant := Reaches.invariant (fun executor => executor.Consistent ∧
      ∃ after, executor.items[id]? = some after ∧ holds after)
    (by
      rintro middle action later ⟨isConsistent, before, at_, isHolding⟩ - taken
      have advances := step_advances isConsistent taken
      obtain ⟨after, then_, moves⟩ := advances.moves at_
      have sound := isConsistent.sound before (mem_of_getElem? at_)
      exact ⟨advances.consistent, after, then_,
        kept before after action.drains sound moves isHolding⟩)
    ⟨consistent, item, found, start⟩ reaches
  exact invariant.2

theorem run_cancelled (consistent : executor.Consistent)
    (reaches : Reaches step condition executor run next) (found : executor.items[id]? = some item)
    (cancelled : item.cancelled = true) :
    ∃ after, next.items[id]? = some after ∧ after.starts = 0 := by
  obtain ⟨after, at_, isCancelled⟩ := run_item (·.cancelled = true)
    (fun _ _ _ _ moves => moves.cancelled) consistent reaches found cancelled
  have sound := (run_consistent consistent reaches).sound after (mem_of_getElem? at_)
  exact ⟨after, at_, sound.starts_of_cancelled isCancelled⟩

end QueueExecutor

end WriterAgent.Framework
