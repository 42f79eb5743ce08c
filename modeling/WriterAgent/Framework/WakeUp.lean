import WriterAgent.Framework.WorkQueueRuns

/-!
# Wake-ups of the main thread

Every put is followed by a poke.  As long as each poke is heard, the event loop
owes the queue at least as many calls of `process_queue` as there are items in
it.  The service that the poke needs was looked up before the put, and a new
context in between drops it.
-/

namespace WriterAgent.Framework

open List

variable {ρ ε : Type}
variable {item : WorkItem ρ ε}

theorem countP_modify {α : Type} {items : List α} {id : ℕ} {item : α}
    (found : items[id]? = some item) (f : α → α) (p : α → Bool) :
    (items.modify id f).countP p + (if p item then 1 else 0) =
      items.countP p + (if p (f item) then 1 else 0) := by
  obtain ⟨short, here⟩ := List.getElem?_eq_some_iff.mp found
  obtain ⟨front, same, back, whole, length, modified⟩ :=
    exists_of_modify f short
  have isItem : same = item := by
    subst whole
    simpa [← length] using here
  subst isItem
  rw [modified, whole, countP_append, countP_append, countP_cons, countP_cons]
  omega

namespace WorkItem

def poking (item : WorkItem ρ ε) : Bool := item.caller matches .poking

theorem wakeCancelled_poking (item : WorkItem ρ ε) : item.wakeCancelled.poking = item.poking := by
  rw [wakeCancelled]
  split <;> rfl

theorem claim_poking (item : WorkItem ρ ε) : item.claim.poking = item.poking := by
  rw [claim]
  split
  · exact item.wakeCancelled_poking
  · rfl

theorem mark_poking (cancel : ℕ) (item : WorkItem ρ ε) :
    (item.mark cancel).poking = item.poking := by
  rw [mark]
  split
  · exact wakeCancelled_poking _
  · rfl

theorem wake_poking (waiting : item.caller = .waiting) : item.wake.poking = item.poking := by
  cases exception : item.exception <;>
    simp [poking, wake, waiting, exception]

end WorkItem

namespace QueueExecutor

/-- A poke of a caller finds the service, and `addCallback` accepts it. -/
def Heard (executor : QueueExecutor ρ ε) : QueueAction ρ ε → Prop
  | .poke _ accepted => executor.service = true ∧ accepted = true
  | _ => True

/-- A `process_queue` that will poke again at its end. -/
def WillRepoke (item : WorkItem ρ ε) : Prop :=
  item.stage = .dequeued ∧ item.cancelled = false ∨ item.stage = .claimed ∨ item.stage = .running

/-- No wake-up is lost: when nobody is between a put and its poke, a non-empty
queue has a call of `process_queue` outstanding. -/
def Awake (executor : QueueExecutor ρ ε) : Prop :=
  executor.workQueue ≠ [] → (∀ item ∈ executor.items, item.caller ≠ .poking) →
    0 < executor.callbacks ∨ 0 < executor.repokes ∨ ∃ item ∈ executor.items, WillRepoke item

/-- Each queued item has a callback of its own or a poke before it. -/
def Covered (executor : QueueExecutor ρ ε) : Prop :=
  executor.workQueue.length ≤ executor.callbacks + executor.items.countP WorkItem.poking

variable {executor next : QueueExecutor ρ ε} {action : QueueAction ρ ε}
  {id : ℕ} {f : WorkItem ρ ε → WorkItem ρ ε}

theorem Covered.awake (covered : executor.Covered) : executor.Awake := by
  intro nonempty quiet
  have none : executor.items.countP WorkItem.poking = 0 := by
    apply countP_eq_zero.mpr
    intro item member poking
    apply quiet item member
    rw [WorkItem.poking] at poking
    cases caller : item.caller with
    | poking => rfl
    | _ => simp [caller] at poking
  have length := length_pos_iff.mpr nonempty
  rw [Covered] at covered
  omega

theorem Covered.onItem (covered : executor.Covered) {allowed : WorkItem ρ ε → Bool}
    (taken : executor.onItem id allowed f = some next)
    (same : ∀ item, allowed item = true → (f item).poking = item.poking) :
    next.Covered := by
  obtain ⟨item, found, isAllowed, rfl⟩ := onItem_eq_some taken
  have count := countP_modify found f WorkItem.poking
  rw [same item isAllowed] at count
  rw [Covered] at covered ⊢
  simp only [modifyItem]
  omega

theorem Covered.takeHead (consistent : executor.Consistent) {rest : List ℕ}
    (queue : executor.workQueue = id :: rest) (callbacks : ℕ)
    (covered : executor.workQueue.length ≤ callbacks + 1 + executor.items.countP WorkItem.poking)
    (stage : WorkStage) :
    rest.length ≤ callbacks + (executor.items.modify id fun item =>
      { item with stage := stage }).countP WorkItem.poking := by
  obtain ⟨item, found, -⟩ := (consistent.queued id).mp (queue ▸ mem_cons_self)
  have count := countP_modify found (fun item => { item with stage := stage }) WorkItem.poking
  have same : WorkItem.poking { item with stage := stage } = item.poking := rfl
  rw [same] at count
  rw [queue, length_cons] at covered
  omega

theorem Covered.dequeue (consistent : executor.Consistent) (covered : executor.workQueue.length ≤
      executor.callbacks + 1 + executor.items.countP WorkItem.poking) :
    executor.dequeue.Covered := by
  rw [QueueExecutor.dequeue]
  split
  · rename_i queue
    rw [Covered, queue]
    exact Nat.zero_le _
  · rename_i id rest queue
    exact takeHead consistent queue executor.callbacks covered .dequeued

theorem Covered.put (covered : executor.Covered)
    (taken : executor.step (.put id) = some next) : next.Covered := by
  obtain ⟨middle, placed, rest⟩ := Option.bind_eq_some_iff.mp taken
  cases rest
  obtain ⟨item, found, isAllowed, rfl⟩ := onItem_eq_some placed
  have count := countP_modify found (fun item => { item with caller := .poking, stage := .queued })
    WorkItem.poking
  have before : item.poking = false := by
    cases caller : item.caller with
    | putting => simp [WorkItem.poking, caller]
    | _ => simp [caller] at isAllowed
  have after : WorkItem.poking
      { item with caller := .poking, stage := .queued } = true := rfl
  rw [before, after, if_pos rfl, if_neg Bool.false_ne_true] at count
  rw [Covered] at covered ⊢
  simp only [modifyItem, length_append, length_singleton]
  omega

theorem Covered.poke (covered : executor.Covered) {accepted : Bool}
    (heard : executor.Heard (.poke id accepted))
    (taken : executor.step (.poke id accepted) = some next) :
    next.Covered := by
  obtain ⟨service, isAccepted⟩ := heard
  obtain ⟨middle, placed, rest⟩ := Option.bind_eq_some_iff.mp taken
  cases rest
  obtain ⟨item, found, isAllowed, rfl⟩ := onItem_eq_some placed
  have count := countP_modify found (fun item => { item with
      caller := if item.blocking then .waiting else .posted })
    WorkItem.poking
  have before : item.poking = true := by
    cases caller : item.caller with
    | poking => simp [WorkItem.poking, caller]
    | _ => simp [caller] at isAllowed
  have after : WorkItem.poking { item with
      caller := if item.blocking then .waiting else .posted } = false := by
    cases blocking : item.blocking <;> simp [WorkItem.poking]
  rw [before, if_pos rfl] at count
  rw [pokeMainThread]
  simp only [modifyItem, service, isAccepted, Bool.and_self, if_true]
  rw [Covered] at covered ⊢
  simp only
  omega

/-- **Step lemma.** While every poke is heard, the queue stays covered. -/
theorem step_covered (consistent : executor.Consistent) (covered : executor.Covered)
    (heard : executor.Heard action) (taken : executor.step action = some next) : next.Covered := by
  cases action with
  | setContext =>
    cases taken
    exact covered
  | lookUp blocking scope created =>
    cases taken
    have callbacks : (executor.lookUp created).callbacks =
        executor.callbacks := by
      rw [lookUp]
      split <;> rfl
    rw [Covered] at covered ⊢
    split
    · simp only [lookUp_items, lookUp_workQueue, callbacks, countP_append]
      omega
    · simpa only [lookUp_items, lookUp_workQueue, callbacks] using covered
  | put id => exact covered.put taken
  | poke id accepted => exact covered.poke heard taken
  | callback =>
    rw [step] at taken
    split_ifs at taken with none
    cases taken
    have fewer : Consistent { executor with
        callbacks := executor.callbacks - 1 } := consistent
    apply Covered.dequeue fewer
    rw [Covered] at covered
    show executor.workQueue.length ≤
      executor.callbacks - 1 + 1 + executor.items.countP WorkItem.poking
    omega
  | pump =>
    rw [step] at taken
    split_ifs at taken
    cases taken
    apply Covered.dequeue consistent
    rw [Covered] at covered
    omega
  | claim id => exact covered.onItem taken fun item _ => item.claim_poking
  | start id => exact covered.onItem taken fun _ _ => rfl
  | finish id outcome =>
    obtain ⟨middle, placed, rest⟩ := Option.bind_eq_some_iff.mp taken
    cases rest
    have middleCovered : middle.Covered :=
      covered.onItem placed fun _ _ => rfl
    exact middleCovered
  | repoke accepted =>
    rw [step] at taken
    split_ifs at taken
    cases taken
    split
    · exact covered
    · rw [pokeMainThread]
      split
      · exact Nat.le_trans covered (by simp only; omega)
      · exact covered
  | giveUp id =>
    apply covered.onItem taken
    intro item allowed
    have waits := (Bool.and_eq_true_iff.mp allowed).1
    cases caller : item.caller with
    | waiting => simp [WorkItem.poking, caller]
    | _ => simp [caller] at waits
  | timeOut id =>
    apply covered.onItem taken
    intro item allowed
    cases caller : item.caller with
    | givingUp => simp [WorkItem.poking, WorkItem.timeOut, caller]
    | _ => simp [caller] at allowed
  | wake id =>
    apply covered.onItem taken
    intro item allowed
    have waits := (Bool.and_eq_true_iff.mp allowed).1
    cases caller : item.caller with
    | waiting => exact WorkItem.wake_poking caller
    | _ => simp [caller] at waits
  | cancel scope =>
    rw [step] at taken
    split_ifs at taken
    cases taken
    exact covered
  | drain cancel =>
    rw [step] at taken
    split_ifs at taken
    cases taken
    rw [drain]
    split
    · exact covered
    · rename_i id rest queue
      rw [Covered] at covered
      exact Covered.takeHead consistent queue executor.callbacks (by omega) (.drained cancel)
  | mark cancel =>
    rw [step] at taken
    split_ifs at taken
    cases taken
    rw [Covered] at covered ⊢
    simp only [countP_map]
    have same : WorkItem.poking ∘ WorkItem.mark cancel = (WorkItem.poking : WorkItem ρ ε → Bool) :=
      funext fun item => item.mark_poking cancel
    rwa [same]

theorem run_covered {run : List (QueueAction ρ ε)}
    (reaches : Reaches step Heard init run executor) : executor.Covered := by
  have invariant := Reaches.invariant (fun executor => executor.Consistent ∧ executor.Covered)
    (fun _ _ _ holds heard taken =>
      ⟨(step_advances holds.1 taken).consistent, step_covered holds.1 holds.2 heard taken⟩)
    ⟨init_consistent, Nat.zero_le _⟩ reaches
  exact invariant.2

structure LivesOnce (executor : QueueExecutor ρ ε) (id : ℕ) (item : WorkItem ρ ε) : Prop where
  once : item.starts ≤ 1
  /-- An item that was put is still in the queue, or in the hands of
  `process_queue` or of a cancel, or its event is set. -/
  woken : item.blocking = true → item.stage ≠ .made →
    id ∈ executor.workQueue ∨ item.stage = .dequeued ∨
      item.stage = .claimed ∨ item.stage = .running ∨
      (∃ cancel, item.stage = .drained cancel) ∨ item.eventSet = true
  ownResult : ∀ result, item.caller = .returned result →
    ∃ value, result = some value ∧ item.outcome = some (.ok value)
  /-- The function of an item that is cancelled, or that its caller gave up
  before the claim, is not started now or later. -/
  dead : item.cancelled = true ∨ item.caller = .timedOut ∧ item.claimed = false →
    ∀ run final, Reaches step Anything executor run final →
      ∃ after, final.items[id]? = some after ∧ after.starts = 0

theorem Consistent.livesOnce (consistent : executor.Consistent)
    (found : executor.items[id]? = some item) : executor.LivesOnce id item := by
  have sound := consistent.sound item (mem_of_getElem? found)
  constructor
  · exact sound.starts_le_one
  · intro blocking put
    cases stage : item.stage with
    | made => exact absurd stage put
    | queued => exact .inl ((consistent.queued id).mpr ⟨item, found, stage⟩)
    | dequeued | claimed | running | drained => simp
    | left =>
      have event := sound.event_of_left stage
      simp [event, blocking]
  · exact sound.returned
  · intro stopped run final reaches
    have cancelled : item.cancelled = true := by
      rcases stopped with cancelled | ⟨timedOut, unclaimed⟩
      · exact cancelled
      · apply (sound.timedOut timedOut).resolve_left
        rw [unclaimed]
        exact Bool.false_ne_true
    exact run_cancelled consistent reaches found cancelled

/-- **Work queue.** In every run each function is started at most once, never
after a cancel or a timeout before the claim, only its own end gives a waiter a
result, and no blocking item gets lost without its event; and while every poke
is heard, no wake-up is lost. -/
theorem livesOnce_and_awake : (∀ (run : List (QueueAction ρ ε)) executor,
      Reaches step Anything init run executor →
      ∀ id item, executor.items[id]? = some item → executor.LivesOnce id item) ∧
    ∀ (run : List (QueueAction ρ ε)) executor,
      Reaches step Heard init run executor → executor.Awake := by
  constructor
  · intro run executor reaches id item found
    exact (run_consistent init_consistent reaches).livesOnce found
  · intro run executor reaches
    exact (run_covered reaches).awake

/-- The item of an `execute` whose function has answered 7. -/
def answered : WorkItem ℕ ℕ where
  blocking := true
  scope := none
  caller := .returned (some 7)
  stage := .left
  cancelled := false
  claimed := true
  eventSet := true
  result := some 7
  exception := none
  starts := 1
  outcome := some (.ok 7)
  markedBy := none

def answeredRun : List (QueueAction ℕ ℕ) :=
  [.lookUp true none true, .put 0, .poke 0 true, .callback, .claim 0,
    .start 0, .finish 0 (.ok 7), .repoke true, .wake 0]

theorem livesOnce_and_awake_answered :
    LivesOnce (⟨[answered], [], 0, 0, true, true, []⟩ : QueueExecutor ℕ ℕ) 0 answered ∧
      Awake (⟨[{ answered with
          caller := .waiting, stage := .queued, claimed := false,
          eventSet := false, result := none, starts := 0, outcome := none }],
        [0], 1, 0, true, true, []⟩ : QueueExecutor ℕ ℕ) := by
  constructor
  · apply livesOnce_and_awake.1 answeredRun
    · exact .of_follow (by decide)
    · rfl
  · apply livesOnce_and_awake.2 (answeredRun.take 3)
    exact ⟨trivial, _, rfl, trivial, _, rfl, ⟨rfl, rfl⟩, _, rfl, rfl⟩

/-- A new context between the look-up and the poke of a `post`. -/
def unheardPost : List (QueueAction ℕ ℕ) :=
  [.lookUp false none true, .setContext, .put 0, .poke 0 true]

theorem not_awake_unheardPost : ¬ ∀ (run : List (QueueAction ℕ ℕ)) executor,
      Reaches step Anything init run executor → executor.Awake := by
  intro awake
  have reaches : Reaches step Anything init unheardPost ⟨[{ WorkItem.make false none with
          caller := .posted, stage := .queued }],
        [0], 0, 0, false, false, []⟩ := .of_follow (by decide)
  rcases awake _ _ reaches (by decide) (by decide) with callback | repoke | item
  · cases callback
  · cases repoke
  · obtain ⟨item, member, dequeued | claimed | running⟩ := item
    all_goals cases mem_singleton.mp member
    · cases dequeued.1
    · cases claimed
    · cases running

end QueueExecutor

end WriterAgent.Framework
