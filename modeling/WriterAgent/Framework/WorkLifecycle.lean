import Mathlib.Data.List.Basic
import WriterAgent.Foundations.Runs

/-!
# The work queue of the main thread

`plugin/framework/queue_executor.py`: `QueueExecutor` hands functions of other
threads to the main thread.  A caller puts a work item into the queue and pokes
the main thread, which asks the event loop for a later call of `process_queue`.
The steps of all threads interleave; what a thread does under `_claim_lock` is
one step.
-/

namespace WriterAgent.Framework

variable {ρ ε : Type}

/-- Where a work item is: with its caller, in the queue, in the hands of
`process_queue` before the claim, behind it or in its function, taken out by
`cancel_pending_work`, or left behind by all of them. -/
inductive WorkStage where
  | made
  | queued
  | dequeued
  | claimed
  | running
  | drained (cancel : ℕ)
  | left
  deriving DecidableEq, Repr

inductive WorkException (ε : Type) where
  | sendCancelled
  | raised (exception : ε)
  deriving DecidableEq, Repr

/-- The thread that made a work item: before the put, before the poke, in
`_wait_for_result`, past the timeout before it has the lock, or done.  A caller
of `post` waits for nothing. -/
inductive Caller (ρ ε : Type) where
  | putting
  | poking
  | waiting
  | givingUp
  | timedOut
  | returned (result : Option ρ)
  | raised (exception : WorkException ε)
  | posted
  deriving DecidableEq, Repr

/-- `_WorkItem` with its caller, where it is, and the `SendCancellation` in
which it was made.  The last three fields are history: how often the function
was started, how it ended and which cancel has marked the item. -/
structure WorkItem (ρ ε : Type) where
  blocking : Bool
  scope : Option ℕ
  caller : Caller ρ ε
  stage : WorkStage
  cancelled : Bool
  claimed : Bool
  eventSet : Bool
  result : Option ρ
  exception : Option (WorkException ε)
  starts : ℕ
  outcome : Option (Except ε ρ)
  markedBy : Option ℕ
  deriving DecidableEq, Repr

/-- A run of `cancel_pending_work` by the `cancel()` of a scope: whether it has
seen the queue empty. -/
structure PendingCancel where
  scope : ℕ
  sawEmpty : Bool
  deriving DecidableEq, Repr

/-- The executor: all items, the queue with the places of its items, the calls
of `process_queue` that the event loop has accepted, those between a function
and the poke behind it, the callback service and all cancels. -/
structure QueueExecutor (ρ ε : Type) where
  items : List (WorkItem ρ ε)
  workQueue : List ℕ
  callbacks : ℕ
  repokes : ℕ
  initialized : Bool
  service : Bool
  cancels : List PendingCancel
  deriving DecidableEq, Repr

namespace WorkItem

def make (blocking : Bool) (scope : Option ℕ) : WorkItem ρ ε where
  blocking := blocking
  scope := scope
  caller := .putting
  stage := .made
  cancelled := false
  claimed := false
  eventSet := false
  result := none
  exception := none
  starts := 0
  outcome := none
  markedBy := none

/-- `item.exception = SendCancelled()` and `item.event.set()`, when somebody
may wait for the event. -/
def wakeCancelled (item : WorkItem ρ ε) : WorkItem ρ ε :=
  if item.blocking && !item.eventSet then
    { item with exception := some .sendCancelled, eventSet := true }
  else item

/-- `process_queue` takes the item or skips it when it is cancelled. -/
def claim (item : WorkItem ρ ε) : WorkItem ρ ε :=
  if item.cancelled then { item.wakeCancelled with stage := .left }
  else { item with claimed := true, stage := .claimed }

def start (item : WorkItem ρ ε) : WorkItem ρ ε :=
  { item with stage := .running, starts := item.starts + 1 }

def finish (outcome : Except ε ρ) (item : WorkItem ρ ε) : WorkItem ρ ε :=
  { item with
    stage := .left
    outcome := some outcome
    result := match outcome with
      | .ok value => some value
      | .error _ => item.result
    exception := match outcome with
      | .ok _ => item.exception
      | .error exception => some (.raised exception)
    eventSet := item.blocking }

/-- `cancel_pending_work` marks an item it has taken out. -/
def mark (cancel : ℕ) (item : WorkItem ρ ε) : WorkItem ρ ε :=
  if item.stage = .drained cancel then
    { wakeCancelled { item with cancelled := true } with
      stage := .left
      markedBy := some cancel }
  else item

/-- A caller that has waited too long cancels its item unless it is claimed. -/
def timeOut (item : WorkItem ρ ε) : WorkItem ρ ε :=
  { item with
    caller := .timedOut
    cancelled := item.cancelled || !item.claimed }

/-- The event is set: `_wait_for_result` raises or returns. -/
def wake (item : WorkItem ρ ε) : WorkItem ρ ε :=
  { item with
    caller := match item.exception with
      | some exception => .raised exception
      | none => .returned item.result }

end WorkItem

/-- The steps of all threads.  `lookUp` is `_get_async_callback` of a caller of
`execute` or `post`, with whether a service can be created; a poke or a re-poke
tells whether `addCallback` accepts the call. -/
inductive QueueAction (ρ ε : Type) where
  | setContext
  | lookUp (blocking : Bool) (scope : Option ℕ) (created : Bool)
  | put (id : ℕ)
  | poke (id : ℕ) (accepted : Bool)
  | callback
  | pump
  | claim (id : ℕ)
  | start (id : ℕ)
  | finish (id : ℕ) (outcome : Except ε ρ)
  | repoke (accepted : Bool)
  | giveUp (id : ℕ)
  | timeOut (id : ℕ)
  | wake (id : ℕ)
  | cancel (scope : ℕ)
  | drain (cancel : ℕ)
  | mark (cancel : ℕ)

namespace QueueExecutor

def init : QueueExecutor ρ ε := ⟨[], [], 0, 0, false, false, []⟩

def modifyItem (executor : QueueExecutor ρ ε) (id : ℕ)
    (f : WorkItem ρ ε → WorkItem ρ ε) : QueueExecutor ρ ε :=
  { executor with items := executor.items.modify id f }

def pokeMainThread (executor : QueueExecutor ρ ε) (accepted : Bool) : QueueExecutor ρ ε :=
  if executor.service && accepted then
    { executor with callbacks := executor.callbacks + 1 }
  else executor

/-- `get_nowait` at the start of `process_queue`. -/
def dequeue (executor : QueueExecutor ρ ε) : QueueExecutor ρ ε :=
  match executor.workQueue with
  | [] => executor
  | id :: rest => modifyItem { executor with workQueue := rest } id
      fun item => { item with stage := .dequeued }

def onItem (executor : QueueExecutor ρ ε) (id : ℕ)
    (allowed : WorkItem ρ ε → Bool) (f : WorkItem ρ ε → WorkItem ρ ε) :
    Option (QueueExecutor ρ ε) :=
  if (executor.items[id]?).any allowed then some (executor.modifyItem id f)
  else none

def lookUp (executor : QueueExecutor ρ ε) (created : Bool) : QueueExecutor ρ ε :=
  if executor.initialized then executor
  else { executor with initialized := true, service := created }

/-- A step of `cancel_pending_work` that takes out one item. -/
def drain (executor : QueueExecutor ρ ε) (cancel : ℕ) : QueueExecutor ρ ε :=
  match executor.workQueue with
  | [] => { executor with
      cancels := executor.cancels.modify cancel fun pending => { pending with sawEmpty := true } }
  | id :: rest => modifyItem { executor with workQueue := rest } id
      fun item => { item with stage := .drained cancel }

def step (executor : QueueExecutor ρ ε) : QueueAction ρ ε → Option (QueueExecutor ρ ε)
  | .setContext => some { executor with initialized := false, service := false }
  | .lookUp blocking scope created =>
    let executor := executor.lookUp created
    some (if executor.service then
      { executor with items := executor.items ++ [.make blocking scope] }
      else executor)
  | .put id => do
    let next ← executor.onItem id (fun item => item.caller matches .putting)
      fun item => { item with caller := .poking, stage := .queued }
    return { next with workQueue := next.workQueue ++ [id] }
  | .poke id accepted => do
    let next ← executor.onItem id (fun item => item.caller matches .poking) fun item => { item with
        caller := if item.blocking then .waiting else .posted }
    return next.pokeMainThread accepted
  | .callback =>
    if executor.callbacks = 0 then none
    else some (dequeue { executor with callbacks := executor.callbacks - 1 })
  | .pump => if executor.workQueue.isEmpty then none else some executor.dequeue
  | .claim id => executor.onItem id (fun item => item.stage = .dequeued) .claim
  | .start id => executor.onItem id (fun item => item.stage = .claimed) .start
  | .finish id outcome => do
    let next ← executor.onItem id (fun item => item.stage = .running) (.finish outcome)
    return { next with repokes := next.repokes + 1 }
  | .repoke accepted =>
    if executor.repokes = 0 then none
    else
      let next := { executor with repokes := executor.repokes - 1 }
      some (if next.workQueue.isEmpty then next
        else next.pokeMainThread accepted)
  | .giveUp id => executor.onItem id (fun item => (item.caller matches .waiting) && !item.eventSet)
      fun item => { item with caller := .givingUp }
  | .timeOut id => executor.onItem id (fun item => item.caller matches .givingUp) .timeOut
  | .wake id => executor.onItem id
      (fun item => (item.caller matches .waiting) && item.eventSet) .wake
  | .cancel scope =>
    if executor.cancels.any fun pending => pending.scope = scope then none
    else some { executor with
      cancels := executor.cancels ++ [⟨scope, false⟩] }
  | .drain cancel =>
    if (executor.cancels[cancel]?).any fun pending => !pending.sawEmpty then
      some (executor.drain cancel)
    else none
  | .mark cancel =>
    if (executor.cancels[cancel]?).any fun pending => pending.sawEmpty then
      some { executor with items := executor.items.map (.mark cancel) }
    else none

end QueueExecutor

end WriterAgent.Framework

/-!
## The lifecycle of a work item

A work item is in one place at any time, and only the claim lets its function
start.  Every step keeps this, whatever the other threads do.
-/

namespace WriterAgent.Framework

variable {ρ ε : Type}

namespace WorkItem

/-- The function has ended, and its end is what the item holds. -/
def Ended (item : WorkItem ρ ε) : Prop :=
  match item.outcome with
  | none => False
  | some (.ok value) => item.result = some value ∧ item.exception = none
  | some (.error exception) => item.exception = some (.raised exception)

/-- Nothing has come out of the function yet. -/
def Untouched (item : WorkItem ρ ε) : Prop :=
  item.eventSet = false ∧ item.exception = none ∧ item.outcome = none

def Idle (item : WorkItem ρ ε) : Prop :=
  item.claimed = false ∧ item.starts = 0 ∧ item.Untouched

def Placed (item : WorkItem ρ ε) : Prop :=
  match item.stage with
  | .claimed => item.claimed = true ∧ item.starts = 0 ∧ item.Untouched
  | .running => item.claimed = true ∧ item.starts = 1 ∧ item.Untouched
  | .left => item.eventSet = item.blocking ∧ (item.claimed = true ∧ item.starts = 1 ∧ item.Ended ∨
        item.claimed = false ∧ item.starts = 0 ∧ item.outcome = none ∧
          (item.blocking = true → item.exception = some .sendCancelled))
  | _ => item.Idle

structure Sound (item : WorkItem ρ ε) : Prop where
  placed : item.Placed
  putting : item.caller = .putting → item.stage = .made
  cancelled : item.cancelled = true → item.claimed = false ∧
    (item.caller = .timedOut ∨ item.markedBy ≠ none)
  sendCancelled : item.exception = some .sendCancelled →
    item.caller = .timedOut ∨ item.markedBy ≠ none
  timedOut : item.caller = .timedOut → item.claimed = true ∨ item.cancelled = true
  returned : ∀ result, item.caller = .returned result →
    ∃ value, result = some value ∧ item.outcome = some (.ok value)
  raised : item.caller = .raised .sendCancelled → item.markedBy ≠ none
  marked : item.markedBy ≠ none → item.stage = .left

theorem make_sound (blocking : Bool) (scope : Option ℕ) :
    (make blocking scope : WorkItem ρ ε).Sound := by
  constructor
  · exact ⟨rfl, rfl, rfl, rfl, rfl⟩
  all_goals simp [make]

variable {item : WorkItem ρ ε}

theorem Sound.idle (sound : item.Sound) (stage : item.stage = .made ∨ item.stage = .queued ∨
      item.stage = .dequeued ∨ ∃ cancel, item.stage = .drained cancel) :
    item.Idle := by
  have placed := sound.placed
  rw [Placed] at placed
  rcases stage with stage | stage | stage | ⟨cancel, stage⟩ <;>
    simpa only [stage] using placed

theorem Sound.not_putting (sound : item.Sound) (stage : item.stage ≠ .made) :
    item.caller ≠ .putting :=
  fun putting => stage (sound.putting putting)

theorem Sound.put (sound : item.Sound) (putting : item.caller = .putting) :
    Sound { item with caller := .poking, stage := .queued } := by
  have idle := sound.idle (.inl (sound.putting putting))
  have notTimedOut : item.caller ≠ .timedOut := by
    rw [putting]
    nofun
  constructor
  · exact idle
  · nofun
  · intro cancelled
    obtain ⟨unclaimed, cause⟩ := sound.cancelled cancelled
    exact ⟨unclaimed, .inr (cause.resolve_left notTimedOut)⟩
  · intro sendCancelled
    exact .inr ((sound.sendCancelled sendCancelled).resolve_left notTimedOut)
  · nofun
  · nofun
  · nofun
  · intro marked
    cases (sound.marked marked).symm.trans (sound.putting putting)

theorem Sound.goOn (sound : item.Sound) {caller : Caller ρ ε} (before : item.caller ≠ .timedOut)
    (after : caller = .waiting ∨ caller = .givingUp ∨ caller = .posted) :
    Sound { item with caller := caller } := by
  have placed := sound.placed
  have unchanged : ∀ other, caller = other →
      other = .waiting ∨ other = .givingUp ∨ other = .posted := by
    rintro other rfl
    exact after
  constructor
  · exact placed
  · intro putting
    simpa using unchanged _ putting
  · intro cancelled
    obtain ⟨unclaimed, cause⟩ := sound.cancelled cancelled
    exact ⟨unclaimed, .inr (cause.resolve_left before)⟩
  · intro sendCancelled
    exact .inr ((sound.sendCancelled sendCancelled).resolve_left before)
  · intro timedOut
    simpa using unchanged _ timedOut
  · intro result returned
    simpa using unchanged _ returned
  · intro raised
    simpa using unchanged _ raised
  · exact sound.marked

theorem Sound.timeOut (sound : item.Sound) : item.timeOut.Sound := by
  have placed := sound.placed
  constructor
  · exact placed
  · nofun
  · intro cancelled
    refine ⟨?_, .inl rfl⟩
    rcases Bool.or_eq_true_iff.mp cancelled with before | unclaimed
    · exact (sound.cancelled before).1
    · exact Bool.not_eq_true' _ ▸ unclaimed
  · exact fun _ => .inl rfl
  · intro _
    cases claimed : item.claimed with
    | true => exact .inl claimed
    | false => simp [WorkItem.timeOut, claimed]
  · nofun
  · nofun
  · exact sound.marked

theorem Sound.left_of_event (sound : item.Sound)
    (event : item.eventSet = true) : item.stage = .left := by
  have placed := sound.placed
  rw [Placed] at placed
  cases stage : item.stage with
  | left => rfl
  | _ =>
    simp only [stage] at placed
    rw [placed.2.2.1] at event
    cases event

theorem Sound.wake (sound : item.Sound) (waiting : item.caller = .waiting)
    (event : item.eventSet = true) : item.wake.Sound := by
  have placed := sound.placed
  have left := sound.left_of_event event
  have notTimedOut : item.caller ≠ .timedOut := by
    rw [waiting]
    nofun
  constructor
  · exact placed
  · intro putting
    rw [WorkItem.wake] at putting
    split at putting <;> cases putting
  · intro cancelled
    obtain ⟨unclaimed, cause⟩ := sound.cancelled cancelled
    exact ⟨unclaimed, .inr (cause.resolve_left notTimedOut)⟩
  · intro sendCancelled
    exact .inr ((sound.sendCancelled sendCancelled).resolve_left notTimedOut)
  · intro timedOut
    rw [WorkItem.wake] at timedOut
    split at timedOut <;> cases timedOut
  · intro result returned
    rw [WorkItem.wake] at returned
    cases exception : item.exception with
    | some _ =>
      simp only [exception] at returned
      cases returned
    | none =>
      simp only [exception] at returned
      cases returned
      rw [Placed, left] at placed
      obtain ⟨isEvent, ⟨-, -, ended⟩ | ⟨-, -, -, cancelled⟩⟩ := placed
      · rw [Ended] at ended
        split at ended
        · exact ended.elim
        · next value outcome => exact ⟨value, ended.1, outcome⟩
        · rw [exception] at ended
          cases ended
      · rw [event] at isEvent
        have isCancelled := cancelled isEvent.symm
        rw [exception] at isCancelled
        cases isCancelled
  · intro raised
    rw [WorkItem.wake] at raised
    cases exception : item.exception with
    | none =>
      simp only [exception] at raised
      cases raised
    | some other =>
      simp only [exception] at raised
      cases raised
      exact (sound.sendCancelled exception).resolve_left notTimedOut
  · exact sound.marked

theorem Sound.takeOut (sound : item.Sound) (queued : item.stage = .queued) {stage : WorkStage}
    (next : stage = .dequeued ∨ ∃ cancel, stage = .drained cancel) :
    Sound { item with stage := stage } := by
  have idle := sound.idle (.inr (.inl queued))
  have notPutting := sound.not_putting (by rw [queued]; nofun)
  constructor
  · rcases next with rfl | ⟨cancel, rfl⟩ <;> exact idle
  · intro putting
    exact absurd putting notPutting
  · exact sound.cancelled
  · exact sound.sendCancelled
  · exact sound.timedOut
  · exact sound.returned
  · exact sound.raised
  · intro marked
    cases (sound.marked marked).symm.trans queued

theorem wakeCancelled_of_idle (idle : item.Idle) : item.wakeCancelled.eventSet = item.blocking ∧
      item.wakeCancelled.claimed = false ∧ item.wakeCancelled.starts = 0 ∧
      item.wakeCancelled.outcome = none ∧
      (item.blocking = true → item.wakeCancelled.exception = some .sendCancelled) := by
  obtain ⟨claimed, starts, event, exception, outcome⟩ := idle
  rw [wakeCancelled, event]
  cases item.blocking with
  | true => exact ⟨rfl, claimed, starts, outcome, fun _ => rfl⟩
  | false => exact ⟨event, claimed, starts, outcome, nofun⟩

theorem skip_sound (idle : item.Idle) (notPutting : item.caller ≠ .putting)
    (cancelled : item.cancelled = true) (cause : item.caller = .timedOut ∨ item.markedBy ≠ none)
    (notReturned : ∀ result, item.caller ≠ .returned result)
    (raised : item.caller = .raised .sendCancelled → item.markedBy ≠ none) :
    Sound { item.wakeCancelled with stage := .left } := by
  obtain ⟨event, claimed, starts, outcome, exception⟩ :=
    wakeCancelled_of_idle idle
  have others : item.wakeCancelled.caller = item.caller ∧
      item.wakeCancelled.cancelled = item.cancelled ∧
      item.wakeCancelled.blocking = item.blocking ∧
      item.wakeCancelled.markedBy = item.markedBy := by
    rw [wakeCancelled]
    split <;> exact ⟨rfl, rfl, rfl, rfl⟩
  obtain ⟨caller, isCancelled, blocking, markedBy⟩ := others
  constructor
  · refine ⟨event.trans blocking.symm, .inr ⟨claimed, starts, outcome, ?_⟩⟩
    intro waits
    exact exception (blocking ▸ waits)
  · intro putting
    exact absurd (caller ▸ putting) notPutting
  · intro _
    refine ⟨claimed, ?_⟩
    simpa only [caller, markedBy] using cause
  · intro _
    simpa only [caller, markedBy] using cause
  · intro _
    exact .inr (isCancelled.trans cancelled)
  · intro result returned
    exact absurd (caller ▸ returned) (notReturned result)
  · intro isRaised
    simpa only [markedBy] using raised (caller ▸ isRaised)
  · exact fun _ => rfl

theorem Sound.not_returned (sound : item.Sound) (idle : item.Idle)
    (result : Option ρ) : item.caller ≠ .returned result := by
  intro returned
  obtain ⟨value, -, ended⟩ := sound.returned result returned
  rw [idle.2.2.2.2] at ended
  cases ended

theorem Sound.claim (sound : item.Sound) (dequeued : item.stage = .dequeued) :
    item.claim.Sound := by
  have idle := sound.idle (.inr (.inr (.inl dequeued)))
  have notPutting := sound.not_putting (by rw [dequeued]; nofun)
  rw [WorkItem.claim]
  cases isCancelled : item.cancelled with
  | true =>
    exact skip_sound idle notPutting isCancelled
      (sound.cancelled isCancelled).2 (sound.not_returned idle) sound.raised
  | false =>
    constructor
    · exact ⟨rfl, idle.2⟩
    · exact fun putting => absurd putting notPutting
    · nofun
    · exact sound.sendCancelled
    · exact fun _ => .inl rfl
    · exact sound.returned
    · exact sound.raised
    · intro marked
      cases (sound.marked marked).symm.trans dequeued

theorem Sound.start (sound : item.Sound) (claimed : item.stage = .claimed) :
    item.start.Sound := by
  have placed := sound.placed
  rw [Placed, claimed] at placed
  obtain ⟨isClaimed, starts, untouched⟩ := placed
  constructor
  · refine ⟨isClaimed, ?_, untouched⟩
    show item.starts + 1 = 1
    rw [starts]
  · intro putting
    exact absurd putting (sound.not_putting (by rw [claimed]; nofun))
  · exact sound.cancelled
  · exact sound.sendCancelled
  · exact sound.timedOut
  · exact sound.returned
  · exact sound.raised
  · intro marked
    cases (sound.marked marked).symm.trans claimed

theorem Sound.finish (sound : item.Sound) (running : item.stage = .running)
    (outcome : Except ε ρ) : (item.finish outcome).Sound := by
  have placed := sound.placed
  rw [Placed, running] at placed
  obtain ⟨isClaimed, starts, event, exception, noOutcome⟩ := placed
  constructor
  · refine ⟨rfl, .inl ⟨isClaimed, starts, ?_⟩⟩
    cases outcome with
    | ok value => exact ⟨rfl, exception⟩
    | error raised => exact rfl
  · intro putting
    exact absurd putting (sound.not_putting (by rw [running]; nofun))
  · exact sound.cancelled
  · intro sendCancelled
    cases outcome with
    | ok value => exact sound.sendCancelled sendCancelled
    | error raised => cases sendCancelled
  · exact sound.timedOut
  · intro result returned
    obtain ⟨value, -, ended⟩ := sound.returned result returned
    rw [noOutcome] at ended
    cases ended
  · exact sound.raised
  · exact fun _ => rfl

theorem Sound.mark (sound : item.Sound) (cancel : ℕ) : (item.mark cancel).Sound := by
  rw [WorkItem.mark]
  split
  · rename_i drained
    have idle := sound.idle (.inr (.inr (.inr ⟨cancel, drained⟩)))
    have notPutting := sound.not_putting (by rw [drained]; nofun)
    have stillIdle : Idle { item with cancelled := true, markedBy := some cancel } := idle
    have left := skip_sound stillIdle notPutting rfl (.inr nofun)
      (sound.not_returned idle) (fun _ => nofun)
    simp only [wakeCancelled] at left ⊢
    cases waits : item.blocking && !item.eventSet with
    | true => simpa only [waits, if_true] using left
    | false => simpa only [waits, Bool.false_eq_true, if_false] using left
  · exact sound

end WorkItem

end WriterAgent.Framework
