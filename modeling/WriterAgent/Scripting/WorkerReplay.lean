import WriterAgent.Foundations.EventLog
import WriterAgent.Scripting.WorkerHarness

/-!
# Turns with side effects are not replayed

The handlers of the request loop send a request again after most failures.
Whatever program the child runs, a request goes out only while no tool has run
for it, unless an attempt fails in a way that is replayed after one of its
tools has run.
-/

namespace WriterAgent.Scripting

open List

def executedIn (history : List IpcEvent) (call : ℕ) : Bool :=
  history.any fun event =>
    match event with
    | .executed other _ => other == call
    | .sent _ _ | .returned _ _ | .raised _ => false

/-- Once a tool has run for a request, the request is not sent again. -/
def NeverReplayed (history : List IpcEvent) : Prop :=
  ∀ front call attempt back, history = front ++ .executed call attempt :: back →
      ∀ again, .sent call again ∉ back

/-- The tools of a request have run in one of its attempts. -/
def OneAttempt (history : List IpcEvent) : Prop :=
  ∀ call attempt other, .executed call attempt ∈ history →
    .executed call other ∈ history → attempt = other

variable {turn : IpcTurn} {outcome : StageOutcome} {history added : List IpcEvent}

theorem executedIn_eq_true {call : ℕ} : executedIn history call = true ↔
      ∃ attempt, .executed call attempt ∈ history := by
  rw [executedIn, any_eq_true]
  constructor
  · rintro ⟨event, member, isCall⟩
    cases event with
    | executed other attempt =>
      cases eq_of_beq isCall
      exact ⟨attempt, member⟩
    | sent | returned | raised => cases isCall
  · rintro ⟨attempt, member⟩
    exact ⟨_, member, beq_self_eq_true call⟩

theorem executedIn_eq_false {call : ℕ} : executedIn history call = false ↔
      ∀ attempt, .executed call attempt ∉ history := by
  rw [← Bool.not_eq_true, executedIn_eq_true, not_exists]

theorem NeverReplayed.snoc {history : List IpcEvent} {event : IpcEvent}
    (never : NeverReplayed history)
    (fresh : ∀ call again, event = .sent call again →
      executedIn history call = false) : NeverReplayed (history ++ [event]) := by
  intro front call attempt back split again member
  rcases EventLog.snoc_eq_split.mp split with
    ⟨rfl, rfl, rfl⟩ | ⟨body, rfl, before⟩
  · cases member
  · rcases mem_append.mp member with earlier | last
    · exact never front call attempt body before again earlier
    · rw [mem_singleton] at last
      have unseen := executedIn_eq_false.mp (fresh call again last.symm) attempt
      rw [before] at unseen
      exact unseen (mem_append_right _ mem_cons_self)

namespace WorkerManager

variable {τ α : Type}

def surfaces (manager : WorkerManager τ) (turn : IpcTurn) : StageOutcome → Option IpcError
  | .raised error _ =>
    match turn.stage with
    | .reply _ => some (replyError error)
    | _ => some error
  | .done =>
    match turn.stage with
    | .read =>
      match manager.takeFrame with
      | none => some .runtime
      | some (none, _) => some .runtime
      | some (some _, _) => none
    | .dispatch response =>
      if response.kind = some .toolCall ∧ response.toolNamed = false then
        some .runtime
      else none
    | _ => none

/-- The operation fails in a way that the loop answers with another attempt,
after a tool has run for the request. -/
def replaysWork (manager : WorkerManager τ) : ManagerAction α → Bool
  | .host outcome =>
    match manager.turn with
    | none => false
    | some turn =>
      match manager.surfaces turn outcome with
      | none => false
      | some error => turn.disposition error == .retry && executedIn manager.history turn.request.id
  | .execute _ | .worker _ => false

/-- What an operation records: an attempt is sent when its request is written,
and a tool runs when its call is dispatched. -/
inductive Records (manager : WorkerManager τ) (turn : IpcTurn) : List IpcEvent → Prop where
  | nothing : Records manager turn []
  | sent (writes : turn.stage = .write) : Records manager turn [.sent turn.request.id turn.attempt]
  | executed (response : WorkerFrame) (dispatches : turn.stage = .dispatch response) :
      Records manager turn [.executed turn.request.id turn.attempt]

/-- The parts of the manager that only the handlers change. -/
structure Frame (manager next : WorkerManager τ) (added : List IpcEvent) : Prop where
  nextId : next.nextId = manager.nextId
  history : next.history = manager.history ++ added

theorem Frame.refl (manager : WorkerManager τ) : Frame manager manager [] :=
  ⟨rfl, (append_nil _).symm⟩

theorem frame_ensureRunning (program : WorkerProgram τ α) (manager : WorkerManager τ) :
    Frame manager (manager.ensureRunning program) [] := by
  rw [ensureRunning]
  split
  · exact .refl manager
  · exact ⟨rfl, (append_nil _).symm⟩

theorem frame_takeFrame {manager rest : WorkerManager τ} {payload : Option WorkerFrame}
    (taken : manager.takeFrame = some (payload, rest)) :
    Frame manager rest [] := by
  rw [takeFrame] at taken
  split at taken
  · cases taken
  · split at taken
    · cases taken
    · cases taken
      exact ⟨rfl, (append_nil _).symm⟩

/-- Where an operation leads: the loop goes on and is back at the write only
from the start, or it fails, and not with a replayed exception in the operation
that has run a tool, or it has an answer. -/
inductive Advanced (manager : WorkerManager τ) (turn : IpcTurn)
    (outcome : StageOutcome) : Progress τ → Prop where
  | goOn {next : WorkerManager τ} {stage : Stage} {added : List IpcEvent}
      (frame : Frame manager next added) (records : Records manager turn added)
      (passes : manager.surfaces turn outcome = none) (later : stage ≠ .start)
      (writes : stage = .write → turn.stage = .start) :
      Advanced manager turn outcome (.goOn next stage)
  | failed {next : WorkerManager τ} {error : IpcError} {added : List IpcEvent}
      (frame : Frame manager next added) (records : Records manager turn added)
      (surfaces : manager.surfaces turn outcome = some error)
      (spares : turn.disposition error = .retry → executedIn added turn.request.id = false) :
      Advanced manager turn outcome (.failed next error)
  | answered {response : WorkerFrame} (passes : manager.surfaces turn outcome = none) :
      Advanced manager turn outcome (.answered manager response)

variable {manager : WorkerManager τ} {progress : Progress τ}

theorem readResponse_cases (reads : turn.stage = .read)
    (taken : manager.readResponse turn outcome = some progress) :
    Advanced manager turn outcome progress := by
  cases outcome with
  | done =>
    rw [readResponse] at taken
    split at taken
    · rename_i empty
      split_ifs at taken
      cases taken
      exact .failed (.refl manager) .nothing (by simp only [surfaces, reads, empty]) fun _ => rfl
    · rename_i rest found
      cases taken
      exact .failed (frame_takeFrame found) .nothing
        (by simp only [surfaces, reads, found]) fun _ => rfl
    · rename_i frame rest found
      have passes : manager.surfaces turn .done = none := by simp only [surfaces, reads, found]
      split at taken
      · cases taken
        exact .goOn (frame_takeFrame found) .nothing passes nofun nofun
      · cases taken
        exact .goOn (frame_takeFrame found) .nothing passes nofun nofun
  | raised error passed =>
    have raises : manager.surfaces turn (.raised error passed) = some error := by
      simp only [surfaces, reads]
    cases passed with
    | false =>
      cases taken
      exact .failed (.refl manager) .nothing raises fun _ => rfl
    | true =>
      rw [readResponse] at taken
      split at taken
      · cases taken
      · rename_i payload rest found
        cases taken
        exact .failed (frame_takeFrame found) .nothing raises fun _ => rfl

theorem dispatch_cases {response : WorkerFrame} (dispatches : turn.stage = .dispatch response)
    (taken : manager.dispatch turn response outcome = some progress) :
    Advanced manager turn outcome progress := by
  have raises : ∀ error passed, manager.surfaces turn (.raised error passed) = some error := by
    intro error passed
    simp only [surfaces, dispatches]
  have passes : (response.kind = some .toolCall →
      response.toolNamed = true) → manager.surfaces turn .done = none := by
    intro named
    simp only [surfaces, dispatches]
    apply if_neg
    rintro ⟨isCall, unnamed⟩
    exact absurd (named isCall) (Bool.not_eq_true _ ▸ unnamed)
  have executed : Frame manager (manager.log (.executed turn.request.id turn.attempt))
      [.executed turn.request.id turn.attempt] := ⟨rfl, rfl⟩
  unfold dispatch at taken
  split at taken
  · rename_i isCall
    split at taken
    · rename_i named
      cases taken
      exact .goOn executed (.executed response dispatches) (passes fun _ => named) nofun nofun
    · rename_i unnamed
      cases taken
      refine .failed (.refl manager) .nothing ?_ fun _ => rfl
      simp only [surfaces, dispatches]
      exact if_pos ⟨isCall, eq_false_of_ne_true unnamed⟩
  · rename_i passed isCall
    split at taken
    · cases taken
      have escapes : turn.disposition .exit ≠ .retry := by simp [IpcTurn.disposition]
      cases passed with
      | false => exact .failed (.refl manager) .nothing (raises _ _) fun _ => rfl
      | true =>
        exact .failed executed (.executed response dispatches) (raises _ _)
          fun retried => absurd retried escapes
    · cases taken
  · cases taken
  · rename_i isKind
    cases taken
    exact .goOn (.refl manager) .nothing
      (passes fun isCall => nomatch isKind.symm.trans isCall) nofun nofun
  · cases taken
    exact .failed (.refl manager) .nothing (raises _ _) fun _ => rfl
  · rename_i isKind
    cases taken
    exact .goOn (.refl manager) .nothing
      (passes fun isCall => nomatch isKind.symm.trans isCall) nofun nofun
  · cases taken
    exact .failed (.refl manager) .nothing (raises _ _) fun _ => rfl
  · rename_i isKind
    cases taken
    exact .goOn (.refl manager) .nothing
      (passes fun isCall => nomatch isKind.symm.trans isCall) nofun nofun
  · rename_i isKind
    cases taken
    exact .goOn (.refl manager) .nothing
      (passes fun isCall => nomatch isKind.symm.trans isCall) nofun nofun
  · cases taken
  · cases taken

theorem advance_cases {program : WorkerProgram τ α}
    (taken : manager.advance program turn outcome = some progress) :
    Advanced manager turn outcome progress := by
  obtain ⟨request, attempt, stage, pending⟩ := turn
  have quiet : ∀ frame, Frame manager (manager.writeFrame frame) [] :=
    fun frame => ⟨rfl, (append_nil _).symm⟩
  have sent : Frame manager ((manager.writeFrame (.request request)).log
      (.sent request.id attempt)) [.sent request.id attempt] := ⟨rfl, rfl⟩
  cases stage with
  | start =>
    cases outcome with
    | done =>
      cases taken
      exact .goOn (frame_ensureRunning program manager) .nothing rfl nofun fun _ => rfl
    | raised error passed =>
      cases taken
      exact .failed (.refl manager) .nothing rfl fun _ => rfl
  | write =>
    cases outcome with
    | done =>
      cases taken
      exact .goOn sent (.sent rfl) rfl nofun nofun
    | raised error passed =>
      cases taken
      cases passed with
      | false => exact .failed (.refl manager) .nothing rfl fun _ => rfl
      | true => exact .failed sent (.sent rfl) rfl fun _ => rfl
  | resolve =>
    cases outcome with
    | done =>
      cases taken
      exact .goOn (.refl manager) .nothing rfl nofun nofun
    | raised error passed =>
      cases taken
      exact .failed (.refl manager) .nothing rfl fun _ => rfl
  | read => exact readResponse_cases rfl taken
  | dispatch response => exact dispatch_cases rfl taken
  | reply answer =>
    cases outcome with
    | done =>
      cases taken
      exact .goOn (quiet answer) .nothing rfl nofun nofun
    | raised error passed =>
      cases taken
      cases passed with
      | false => exact .failed (.refl manager) .nothing rfl fun _ => rfl
      | true => exact .failed (quiet answer) .nothing rfl fun _ => rfl
  | normalize response =>
    cases outcome with
    | done =>
      cases taken
      exact .answered rfl
    | raised error passed =>
      cases taken
      exact .failed (.refl manager) .nothing rfl fun _ => rfl

/-- No request has gone out after a tool has run for it. -/
structure SparedHistory (manager : WorkerManager τ) : Prop where
  never : NeverReplayed manager.history
  once : OneAttempt manager.history
  known : ∀ event ∈ manager.history, event.call < manager.nextId

/-- Moreover the turn that is about to send its request has run no tool. -/
structure Spared (manager : WorkerManager τ) : Prop extends SparedHistory manager where
  drawn : ∀ turn, manager.turn = some turn → turn.request.id < manager.nextId
  unsent : ∀ turn, manager.turn = some turn → turn.stage = .start ∨ turn.stage = .write →
      executedIn manager.history turn.request.id = false
  current : ∀ turn, manager.turn = some turn →
    ∀ attempt, .executed turn.request.id attempt ∈ manager.history → attempt = turn.attempt

theorem spared_init : Spared (init : WorkerManager τ) where
  never := by
    intro front call attempt back split
    exact absurd split.symm (by simp [init])
  once := nofun
  known := nofun
  drawn := by rintro _ ⟨⟩
  unsent := by rintro _ ⟨⟩
  current := by rintro _ ⟨⟩

theorem SparedHistory.idle (spared : SparedHistory manager) (idle : manager.turn = none) :
    Spared manager where
  toSparedHistory := spared
  drawn _ isTurn := absurd (idle.symm.trans isTurn) nofun
  unsent _ isTurn := absurd (idle.symm.trans isTurn) nofun
  current _ isTurn := absurd (idle.symm.trans isTurn) nofun

theorem SparedHistory.unseen (spared : SparedHistory manager) :
    ∀ attempt, .executed manager.nextId attempt ∉ manager.history := by
  intro attempt member
  exact Nat.lt_irrefl _ (spared.known _ member)

theorem SparedHistory.beginTurn (spared : SparedHistory manager) (allowHeartbeat : Bool)
    (pending : Option Bool) :
    Spared (manager.beginTurn allowHeartbeat pending) where
  never := spared.never
  once := spared.once
  known event member := Nat.lt_succ_of_lt (spared.known event member)
  drawn turn isTurn := by
    cases isTurn
    exact Nat.lt_succ_self _
  unsent turn isTurn _ := by
    cases isTurn
    exact executedIn_eq_false.mpr spared.unseen
  current turn isTurn attempt member := by
    cases isTurn
    exact absurd member (spared.unseen attempt)

theorem SparedHistory.log {event : IpcEvent} (spared : SparedHistory manager)
    (drawn : event.call < manager.nextId) (notSent : ∀ call again, event ≠ .sent call again)
    (notExecuted : ∀ call attempt, event ≠ .executed call attempt) :
    SparedHistory (manager.log event) where
  never := spared.never.snoc fun call again isSent =>
    absurd isSent (notSent call again)
  once := by
    have earlier : ∀ call attempt, .executed call attempt ∈ manager.history ++ [event] →
          .executed call attempt ∈ manager.history := by
      intro call attempt member
      rcases mem_append.mp member with before | last
      · exact before
      · rw [mem_singleton] at last
        exact absurd last.symm (notExecuted call attempt)
    intro call attempt other first second
    exact spared.once call attempt other (earlier _ _ first) (earlier _ _ second)
  known other member := by
    rcases mem_append.mp member with before | last
    · exact spared.known other before
    · rw [mem_singleton] at last
      exact last ▸ drawn

theorem SparedHistory.finishTurn (spared : SparedHistory manager)
    (drawn : turn.request.id < manager.nextId) (response : Option WorkerFrame) :
    Spared (manager.finishTurn turn response) := by
  have ended : SparedHistory ({ manager with turn := none }.log
      (.returned turn.request.id (response.map WorkerFrame.id))) :=
    SparedHistory.log ⟨spared.never, spared.once, spared.known⟩ drawn
      nofun nofun
  unfold WorkerManager.finishTurn
  cases turn.pending with
  | none => exact ended.idle rfl
  | some allowHeartbeat =>
    dsimp only
    split
    · apply SparedHistory.beginTurn
      exact ⟨ended.never, ended.once, ended.known⟩
    · exact ended.idle rfl

theorem Spared.after {manager next : WorkerManager τ} (spared : Spared manager)
    (isTurn : manager.turn = some turn) (frame : Frame manager next added)
    (records : Records manager turn added) :
    SparedHistory next ∧ ∀ attempt, .executed turn.request.id attempt ∈ next.history →
        attempt = turn.attempt := by
  have drawn := spared.drawn turn isTurn
  have current := spared.current turn isTurn
  obtain ⟨sameId, grows⟩ := frame
  cases records with
  | nothing =>
    rw [append_nil] at grows
    exact ⟨⟨grows ▸ spared.never, grows ▸ spared.once,
      grows ▸ sameId ▸ spared.known⟩, grows ▸ current⟩
  | sent writes =>
    have unsent := spared.unsent turn isTurn (Or.inr writes)
    refine ⟨⟨?_, ?_, ?_⟩, ?_⟩
    · rw [grows]
      apply spared.never.snoc
      intro call again isSent
      cases isSent
      exact unsent
    · intro call attempt other first second
      rw [grows] at first second
      simp only [mem_append, mem_singleton, reduceCtorEq, or_false] at first second
      exact spared.once call attempt other first second
    · intro event member
      rw [grows] at member
      rw [sameId]
      rcases mem_append.mp member with before | last
      · exact spared.known event before
      · rw [mem_singleton] at last
        exact last ▸ drawn
    · intro attempt member
      rw [grows] at member
      simp only [mem_append, mem_singleton, reduceCtorEq, or_false] at member
      exact current attempt member
  | executed response dispatches =>
    have here : ∀ attempt, .executed turn.request.id attempt ∈ next.history →
        attempt = turn.attempt := by
      intro attempt member
      rw [grows] at member
      rcases mem_append.mp member with before | last
      · exact current attempt before
      · rw [mem_singleton] at last
        cases last
        rfl
    refine ⟨⟨?_, ?_, ?_⟩, here⟩
    · rw [grows]
      exact spared.never.snoc (by rintro _ _ ⟨⟩)
    · intro call attempt other first second
      by_cases same : call = turn.request.id
      · subst same
        rw [here attempt first, here other second]
      · rw [grows] at first second
        simp only [mem_append, mem_singleton,
          IpcEvent.executed.injEq, same, false_and, or_false] at first second
        exact spared.once call attempt other first second
    · intro event member
      rw [grows] at member
      rw [sameId]
      rcases mem_append.mp member with before | last
      · exact spared.known event before
      · rw [mem_singleton] at last
        exact last ▸ drawn

theorem Spared.handle {manager next : WorkerManager τ} {error : IpcError}
    (spared : Spared manager) (isTurn : manager.turn = some turn)
    (frame : Frame manager next added) (records : Records manager turn added)
    (spares : turn.disposition error = .retry → executedIn next.history turn.request.id = false) :
    Spared (next.handle turn error) := by
  obtain ⟨history, -⟩ := spared.after isTurn frame records
  have drawn : turn.request.id < next.nextId :=
    frame.nextId ▸ spared.drawn turn isTurn
  have terminated : SparedHistory next.terminateWorker :=
    ⟨history.never, history.once, history.known⟩
  have ends := terminated.finishTurn drawn none
  unfold WorkerManager.handle
  cases disposed : turn.disposition error with
  | timedOut | noReplay | giveUp => exact ends
  | retry =>
    have unsent := spares disposed
    exact {
      never := history.never
      once := history.once
      known := history.known
      drawn := by
        intro retried isRetried
        cases isRetried
        exact drawn
      unsent := by
        intro retried isRetried _
        cases isRetried
        exact unsent
      current := by
        intro retried isRetried attempt member
        cases isRetried
        exact absurd member (executedIn_eq_false.mp unsent attempt) }
  | escape =>
    have raised : SparedHistory ({ next with turn := none }.log (.raised turn.request.id)) :=
      SparedHistory.log ⟨history.never, history.once, history.known⟩ drawn
        nofun nofun
    exact raised.idle rfl

/-- **Step.** A step that replays no work keeps every request spared. -/
theorem Spared.step {program : WorkerProgram τ α}
    {manager next : WorkerManager τ} {action : ManagerAction α}
    (spared : Spared manager) (allowed : manager.replaysWork action = false)
    (taken : manager.step program action = some next) : Spared next := by
  cases action with
  | execute allowHeartbeat =>
    rw [WorkerManager.step] at taken
    split at taken
    · cases taken
    · cases taken
      rw [execute]
      split <;> exact spared.toSparedHistory.beginTurn _ _
  | worker action =>
    rw [WorkerManager.step] at taken
    split at taken
    · cases taken
    · split_ifs at taken
      obtain ⟨proc, _, rfl⟩ := Option.map_eq_some_iff.mp taken
      exact ⟨⟨spared.never, spared.once, spared.known⟩, spared.drawn, spared.unsent, spared.current⟩
  | host outcome =>
    rw [WorkerManager.step] at taken
    split at taken
    · cases taken
    · rename_i turn isTurn
      obtain ⟨progress, advanced, rfl⟩ := Option.map_eq_some_iff.mp taken
      cases advance_cases advanced with
      | @goOn next stage added frame records _ later writes =>
        obtain ⟨history, current⟩ := spared.after isTurn frame records
        exact {
          never := history.never
          once := history.once
          known := history.known
          drawn := by
            intro moved isMoved
            cases isMoved
            exact frame.nextId ▸ spared.drawn turn isTurn
          unsent := by
            intro moved isMoved early
            cases isMoved
            have starts := writes (early.resolve_left later)
            cases records with
            | nothing =>
              have same : next.history = manager.history :=
                frame.history.trans (append_nil _)
              have unsent := spared.unsent turn isTurn (Or.inl starts)
              exact same ▸ unsent
            | sent writes => cases starts.symm.trans writes
            | executed response dispatches => cases starts.symm.trans dispatches
          current := by
            intro moved isMoved
            cases isMoved
            exact current }
      | @failed next error added frame records surfaced spares =>
        apply spared.handle isTurn frame records
        intro retried
        rw [replaysWork, isTurn] at allowed
        simp only [surfaced, retried, beq_self_eq_true, Bool.true_and] at allowed
        have untouched := spares retried
        rw [executedIn] at allowed untouched ⊢
        rw [frame.history, any_append, allowed, untouched]
        rfl
      | answered =>
        exact SparedHistory.finishTurn spared.toSparedHistory (spared.drawn turn isTurn) _

/-- **Tool calls are not replayed.** Whatever program the child runs and
whatever fails: in a run without a replayed failure after a tool call, no
request is sent again once a tool has run for it, and the tools of a request
run in one attempt. -/
theorem toolCalls_neverReplayed (program : WorkerProgram τ α)
    {actions : List (ManagerAction α)} {final : WorkerManager τ}
    (run : Reaches (WorkerManager.step program)
      (fun manager action => manager.replaysWork action = false)
      init actions final) :
    NeverReplayed final.history ∧ OneAttempt final.history := by
  have spared := run.invariant Spared
    (fun _ _ _ holds allowed taken => holds.step allowed taken) spared_init
  exact ⟨spared.never, spared.once⟩

def toolRun : List HarnessedAction :=
  openingRun ++ .worker (.call (.tool true) 7) :: ManagerAction.goesOn 3

theorem toolCalls_neverReplayed_toolRun : ∃ final, Reaches (WorkerManager.step harness)
        (fun manager action => manager.replaysWork action = false)
        init toolRun final ∧
      NeverReplayed final.history ∧ OneAttempt final.history := by
  have run : Reaches (WorkerManager.step harness)
      (fun manager action => manager.replaysWork action = false) init toolRun
      ((follow (WorkerManager.step harness)
        (fun manager action => manager.replaysWork action = false)
        init toolRun).getD init) :=
    Reaches.of_follow (by decide +kernel)
  exact ⟨_, run, toolCalls_neverReplayed harness run⟩

/-- The child dies after its tool call: the write of the answer breaks, and the
next attempt sends the request and runs the tool again. -/
def replayedRun : List HarnessedAction :=
  openingRun ++ .worker (.call (.tool true) 7) :: ManagerAction.goesOn 2 ++
    [.worker .die, .host (.raised .brokenPipe false)] ++
    ManagerAction.goesOn 3 ++
    [.worker .read, .worker (.call (.tool true) 8)] ++ ManagerAction.goesOn 2

theorem not_neverReplayed_deadChild : ¬ ∀ (actions : List HarnessedAction)
      (final : WorkerManager WorkerTask),
      Reaches (WorkerManager.step harness) (fun _ _ => True) init actions final →
        NeverReplayed final.history := by
  intro every
  have run : Reaches (WorkerManager.step harness) (fun _ _ => True) init
      replayedRun ((follow (WorkerManager.step harness) (fun _ _ => True)
        init replayedRun).getD init) :=
    Reaches.of_follow (by decide +kernel)
  have never := every replayedRun _ run
  refine never [.sent 0 0, .returned 0 (some 0), .sent 1 0] 1 0
    [.sent 1 1, .executed 1 1] ?_ 1 mem_cons_self
  decide +kernel

end WorkerManager

end WriterAgent.Scripting
