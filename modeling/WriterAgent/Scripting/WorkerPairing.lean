import WriterAgent.Scripting.WorkerHarness

/-!
# Requests and responses stay paired

No id links a response to its request: the manager takes what comes next.
-/

namespace WriterAgent.Scripting

open List Option

/-- No request is open: the child has been terminated, or it waits for the next
request with empty pipes. -/
def Settled (proc : Option (WorkerProcess WorkerTask)) : Prop :=
  ∀ p, proc = some p → p.task = .idle ∧ p.stdin = [] ∧ p.stdout = []

/-- The child waits for the answer to a call that the host has read. -/
def Asked (request : WorkerRequest) (proc : Option (WorkerProcess WorkerTask)) : Prop :=
  ∀ p, proc = some p → p.task = .awaiting request ∧ p.stdin = [] ∧ p.stdout = []

/-- The frames that the child writes on the way: they ask for nothing. -/
inductive Passing (request : WorkerRequest) : Option WorkerFrame → Prop where
  | heartbeat (allowed : request.allowHeartbeat = true) : Passing request (some heartbeatFrame)
  | event : Passing request (some eventFrame)

/-- Where the child can be while the host waits for its next frame. -/
inductive OpenTurn (request : WorkerRequest) : WorkerProcess WorkerTask → Prop where
  | unread (alive : Bool) : OpenTurn request ⟨alive, .idle, [.request request], []⟩
  | running (alive : Bool) {passing : List (Option WorkerFrame)}
      (quiet : ∀ payload ∈ passing, Passing request payload) :
      OpenTurn request ⟨alive, .running request, [], passing⟩
  | called (alive : Bool) {passing : List (Option WorkerFrame)}
      (quiet : ∀ payload ∈ passing, Passing request payload)
      (kind : RpcKind) (id : ℕ) :
      OpenTurn request ⟨alive, .awaiting request, [], passing ++ [some (callFrame kind id)]⟩
  | answered (alive : Bool) (id : ℕ) : OpenTurn request ⟨alive, .awaiting request, [.answer id], []⟩
  | finished (alive : Bool) {passing : List (Option WorkerFrame)}
      (quiet : ∀ payload ∈ passing, Passing request payload)
      (status : ResponseStatus) (tagged : Bool) :
      OpenTurn request ⟨alive, .idle, [],
        passing ++ [some (responseFrame status tagged request.id)]⟩

def Open (request : WorkerRequest) (proc : Option (WorkerProcess WorkerTask)) : Prop :=
  ∀ p, proc = some p → OpenTurn request p

/-- A frame read in a turn, with what it leaves behind in the pipes. -/
inductive FrameRead (request : WorkerRequest)
    (proc : Option (WorkerProcess WorkerTask)) : WorkerFrame → Prop where
  | event (left : Open request proc) : FrameRead request proc eventFrame
  | call (kind : RpcKind) (id : ℕ) (left : Asked request proc) :
      FrameRead request proc (callFrame kind id)
  | response (status : ResponseStatus) (tagged : Bool) (left : Settled proc) :
      FrameRead request proc (responseFrame status tagged request.id)

def TurnAligned (proc : Option (WorkerProcess WorkerTask)) (turn : IpcTurn) :
    Prop :=
  match turn.stage with
  | .start | .write => Settled proc
  | .resolve | .read => Open turn.request proc
  | .dispatch response => FrameRead turn.request proc response
  | .reply answer => (∃ id, answer = .answer id) ∧ Asked turn.request proc
  | .normalize response => response.id = turn.request.id ∧ Settled proc

theorem settled_none : Settled none := nofun

theorem settled_spawn : Settled (some harness.spawn) := by
  intro p spawned
  cases spawned
  exact ⟨rfl, rfl, rfl⟩

variable {manager rest : WorkerManager WorkerTask} {turn : IpcTurn}
  {payload : Option WorkerFrame} {outcome : StageOutcome}
  {progress : Progress WorkerTask} {request : WorkerRequest}

section Child

variable {proc next : WorkerProcess WorkerTask} {action : HarnessAction} {request : WorkerRequest}

theorem Settled.harnessStep (settled : Settled (some proc))
    (taken : proc.harnessStep action = some next) : Settled (some next) := by
  obtain ⟨isIdle, noInput, noOutput⟩ := settled proc rfl
  obtain ⟨alive, task, stdin, stdout⟩ := proc
  cases isIdle
  cases noInput
  cases noOutput
  cases action with
  | die =>
    cases taken
    intro p isNext
    cases isNext
    exact ⟨rfl, rfl, rfl⟩
  | read | heartbeat | event | call | interrupt | finish => cases taken

theorem Asked.harnessStep (asked : Asked request (some proc)) (waits : action ≠ .interrupt)
    (taken : proc.harnessStep action = some next) :
    Asked request (some next) := by
  obtain ⟨isAwaiting, noInput, noOutput⟩ := asked proc rfl
  obtain ⟨alive, task, stdin, stdout⟩ := proc
  cases isAwaiting
  cases noInput
  cases noOutput
  cases action with
  | die =>
    cases taken
    intro p isNext
    cases isNext
    exact ⟨rfl, rfl, rfl⟩
  | interrupt => exact absurd rfl waits
  | read | heartbeat | event | call | finish => cases taken

theorem quiet_snoc {passing : List (Option WorkerFrame)} {last : Option WorkerFrame}
    (quiet : ∀ payload ∈ passing, Passing request payload) (lastPasses : Passing request last) :
    ∀ payload ∈ passing ++ [last], Passing request payload := by
  intro payload member
  rcases mem_append.mp member with before | isLast
  · exact quiet payload before
  · rw [mem_singleton] at isLast
    exact isLast ▸ lastPasses

theorem OpenTurn.harnessStep (opened : OpenTurn request proc) (waits : action ≠ .interrupt)
    (taken : proc.harnessStep action = some next) : OpenTurn request next := by
  cases opened with
  | unread alive =>
    cases action with
    | read =>
      cases taken
      exact .running alive nofun
    | die =>
      cases taken
      exact .unread false
    | heartbeat | event | call | interrupt | finish => cases taken
  | running alive quiet =>
    cases action with
    | heartbeat =>
      rw [WorkerProcess.harnessStep] at taken
      dsimp only at taken
      split_ifs at taken with allowed
      cases taken
      exact .running alive (quiet_snoc quiet (.heartbeat allowed))
    | event =>
      cases taken
      exact .running alive (quiet_snoc quiet .event)
    | call kind id =>
      cases taken
      exact .called alive quiet kind id
    | finish status tagged =>
      cases taken
      exact .finished alive quiet status tagged
    | die =>
      cases taken
      exact .running false quiet
    | read | interrupt => cases taken
  | called alive quiet kind id =>
    cases action with
    | die =>
      cases taken
      exact .called false quiet kind id
    | interrupt => exact absurd rfl waits
    | read | heartbeat | event | call | finish => cases taken
  | answered alive id =>
    cases action with
    | read =>
      cases taken
      exact .running alive nofun
    | die =>
      cases taken
      exact .answered false id
    | interrupt => exact absurd rfl waits
    | heartbeat | event | call | finish => cases taken
  | finished alive quiet status tagged =>
    cases action with
    | die =>
      cases taken
      exact .finished false quiet status tagged
    | read | heartbeat | event | call | interrupt | finish => cases taken

end Child

/-- What a read takes from the pipe of an open turn: a frame on the way, a call
or the response. -/
inductive Took (request : WorkerRequest)
    (proc : Option (WorkerProcess WorkerTask)) : Option WorkerFrame → Prop where
  | passing {payload : Option WorkerFrame} (passes : Passing request payload)
      (left : Open request proc) : Took request proc payload
  | call (kind : RpcKind) (id : ℕ) (left : Asked request proc) :
      Took request proc (some (callFrame kind id))
  | response (status : ResponseStatus) (tagged : Bool) (left : Settled proc) :
      Took request proc (some (responseFrame status tagged request.id))

theorem WorkerManager.takeFrame_eq_some (taken : manager.takeFrame = some (payload, rest)) :
    ∃ proc left, manager.proc = some proc ∧ proc.stdout = payload :: left ∧
      rest = { manager with proc := some { proc with stdout := left } } := by
  rw [takeFrame] at taken
  split at taken
  · cases taken
  · rename_i proc isProc
    split at taken
    · cases taken
    · rename_i front left isFront
      cases taken
      exact ⟨proc, left, isProc, isFront, rfl⟩

theorem Open.took (opened : Open request manager.proc)
    (taken : manager.takeFrame = some (payload, rest)) :
    Took request rest.proc payload := by
  obtain ⟨proc, left, isProc, front, rfl⟩ :=
    WorkerManager.takeFrame_eq_some taken
  cases opened proc isProc with
  | unread | answered => cases front
  | running alive quiet =>
    cases front
    refine .passing (quiet payload mem_cons_self) ?_
    intro p isNext
    cases isNext
    exact .running alive fun other member =>
      quiet other (mem_cons_of_mem _ member)
  | @called alive passing quiet kind id =>
    cases passing with
    | nil =>
      cases front
      refine .call kind id ?_
      intro p isNext
      cases isNext
      exact ⟨rfl, rfl, rfl⟩
    | cons first others =>
      cases front
      refine .passing (quiet payload mem_cons_self) ?_
      intro p isNext
      cases isNext
      exact .called alive (fun other member =>
        quiet other (mem_cons_of_mem _ member)) kind id
  | @finished alive passing quiet status tagged =>
    cases passing with
    | nil =>
      cases front
      refine .response status tagged ?_
      intro p isNext
      cases isNext
      exact ⟨rfl, rfl, rfl⟩
    | cons first others =>
      cases front
      refine .passing (quiet payload mem_cons_self) ?_
      intro p isNext
      cases isNext
      exact .finished alive (fun other member =>
        quiet other (mem_cons_of_mem _ member)) status tagged

theorem IpcTurn.disposition_runtime (turn : IpcTurn) : turn.disposition .runtime ≠ .escape := by
  unfold IpcTurn.disposition
  split
  · nofun
  · dsimp only
    split <;> nofun

namespace WorkerManager

def nextIsResponse (manager : WorkerManager WorkerTask) : Bool :=
  match manager.takeFrame with
  | some (some frame, _) => frame.kind.isNone && frame.status.isSome
  | _ => false

/-- After the failed operation the request has gone out and its response has
not been read. -/
def leavesOpen (manager : WorkerManager WorkerTask) (turn : IpcTurn) (passed : Bool) : Bool :=
  match turn.stage with
  | .start | .normalize _ => false
  | .write => passed
  | .read => !(passed && manager.nextIsResponse)
  | .resolve | .dispatch _ | .reply _ => true

/-- No exception leaves the loop in an open turn, and the child waits for the
answers to its calls. -/
def keepsPairing (manager : WorkerManager WorkerTask) : HarnessedAction → Bool
  | .execute _ | .host .done => true
  | .host (.raised error passed) =>
    match manager.turn with
    | none => true
    | some turn => turn.disposition error != .escape || !manager.leavesOpen turn passed
  | .worker action => action != .interrupt

/-- Every response that a call came back with is its own. -/
def OwnResponses (history : List IpcEvent) : Prop :=
  ∀ call answer, .returned call (some answer) ∈ history → answer = call

/-- Between calls no request is open, and every call has come back with the
response to its own request. -/
structure Paired (manager : WorkerManager WorkerTask) : Prop where
  settled : manager.turn = none → Settled manager.proc
  own : OwnResponses manager.history

structure Aligned (manager : WorkerManager WorkerTask) : Prop extends Paired manager where
  busy : ∀ turn, manager.turn = some turn → TurnAligned manager.proc turn

theorem OwnResponses.snoc {history : List IpcEvent} {event : IpcEvent} (own : OwnResponses history)
    (isOwn : ∀ call answer, event = .returned call (some answer) →
      answer = call) : OwnResponses (history ++ [event]) := by
  intro call answer member
  rcases mem_append.mp member with before | last
  · exact own call answer before
  · rw [mem_singleton] at last
    exact isOwn call answer last.symm

theorem aligned_init : Aligned init where
  settled _ := settled_none
  own := nofun
  busy := by rintro _ ⟨⟩

theorem aligned_beginTurn (settled : Settled manager.proc) (own : OwnResponses manager.history)
    (allowHeartbeat : Bool) (pending : Option Bool) :
    Aligned (manager.beginTurn allowHeartbeat pending) where
  settled := nofun
  own := own
  busy turn isTurn := by
    cases isTurn
    exact settled

theorem aligned_idle (idle : manager.turn = none) (settled : Settled manager.proc)
    (own : OwnResponses manager.history) : Aligned manager where
  settled _ := settled
  own := own
  busy _ isTurn := absurd (idle.symm.trans isTurn) nofun

theorem aligned_finishTurn {response : Option WorkerFrame}
    (settled : Settled manager.proc) (own : OwnResponses manager.history)
    (isOwn : ∀ frame, response = some frame → frame.id = turn.request.id) :
    Aligned (manager.finishTurn turn response) := by
  have ownAfter : OwnResponses (manager.history ++
      [.returned turn.request.id (response.map WorkerFrame.id)]) := by
    apply own.snoc
    intro call answer isReturn
    obtain ⟨rfl, isAnswer⟩ := IpcEvent.returned.inj isReturn
    obtain ⟨frame, isFrame, rfl⟩ := map_eq_some_iff.mp isAnswer
    exact isOwn frame isFrame
  unfold finishTurn
  cases turn.pending with
  | none => exact aligned_idle rfl settled ownAfter
  | some allowHeartbeat =>
    dsimp only
    split
    · apply aligned_beginTurn
      · exact settled
      · exact ownAfter
    · exact aligned_idle rfl settled ownAfter

theorem aligned_handle {error : IpcError} (own : OwnResponses manager.history)
    (settled : turn.disposition error = .escape → Settled manager.proc) :
    Aligned (manager.handle turn error) := by
  have ends : Aligned (manager.terminateWorker.finishTurn turn none) :=
    aligned_finishTurn settled_none own nofun
  unfold handle
  cases disposed : turn.disposition error with
  | timedOut | noReplay | giveUp => exact ends
  | retry =>
    exact {
      settled := nofun
      own := own
      busy := by
        intro retried isRetried
        cases isRetried
        exact settled_none }
  | escape => exact aligned_idle rfl (settled disposed) (own.snoc nofun)

/-! ## Steps of the host -/
theorem aligned_goOn {stage : Stage} (own : OwnResponses manager.history)
    (aligned : TurnAligned manager.proc { turn with stage := stage }) :
    Aligned (settle turn (.goOn manager stage)) where
  settled := nofun
  own := own
  busy moved isMoved := by
    cases isMoved
    exact aligned

theorem settled_ensureRunning (settled : Settled manager.proc) :
    Settled (manager.ensureRunning harness).proc := by
  rw [ensureRunning]
  split
  · exact settled
  · exact settled_spawn

theorem open_request (settled : Settled manager.proc) (request : WorkerRequest) :
    Open request (manager.writeFrame (.request request)).proc := by
  intro p written
  obtain ⟨proc, isProc, rfl⟩ := map_eq_some_iff.mp written
  obtain ⟨isIdle, noInput, noOutput⟩ := settled proc isProc
  rw [isIdle, noInput, noOutput]
  exact .unread proc.alive

theorem open_answer (asked : Asked request manager.proc) (id : ℕ) :
    Open request (manager.writeFrame (.answer id)).proc := by
  intro p written
  obtain ⟨proc, isProc, rfl⟩ := map_eq_some_iff.mp written
  obtain ⟨isAwaiting, noInput, noOutput⟩ := asked proc isProc
  rw [isAwaiting, noInput, noOutput]
  exact .answered proc.alive id

theorem takeFrame_history (taken : manager.takeFrame = some (payload, rest)) :
    rest.history = manager.history := by
  obtain ⟨_, _, _, _, rfl⟩ := takeFrame_eq_some taken
  rfl

theorem aligned_read (isTurn : manager.turn = some turn) (reads : turn.stage = .read)
    (own : OwnResponses manager.history) (opened : Open turn.request manager.proc)
    (allowed : manager.keepsPairing (.host outcome) = true)
    (taken : manager.readResponse turn outcome = some progress) :
    Aligned (settle turn progress) := by
  cases outcome with
  | done =>
    have contained := turn.disposition_runtime
    rw [readResponse] at taken
    split at taken
    · split_ifs at taken
      cases taken
      exact aligned_handle own fun escapes => absurd escapes contained
    · rename_i rest found
      cases taken
      exact aligned_handle (takeFrame_history found ▸ own) fun escapes => absurd escapes contained
    · rename_i frame rest found
      have ownAfter := takeFrame_history found ▸ own
      have took := opened.took found
      generalize isPayload : some frame = payload at took
      cases took with
      | passing passes left =>
        cases passes with
        | heartbeat beats =>
          cases isPayload
          rw [if_neg (by simp [endsRead, beats, heartbeatFrame])]
            at taken
          cases taken
          exact aligned_goOn ownAfter left
        | event =>
          cases isPayload
          rw [if_pos (by cases turn.request.allowHeartbeat <;> rfl)]
            at taken
          cases taken
          exact aligned_goOn ownAfter (FrameRead.event left)
      | call kind id left =>
        cases isPayload
        rw [if_pos (by
          cases turn.request.allowHeartbeat <;> cases kind <;> rfl)]
          at taken
        cases taken
        exact aligned_goOn ownAfter (FrameRead.call kind id left)
      | response status tagged left =>
        cases isPayload
        rw [if_pos (by
          cases turn.request.allowHeartbeat <;> cases tagged <;> rfl)]
          at taken
        cases taken
        exact aligned_goOn ownAfter (FrameRead.response status tagged left)
  | raised error passed =>
    simp only [keepsPairing, isTurn, leavesOpen, reads, Bool.or_eq_true,
      bne_iff_ne, Bool.not_not, Bool.and_eq_true] at allowed
    cases passed with
    | false =>
      cases taken
      exact aligned_handle own fun escapes =>
        absurd escapes (allowed.resolve_right nofun)
    | true =>
      rw [readResponse] at taken
      split at taken
      · cases taken
      · rename_i payload rest found
        cases taken
        refine aligned_handle (takeFrame_history found ▸ own) ?_
        intro escapes
        have response := (allowed.resolve_left (· escapes)).2
        rw [nextIsResponse, found] at response
        cases opened.took found with
        | passing passes left =>
          cases passes with
          | heartbeat beats | event => cases response
        | call kind id left => cases kind <;> cases response
        | response status tagged left => exact left

theorem aligned_dispatch {response : WorkerFrame} (isTurn : manager.turn = some turn)
    (dispatches : turn.stage = .dispatch response) (own : OwnResponses manager.history)
    (frame : FrameRead turn.request manager.proc response)
    (allowed : manager.keepsPairing (.host outcome) = true)
    (taken : manager.dispatch turn response outcome = some progress) :
    Aligned (settle turn progress) := by
  have ownAfter : OwnResponses (manager.history ++ [.executed turn.request.id turn.attempt]) :=
    own.snoc nofun
  have contained : ∀ error passed, outcome = .raised error passed →
      turn.disposition error ≠ .escape := by
    intro error passed isRaised
    subst isRaised
    simpa [keepsPairing, isTurn, leavesOpen, dispatches] using allowed
  cases frame with
  | event left =>
    cases outcome with
    | done =>
      cases taken
      exact aligned_goOn own left
    | raised error passed =>
      cases taken
      exact aligned_handle own fun escapes =>
        absurd escapes (contained error passed rfl)
  | call kind id left =>
    cases outcome with
    | done =>
      cases kind with
      | llm =>
        cases taken
        exact aligned_goOn own ⟨⟨id, rfl⟩, left⟩
      | tool named =>
        cases named with
        | true =>
          cases taken
          exact aligned_goOn ownAfter ⟨⟨id, rfl⟩, left⟩
        | false =>
          cases taken
          exact aligned_handle own fun escapes =>
            absurd escapes turn.disposition_runtime
    | raised error passed =>
      have stays := contained error passed rfl
      cases kind with
      | llm =>
        cases taken
        exact aligned_handle own fun escapes => absurd escapes stays
      | tool named =>
        cases error with
        | exit => exact absurd (by simp [IpcTurn.disposition]) stays
        | brokenPipe | value | runtime | timeoutExpired | os
        | nonReplayableWriteTimeout | other => cases taken
  | response status tagged left =>
    cases outcome with
    | done =>
      cases taken
      exact aligned_goOn own ⟨rfl, left⟩
    | raised error passed => cases taken

theorem aligned_host (isTurn : manager.turn = some turn) (aligned : Aligned manager)
    (allowed : manager.keepsPairing (.host outcome) = true)
    (taken : manager.advance harness turn outcome = some progress) :
    Aligned (settle turn progress) := by
  have own := aligned.own
  have pipes := aligned.busy turn isTurn
  obtain ⟨request, attempt, stage, pending⟩ := turn
  have ownSent : OwnResponses (manager.history ++ [.sent request.id attempt]) := own.snoc nofun
  cases stage with
  | start =>
    cases outcome with
    | done =>
      cases taken
      refine aligned_goOn ?_ (settled_ensureRunning pipes)
      rw [ensureRunning]
      split <;> exact own
    | raised error passed =>
      cases taken
      exact aligned_handle own fun _ => pipes
  | write =>
    cases outcome with
    | done =>
      cases taken
      exact aligned_goOn ownSent (open_request pipes request)
    | raised error passed =>
      cases taken
      cases passed with
      | false => exact aligned_handle own fun _ => pipes
      | true =>
        apply aligned_handle ownSent
        intro escapes
        simp [keepsPairing, isTurn, leavesOpen, escapes] at allowed
  | resolve =>
    cases outcome with
    | done =>
      cases taken
      exact aligned_goOn own pipes
    | raised error passed =>
      cases taken
      apply aligned_handle own
      intro escapes
      simp [keepsPairing, isTurn, leavesOpen, escapes] at allowed
  | read => exact aligned_read isTurn rfl own pipes allowed taken
  | dispatch response => exact aligned_dispatch isTurn rfl own pipes allowed taken
  | reply answer =>
    obtain ⟨⟨id, rfl⟩, asked⟩ := pipes
    cases outcome with
    | done =>
      cases taken
      exact aligned_goOn own (open_answer asked id)
    | raised error passed =>
      have stays : IpcTurn.disposition ⟨request, attempt, .reply (.answer id), pending⟩
          (replyError error) ≠ .escape := by
        cases error with
        | timeoutExpired => nofun
        | brokenPipe | value | runtime | os | nonReplayableWriteTimeout
        | other | exit => simpa [keepsPairing, isTurn, leavesOpen, replyError] using allowed
      cases taken
      cases passed with
      | false | true => exact aligned_handle own fun escapes => absurd escapes stays
  | normalize response =>
    obtain ⟨isOwn, settled⟩ := pipes
    cases outcome with
    | done =>
      cases taken
      apply aligned_finishTurn settled own
      intro frame isFrame
      cases isFrame
      exact isOwn
    | raised error passed =>
      cases taken
      exact aligned_handle own fun _ => settled

theorem turnAligned_worker {proc next : WorkerProcess WorkerTask}
    {action : HarnessAction} (aligned : TurnAligned (some proc) turn)
    (waits : action ≠ .interrupt) (taken : proc.harnessStep action = some next) :
    TurnAligned (some next) turn := by
  have opens : ∀ request, Open request (some proc) → Open request (some next) := by
    intro request opened p isNext
    cases isNext
    exact (opened proc rfl).harnessStep waits taken
  unfold TurnAligned at aligned ⊢
  split at aligned
  · exact aligned.harnessStep taken
  · exact aligned.harnessStep taken
  · exact opens _ aligned
  · exact opens _ aligned
  · cases aligned with
    | event left => exact .event (opens _ left)
    | call kind id left => exact .call kind id (left.harnessStep waits taken)
    | response status tagged left => exact .response status tagged (left.harnessStep taken)
  · exact ⟨aligned.1, aligned.2.harnessStep waits taken⟩
  · exact ⟨aligned.1, aligned.2.harnessStep taken⟩

/-- **Step.** A step that keeps the pairing keeps the two streams aligned. -/
theorem Aligned.step {next : WorkerManager WorkerTask} {action : HarnessedAction}
    (aligned : Aligned manager) (allowed : manager.keepsPairing action = true)
    (taken : manager.step harness action = some next) : Aligned next := by
  cases action with
  | execute allowHeartbeat =>
    rw [WorkerManager.step] at taken
    split at taken
    · cases taken
    · rename_i idle
      cases taken
      rw [execute]
      split <;> exact aligned_beginTurn (aligned.settled idle) aligned.own _ _
  | host outcome =>
    rw [WorkerManager.step] at taken
    split at taken
    · cases taken
    · rename_i turn isTurn
      obtain ⟨progress, advanced, rfl⟩ := map_eq_some_iff.mp taken
      exact aligned_host isTurn aligned allowed advanced
  | worker action =>
    rw [WorkerManager.step] at taken
    split at taken
    · cases taken
    · rename_i proc isProc
      split_ifs at taken
      obtain ⟨p, moved, rfl⟩ := map_eq_some_iff.mp taken
      exact {
        settled := fun idle =>
          (isProc ▸ aligned.settled idle).harnessStep moved
        own := aligned.own
        busy := fun turn isTurn =>
          turnAligned_worker (isProc ▸ aligned.busy turn isTurn) (bne_iff_ne.mp allowed) moved }

/-- **Requests and responses stay paired.** In a run in which no exception of
another class leaves the loop while a request is open, and the child waits for
the answers to its calls, no request is open between calls and every response
that a call comes back with is the one to its own request. -/
theorem requests_paired {actions : List HarnessedAction}
    {final : WorkerManager WorkerTask}
    (run : Reaches (WorkerManager.step harness)
      (fun manager action => manager.keepsPairing action = true)
      init actions final) : Paired final :=
  (run.invariant Aligned (fun _ _ _ holds allowed taken => holds.step allowed taken)
    aligned_init).toPaired

/-- A call whose tool call is answered, with the response that follows. -/
def pairedRun : List HarnessedAction :=
  openingRun ++ .worker (.call (.tool true) 7) :: ManagerAction.goesOn 3 ++
    [.worker .read, .worker (.finish .ok false)] ++ ManagerAction.goesOn 3

theorem requests_paired_pairedRun : ∃ final, Reaches (WorkerManager.step harness)
        (fun manager action => manager.keepsPairing action = true)
        init pairedRun final ∧
      Paired final := by
  have run : Reaches (WorkerManager.step harness)
      (fun manager action => manager.keepsPairing action = true) init
      pairedRun ((follow (WorkerManager.step harness)
        (fun manager action => manager.keepsPairing action = true)
        init pairedRun).getD init) :=
    Reaches.of_follow (by decide +kernel)
  exact ⟨_, run, requests_paired run⟩

/-- The result of a tool cannot be pickled: the call raises, the child reads
the next request as the answer and the next call comes back with the response
to the request before it. -/
def unpicklableRun : List HarnessedAction :=
  openingRun ++ .worker (.call (.tool true) 7) :: ManagerAction.goesOn 2 ++
    [.host (.raised .other false), .execute false] ++ ManagerAction.goesOn 3 ++
    [.worker .read, .worker (.finish .ok false)] ++ ManagerAction.goesOn 3

theorem not_paired_unpicklableResult :
    ¬ ∀ (actions : List HarnessedAction) (final : WorkerManager WorkerTask),
      Reaches (WorkerManager.step harness) (fun _ _ => True) init actions final → Paired final := by
  intro every
  have run : Reaches (WorkerManager.step harness) (fun _ _ => True) init
      unpicklableRun ((follow (WorkerManager.step harness) (fun _ _ => True)
        init unpicklableRun).getD init) :=
    Reaches.of_follow (by decide +kernel)
  have own := (every unpicklableRun _ run).own 2 1 (by decide +kernel)
  cases own

end WorkerManager

end WriterAgent.Scripting
