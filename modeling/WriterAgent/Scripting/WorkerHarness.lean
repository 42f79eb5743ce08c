import WriterAgent.Foundations.Runs

/-!
# The worker manager

`plugin/scripting/venv_worker.py`: `PythonWorkerManager` sends a request to its
child process and reads frames until the final response, running tools for the
child on the way.  The manager takes one primitive operation of
`_execute_ipc_unlocked` after another; how each of them ends is up to the
environment, and what the child does is a program of its own.
-/

namespace WriterAgent.Scripting

/-- `frame_type` in a frame of the child. -/
inductive FrameType where
  | heartbeat
  | result
  | other
  deriving DecidableEq, Repr

/-- `type` in a frame of the child. -/
inductive FrameKind where
  | toolCall
  | workerEvent
  | llmRequest
  | other
  deriving DecidableEq, Repr

inductive ResponseStatus where
  | ok
  | error
  | other
  deriving DecidableEq, Repr

/-- What the host reads of a dict that the child has written; `toolNamed` holds
when `tool` is a `str`. -/
structure WorkerFrame where
  frameType : Option FrameType
  kind : Option FrameKind
  status : Option ResponseStatus
  toolNamed : Bool
  id : ℕ
  deriving DecidableEq, Repr

/-- What steers the loop in the dict of `_build_request`. -/
structure WorkerRequest where
  id : ℕ
  allowHeartbeat : Bool
  deriving DecidableEq, Repr

/-- What the host writes to the child: a request, or its answer to a
`tool_call` or an `llm_request`. -/
inductive HostFrame where
  | request (request : WorkerRequest)
  | answer (id : ℕ)
  deriving DecidableEq, Repr

/-- The child with its pipes; a payload on `stdout` that is not a dict is
`none`. -/
structure WorkerProcess (τ : Type) where
  alive : Bool
  task : τ
  stdin : List HostFrame
  stdout : List (Option WorkerFrame)
  deriving DecidableEq, Repr

/-- A program for the child: the state it starts in and what each of its
actions does to it and its pipes. -/
structure WorkerProgram (τ α : Type) where
  fresh : τ
  step : WorkerProcess τ → α → Option (WorkerProcess τ)

def WorkerProgram.spawn {τ α : Type} (program : WorkerProgram τ α) : WorkerProcess τ :=
  ⟨true, program.fresh, [], []⟩

/-- Exceptions as the handlers of the loop tell them apart: `other` is every
further subclass of `Exception`, `exit` a `BaseException` outside of it. -/
inductive IpcError where
  | brokenPipe
  | value
  | runtime
  | timeoutExpired
  | os
  | nonReplayableWriteTimeout
  | other
  | exit
  deriving DecidableEq, Repr

/-- The operations of one attempt, in order. -/
inductive Stage where
  | start
  | write
  | resolve
  | read
  | dispatch (response : WorkerFrame)
  | reply (answer : HostFrame)
  | normalize (response : WorkerFrame)
  deriving DecidableEq, Repr

/-- Inside the `try` around the loop that reads. -/
def Stage.reading : Stage → Bool
  | .read | .dispatch _ | .reply _ => true
  | .start | .write | .resolve | .normalize _ => false

/-- One `_execute_ipc_unlocked`.  While the worker is primed, `pending` holds
the `allow_heartbeat` of the request that waits for it. -/
structure IpcTurn where
  request : WorkerRequest
  attempt : ℕ
  stage : Stage
  pending : Option Bool
  deriving DecidableEq, Repr

/-- What the handlers make of an exception. -/
inductive Disposition where
  | timedOut
  | noReplay
  | retry
  | giveUp
  | escape
  deriving DecidableEq, Repr

def IpcTurn.disposition (turn : IpcTurn) (error : IpcError) : Disposition :=
  if turn.stage.reading ∧ error = .timeoutExpired then .timedOut
  else
    match error with
    | .nonReplayableWriteTimeout => .noReplay
    | .brokenPipe | .value | .runtime | .timeoutExpired | .os =>
      if turn.attempt = 1 then .giveUp else .retry
    | .other | .exit => .escape

/-- What has happened, by the id of the request: an attempt has written it, an
attempt has run a tool for it, its call has come back with the id of the
child's response or with an error of the host, or an exception has left it. -/
inductive IpcEvent where
  | sent (call attempt : ℕ)
  | executed (call attempt : ℕ)
  | returned (call : ℕ) (answer : Option ℕ)
  | raised (call : ℕ)
  deriving DecidableEq, Repr

def IpcEvent.call : IpcEvent → ℕ
  | .sent call _ | .executed call _ | .returned call _ | .raised call => call

/-- `uuid.uuid4()` draws the next number. -/
structure WorkerManager (τ : Type) where
  proc : Option (WorkerProcess τ)
  primed : Bool
  turn : Option IpcTurn
  nextId : ℕ
  history : List IpcEvent
  deriving DecidableEq

/-- How the operation of a stage ends.  With `passed` an exception comes after
the bytes have gone through the pipe, or after the tool has run. -/
inductive StageOutcome where
  | done
  | raised (error : IpcError) (passed : Bool)
  deriving DecidableEq, Repr

inductive Progress (τ : Type) where
  | goOn (manager : WorkerManager τ) (stage : Stage)
  | failed (manager : WorkerManager τ) (error : IpcError)
  | answered (manager : WorkerManager τ) (response : WorkerFrame)

namespace WorkerManager

variable {τ α : Type}

def init : WorkerManager τ := ⟨none, false, none, 0, []⟩

def log (manager : WorkerManager τ) (event : IpcEvent) : WorkerManager τ :=
  { manager with history := manager.history ++ [event] }

def isWorkerAlive (manager : WorkerManager τ) : Bool :=
  match manager.proc with
  | some proc => proc.alive
  | none => false

def terminateWorker (manager : WorkerManager τ) : WorkerManager τ :=
  { manager with proc := none, primed := false }

/-- `_ensure_running`, when the process can be started. -/
def ensureRunning (program : WorkerProgram τ α) (manager : WorkerManager τ) : WorkerManager τ :=
  if manager.isWorkerAlive then manager
  else { manager.terminateWorker with proc := some program.spawn }

/-- `_build_request` and the start of the loop over attempts. -/
def beginTurn (manager : WorkerManager τ) (allowHeartbeat : Bool)
    (pending : Option Bool) : WorkerManager τ :=
  { manager with
    turn := some ⟨⟨manager.nextId, allowHeartbeat⟩, 0, .start, pending⟩
    nextId := manager.nextId + 1 }

/-- `execute`: `_ensure_warmed_unlocked` primes a worker that is not. -/
def execute (manager : WorkerManager τ) (allowHeartbeat : Bool) : WorkerManager τ :=
  if manager.primed && manager.isWorkerAlive then
    manager.beginTurn allowHeartbeat none
  else manager.beginTurn false (some allowHeartbeat)

/-- The end of a turn with a response of the child or an error of the host.
After a successful prime the request that waits for it has its turn. -/
def finishTurn (manager : WorkerManager τ) (turn : IpcTurn)
    (response : Option WorkerFrame) : WorkerManager τ :=
  let ended := { manager with turn := none }.log
    (.returned turn.request.id (response.map WorkerFrame.id))
  match turn.pending with
  | none => ended
  | some allowHeartbeat =>
    if response.bind WorkerFrame.status = some .ok then
      { ended with primed := true }.beginTurn allowHeartbeat none
    else ended

def handle (manager : WorkerManager τ) (turn : IpcTurn) (error : IpcError) : WorkerManager τ :=
  match turn.disposition error with
  | .timedOut | .noReplay | .giveUp => manager.terminateWorker.finishTurn turn none
  | .retry =>
    { manager.terminateWorker with
      turn := some { turn with attempt := turn.attempt + 1, stage := .start } }
  | .escape => { manager with turn := none }.log (.raised turn.request.id)

def writeFrame (manager : WorkerManager τ) (frame : HostFrame) : WorkerManager τ :=
  { manager with
    proc := manager.proc.map fun proc =>
      { proc with stdin := proc.stdin ++ [frame] } }

def takeFrame (manager : WorkerManager τ) : Option (Option WorkerFrame × WorkerManager τ) :=
  match manager.proc with
  | none => none
  | some proc =>
    match proc.stdout with
    | [] => none
    | payload :: rest =>
      some (payload, { manager with
        proc := some { proc with stdout := rest } })

def atEnd (manager : WorkerManager τ) : Bool :=
  match manager.proc with
  | none => false
  | some proc => !proc.alive && proc.stdout.isEmpty

/-- `_read_response_with_heartbeats` returns a frame with this content;
heartbeats go to the callback, the rest is skipped. -/
def endsRead (allowHeartbeat : Bool) (frame : WorkerFrame) : Bool :=
  if allowHeartbeat then
    match frame.frameType with
    | some .heartbeat => false
    | some .result | none => true
    | some .other => frame.status == some .ok || frame.status == some .error
  else true

/-- One read of the loop, with `unpack_pickle_frame` and the check that the
response is a dict.  `on_heartbeat` runs inside the read. -/
def readResponse (manager : WorkerManager τ) (turn : IpcTurn) : StageOutcome → Option (Progress τ)
  | .done =>
    match manager.takeFrame with
    | none => if manager.atEnd then some (.failed manager .runtime) else none
    | some (none, rest) => some (.failed rest .runtime)
    | some (some frame, rest) =>
      if endsRead turn.request.allowHeartbeat frame then
        some (.goOn rest (.dispatch frame))
      else some (.goOn rest .read)
  | .raised error false => some (.failed manager error)
  | .raised error true =>
    match manager.takeFrame with
    | none => none
    | some (_, rest) => some (.failed rest error)

/-- `_maybe_dispatch_intermediate_response` up to its write.  `execute_tool`
turns every `Exception` into an answer; `on_worker_event` and the code around
`handle_llm_request` do not. -/
def dispatch (manager : WorkerManager τ) (turn : IpcTurn)
    (response : WorkerFrame) (outcome : StageOutcome) :
    Option (Progress τ) :=
  let executed := manager.log (.executed turn.request.id turn.attempt)
  match response.kind, outcome with
  | some .toolCall, .done =>
    if response.toolNamed then
      some (.goOn executed (.reply (.answer response.id)))
    else some (.failed manager .runtime)
  | some .toolCall, .raised .exit passed =>
    if response.toolNamed then
      some (.failed (if passed then executed else manager) .exit)
    else none
  | some .toolCall, .raised _ _ => none
  | some .workerEvent, .done => some (.goOn manager .read)
  | some .workerEvent, .raised error _ => some (.failed manager error)
  | some .llmRequest, .done => some (.goOn manager (.reply (.answer response.id)))
  | some .llmRequest, .raised error _ => some (.failed manager error)
  | some .other, .done | none, .done => some (.goOn manager (.normalize response))
  | some .other, .raised _ _ | none, .raised _ _ => none

/-- `_stdin_write` turns the timeout of its write into one that is not
replayed. -/
def replyError : IpcError → IpcError
  | .timeoutExpired => .nonReplayableWriteTimeout
  | error => error

def advance (program : WorkerProgram τ α) (manager : WorkerManager τ)
    (turn : IpcTurn) (outcome : StageOutcome) : Option (Progress τ) :=
  let sent := (manager.writeFrame (.request turn.request)).log (.sent turn.request.id turn.attempt)
  match turn.stage, outcome with
  | .start, .done => some (.goOn (manager.ensureRunning program) .write)
  | .start, .raised error _ => some (.failed manager error)
  | .write, .done => some (.goOn sent .resolve)
  | .write, .raised error passed => some (.failed (if passed then sent else manager) error)
  | .resolve, .done => some (.goOn manager .read)
  | .resolve, .raised error _ => some (.failed manager error)
  | .read, outcome => manager.readResponse turn outcome
  | .dispatch response, outcome => manager.dispatch turn response outcome
  | .reply answer, .done => some (.goOn (manager.writeFrame answer) .read)
  | .reply answer, .raised error passed =>
    some (.failed (if passed then manager.writeFrame answer else manager) (replyError error))
  | .normalize response, .done => some (.answered manager response)
  | .normalize _, .raised error _ => some (.failed manager error)

def settle (turn : IpcTurn) : Progress τ → WorkerManager τ
  | .goOn manager stage => { manager with turn := some { turn with stage := stage } }
  | .failed manager error => manager.handle turn error
  | .answered manager response => manager.finishTurn turn (some response)

end WorkerManager

/-- A call of `execute`, the end of the operation the manager waits for, or an
action of the child. -/
inductive ManagerAction (α : Type) where
  | execute (allowHeartbeat : Bool)
  | host (outcome : StageOutcome)
  | worker (action : α)
  deriving DecidableEq

namespace WorkerManager

variable {τ α : Type}

/-- `_io_lock` lets one call in at a time. -/
def step (program : WorkerProgram τ α) (manager : WorkerManager τ) :
    ManagerAction α → Option (WorkerManager τ)
  | .execute allowHeartbeat =>
    match manager.turn with
    | some _ => none
    | none => some (manager.execute allowHeartbeat)
  | .host outcome =>
    match manager.turn with
    | none => none
    | some turn => (manager.advance program turn outcome).map (settle turn)
  | .worker action =>
    match manager.proc with
    | none => none
    | some proc =>
      if proc.alive then
        (program.step proc action).map fun next =>
          { manager with proc := some next }
      else none

end WorkerManager

end WriterAgent.Scripting

/-!
## The worker harness

`plugin/scripting/venv/worker_harness.py`: the child reads a request, answers
it with one response frame and reads the next.  While it handles a request it
can write heartbeats and events, and `_rpc_call` writes a frame and reads the
answer of the host from the same pipe as the requests.
-/

namespace WriterAgent.Scripting

/-- What the child is doing: reading a request, handling one, or reading the
answer to a call in it. -/
inductive WorkerTask where
  | idle
  | running (request : WorkerRequest)
  | awaiting (request : WorkerRequest)
  deriving DecidableEq, Repr

/-- The frames that the host answers. -/
inductive RpcKind where
  | tool (named : Bool)
  | llm
  deriving DecidableEq, Repr

/-- What the child does next.  `interrupt` is the time limit of the executor
(`signal.alarm`), which ends the handling of the call but not of the request;
`finish` writes the response, as `write_result_frame` when `tagged`. -/
inductive HarnessAction where
  | read
  | heartbeat
  | event
  | call (kind : RpcKind) (id : ℕ)
  | interrupt
  | finish (status : ResponseStatus) (tagged : Bool)
  | die
  deriving DecidableEq, Repr

/-- `HeartbeatEmitter.emit`. -/
def heartbeatFrame : WorkerFrame :=
  ⟨some .heartbeat, none, none, false, 0⟩

/-- `emit_worker_event`. -/
def eventFrame : WorkerFrame :=
  ⟨none, some .workerEvent, none, false, 0⟩

/-- The frame of `_rpc_call` or `rpc_llm`. -/
def callFrame (kind : RpcKind) (id : ℕ) : WorkerFrame :=
  match kind with
  | .tool named => ⟨none, some .toolCall, none, named, id⟩
  | .llm => ⟨none, some .llmRequest, none, false, id⟩

def responseFrame (status : ResponseStatus) (tagged : Bool) (id : ℕ) :
    WorkerFrame :=
  ⟨if tagged then some .result else none, none, some status, false, id⟩

namespace WorkerProcess

/-- `write_pickle_frame` on `stdout`. -/
def emit (proc : WorkerProcess WorkerTask) (frame : WorkerFrame) : WorkerProcess WorkerTask :=
  { proc with stdout := proc.stdout ++ [some frame] }

/-- The actions of the child.  A frame that is no request reaches
`_handle_request` without code and is answered with an error under its own
id. -/
def harnessStep (proc : WorkerProcess WorkerTask) :
    HarnessAction → Option (WorkerProcess WorkerTask)
  | .read =>
    match proc.task, proc.stdin with
    | .idle, .request request :: rest => some { proc with task := .running request, stdin := rest }
    | .idle, .answer id :: rest =>
      some ({ proc with stdin := rest }.emit (responseFrame .error false id))
    | .awaiting request, _ :: rest => some { proc with task := .running request, stdin := rest }
    | _, _ => none
  | .heartbeat =>
    match proc.task with
    | .running request =>
      if request.allowHeartbeat then some (proc.emit heartbeatFrame)
      else none
    | _ => none
  | .event =>
    match proc.task with
    | .running _ => some (proc.emit eventFrame)
    | _ => none
  | .call kind id =>
    match proc.task with
    | .running request => some { proc.emit (callFrame kind id) with task := .awaiting request }
    | _ => none
  | .interrupt =>
    match proc.task with
    | .awaiting request => some { proc with task := .running request }
    | _ => none
  | .finish status tagged =>
    match proc.task with
    | .running request =>
      some { proc.emit (responseFrame status tagged request.id) with
        task := .idle }
    | _ => none
  | .die => some { proc with alive := false }

end WorkerProcess

/-- `main` of the harness. -/
def harness : WorkerProgram WorkerTask HarnessAction :=
  ⟨.idle, WorkerProcess.harnessStep⟩

abbrev HarnessedAction := ManagerAction HarnessAction

/-- The manager and the child do what they wait for `n` times. -/
def ManagerAction.goesOn {α : Type} (n : ℕ) : List (ManagerAction α) :=
  List.replicate n (.host .done)

/-- A call of `execute` on a manager without a child, with the turn that primes
the child and its own request read by the child. -/
def openingRun : List HarnessedAction :=
  .execute false :: ManagerAction.goesOn 3 ++ [.worker .read, .worker (.finish .ok false)] ++
    ManagerAction.goesOn 6 ++ [.worker .read]

end WriterAgent.Scripting
