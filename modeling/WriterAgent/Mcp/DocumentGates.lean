import WriterAgent.Foundations.Dict
import WriterAgent.Foundations.Runs
import WriterAgent.Foundations.Text

/-!
# Document gates of the MCP server

`plugin/mcp/mcp_protocol.py`: a tool that changes its document runs behind the
gate of the document.  A fast tool runs on the main thread behind
`_tool_semaphore`; a long-running tool runs on the worker thread of its request,
and its body calls the main thread and waits.  The steps of all threads
interleave.
-/

namespace WriterAgent.Mcp

open PyText

/-- What an accessor of `get_runtime_uid` answers. -/
inductive UidAnswer where
  | raises
  | int (value : ℤ)
  | text (value : Text)
  | other
  deriving DecidableEq, Repr

def getRuntimeUid : List UidAnswer → Text
  | [] => []
  | .int value :: _ => (toString value).toList
  | .text value :: rest => if value.isEmpty then getRuntimeUid rest else value
  | _ :: rest => getRuntimeUid rest

def normalizeDocUrl (url : Text) : Text :=
  if url.isEmpty then []
  else
    let stripped := strip url
    if stripped.getLast? = some '/' ∧ 1 < stripped.length then
      stripped.dropLast
    else stripped

/-- A document with the answers of the accessors of its uid; `getURL` may
raise. -/
structure McpDocument where
  runtimeUid : List UidAnswer
  url : Option Text
  deriving DecidableEq, Repr

def activeDocumentSentinel : Text := "__active_document__".toList

def uidKey (uid : Text) : Text := "uid:".toList ++ uid

def urlKey (url : Text) : Text := "url:".toList ++ url

def resolvedDocKey (document : McpDocument) : Option Text :=
  let uid := getRuntimeUid document.runtimeUid
  if !uid.isEmpty then some (uidKey uid)
  else document.url.bind fun url =>
    let normalized := normalizeDocUrl url
    if normalized.isEmpty then none else some (urlKey normalized)

def resolveMcpDocKey (documentUrl : Option Text) (document : Option McpDocument) : Text :=
  match document.bind resolvedDocKey with
  | some key => key
  | none =>
    match documentUrl with
    | some url =>
      if url.isEmpty then activeDocumentSentinel
      else urlKey (normalizeDocUrl url)
    | none => activeDocumentSentinel

/-- What preparation asks of a tool; `requires_document_lock` may raise. -/
structure McpTool where
  requiresDocument : Bool
  requiresDocumentLock : Option Bool
  detectsMutation : Bool
  deriving DecidableEq, Repr

def toolNeedsDocumentMutationGate : Option McpTool → Bool
  | none => true
  | some tool => tool.requiresDocumentLock.getD tool.detectsMutation

inductive PrepareError where
  | unknownTool
  | documentNotFound
  | noDocumentOpen
  deriving DecidableEq, Repr

def PrepareError.code : PrepareError → Text
  | unknownTool => "UNKNOWN_TOOL".toList
  | documentNotFound => "DOCUMENT_NOT_FOUND".toList
  | noDocumentOpen => "NO_DOCUMENT_OPEN".toList

/-- What `_PreparedMcpCall` tells the gate. -/
structure PreparedMcpCall where
  docKey : Text
  needsGate : Bool
  deriving DecidableEq, Repr

/-- `_prepare_mcp_execution`: the registry's tool and the document that the
request resolves to. -/
def prepareMcpExecution (documentUrl : Option Text) (tool : Option McpTool)
    (document : Option McpDocument) : Except PrepareError PreparedMcpCall :=
  match tool with
  | none => .error .unknownTool
  | some found =>
    if document.isNone && (documentUrl.getD []).length ≠ 0 then
      .error .documentNotFound
    else if document.isNone && found.requiresDocument then
      .error .noDocumentOpen
    else .ok
      { docKey := resolveMcpDocKey documentUrl document
        needsGate := toolNeedsDocumentMutationGate tool }

/-- The threads that may hold a gate: the main thread, or the worker of a
request. -/
inductive McpThread where
  | main
  | worker (id : ℕ)
  deriving DecidableEq, Repr

/-- Where a worker is with its request: before the semaphore or before the
first main-thread call, behind the semaphore, waiting for a work item, before
the gate, in the body of a long-running tool, waiting for a work item in it, or
behind the answer. -/
inductive WorkerStage where
  | arriving
  | holdingSemaphore
  | waiting (item : ℕ)
  | acquiring (call : PreparedMcpCall)
  | body (call : PreparedMcpCall)
  | calling (call : PreparedMcpCall) (item : ℕ)
  | answered
  deriving DecidableEq, Repr

structure McpWorker where
  longRunning : Bool
  documentUrl : Option Text
  stage : WorkerStage
  deriving DecidableEq, Repr

/-- What the main thread is to do: `_prepare_mcp_execution`,
`_execute_tool_on_main`, or a call of the body of a long-running tool. -/
inductive MainJob where
  | prepare
  | tool
  | call
  deriving DecidableEq, Repr

/-- A work item of `QueueExecutor`, with the result of a preparation. -/
structure MainItem where
  worker : ℕ
  job : MainJob
  cancelled : Bool
  claimed : Bool
  eventSet : Bool
  prepared : Option (Except PrepareError PreparedMcpCall)
  deriving DecidableEq

/-- Where the main thread is: between work items, at the start of one, before
the gate of a fast tool, blocked by the gate, or in the body of the tool. -/
inductive MainStage where
  | idle
  | started (item : ℕ)
  | atGate (item : ℕ) (call : PreparedMcpCall)
  | waitingGate (item : ℕ) (call : PreparedMcpCall)
  | body (item : ℕ) (call : PreparedMcpCall)
  deriving DecidableEq, Repr

/-- All threads with the queue, the semaphore and `_doc_gates`. -/
structure McpServer where
  workers : List McpWorker
  items : List MainItem
  workQueue : List ℕ
  main : MainStage
  semaphore : ℕ
  docGates : PyDict Text (Option McpThread)
  deriving DecidableEq

/-- The steps of all threads.  A preparation answers with the tool and the
document that it finds. -/
inductive McpAction where
  | request (longRunning : Bool) (documentUrl : Option Text)
  | acquireSemaphore (id : ℕ)
  | semaphoreTimeout (id : ℕ)
  | submit (id : ℕ)
  | timeOut (id : ℕ)
  | wake (id : ℕ)
  | acquireGate (id : ℕ)
  | gateTimeout (id : ℕ)
  | finishBody (id : ℕ)
  | takeItem
  | prepare (tool : Option McpTool) (document : Option McpDocument)
  | runCall
  | mainAcquireGate
  | mainGateFreed
  | mainGateTimeout
  | mainFinishBody
  deriving DecidableEq

namespace McpServer

def init : McpServer := ⟨[], [], [], .idle, 1, .empty⟩

def setStage (server : McpServer) (id : ℕ) (stage : WorkerStage) :
    McpServer :=
  { server with
    workers := server.workers.modify id fun worker => { worker with stage := stage } }

def modifyItem (server : McpServer) (item : ℕ) (f : MainItem → MainItem) :
    McpServer :=
  { server with items := server.items.modify item f }

def eventIsSet (server : McpServer) (item : ℕ) : Bool :=
  (server.items[item]?).any (·.eventSet)

def holder (server : McpServer) (docKey : Text) : Option McpThread :=
  (server.docGates.get? docKey).join

/-- `_document_mutation_gate` before its body; none while the gate is held. -/
def enterGate (server : McpServer) (thread : McpThread)
    (call : PreparedMcpCall) : Option McpServer :=
  if !call.needsGate then some server
  else if (server.holder call.docKey).isSome then none
  else some { server with
    docGates := server.docGates.set call.docKey (some thread) }

/-- `_document_mutation_gate` behind its body. -/
def leaveGate (server : McpServer) (call : PreparedMcpCall) : McpServer :=
  if !call.needsGate then server
  else { server with docGates := server.docGates.set call.docKey none }

/-- `_enqueue_work` by a worker, which then waits. -/
def enqueueWork (server : McpServer) (id : ℕ) (job : MainJob)
    (stage : ℕ → WorkerStage) : McpServer :=
  let item := server.items.length
  { server.setStage id (stage item) with
    items := server.items ++ [⟨id, job, false, false, false, none⟩]
    workQueue := server.workQueue ++ [item] }

def submit (server : McpServer) (id : ℕ) (worker : McpWorker) : Option McpServer :=
  match worker.stage with
  | .arriving =>
    if worker.longRunning then some (server.enqueueWork id .prepare .waiting)
    else none
  | .holdingSemaphore => some (server.enqueueWork id .tool .waiting)
  | .body call => some (server.enqueueWork id .call (.calling call))
  | _ => none

def releaseSemaphore (server : McpServer) (worker : McpWorker) : McpServer :=
  if worker.longRunning then server
  else { server with semaphore := server.semaphore + 1 }

/-- A caller that has waited too long cancels its item unless it is claimed. -/
def giveUp (server : McpServer) (item : ℕ) : McpServer :=
  server.modifyItem item fun work =>
    { work with cancelled := work.cancelled || !work.claimed }

/-- `_wait_for_result` with `TimeoutError`; the body of a tool may go on. -/
def timeOut (server : McpServer) (id : ℕ) (worker : McpWorker) : Option McpServer :=
  match worker.stage with
  | .waiting item =>
    if server.eventIsSet item then none
    else some (((server.giveUp item).setStage id .answered).releaseSemaphore worker)
  | .calling call item =>
    if server.eventIsSet item then none
    else some ((server.giveUp item).setStage id (.body call))
  | _ => none

def afterPrepare (worker : McpWorker) (work : MainItem) : WorkerStage :=
  if worker.longRunning then
    match work.prepared with
    | some (.ok call) => .acquiring call
    | _ => .answered
  else .answered

/-- `_wait_for_result` with a result. -/
def wake (server : McpServer) (id : ℕ) (worker : McpWorker) : Option McpServer :=
  match worker.stage with
  | .waiting item =>
    (server.items[item]?).bind fun work =>
      if work.eventSet then
        some ((server.setStage id (afterPrepare worker work)).releaseSemaphore worker)
      else none
  | .calling call item =>
    if server.eventIsSet item then some (server.setStage id (.body call))
    else none
  | _ => none

def acquireSemaphore (server : McpServer) (id : ℕ) (worker : McpWorker) : Option McpServer :=
  if worker.longRunning = false ∧ worker.stage = .arriving ∧ 0 < server.semaphore then
    some { server.setStage id .holdingSemaphore with
      semaphore := server.semaphore - 1 }
  else none

def semaphoreTimeout (server : McpServer) (id : ℕ) (worker : McpWorker) : Option McpServer :=
  if worker.longRunning = false ∧ worker.stage = .arriving then
    some (server.setStage id .answered)
  else none

def acquireGate (server : McpServer) (id : ℕ) (worker : McpWorker) : Option McpServer :=
  match worker.stage with
  | .acquiring call => (server.enterGate (.worker id) call).map (·.setStage id (.body call))
  | _ => none

def gateTimeout (server : McpServer) (id : ℕ) (worker : McpWorker) : Option McpServer :=
  match worker.stage with
  | .acquiring call => if call.needsGate then some (server.setStage id .answered) else none
  | _ => none

def finishBody (server : McpServer) (id : ℕ) (worker : McpWorker) : Option McpServer :=
  match worker.stage with
  | .body call => some ((server.leaveGate call).setStage id .answered)
  | _ => none

/-- The event of an item is set, and the main thread is free again. -/
def finishItem (server : McpServer) (item : ℕ)
    (prepared : Option (Except PrepareError PreparedMcpCall)) : McpServer :=
  { server.modifyItem item fun work =>
      { work with eventSet := true, prepared := prepared } with
    main := .idle }

/-- `process_queue` up to the function of the item. -/
def takeItem (server : McpServer) : Option McpServer :=
  match server.main, server.workQueue with
  | .idle, item :: rest =>
    (server.items[item]?).map fun work =>
      if work.cancelled then
        { server.modifyItem item fun work => { work with eventSet := true } with
          workQueue := rest }
      else
        { server.modifyItem item fun work => { work with claimed := true } with
          workQueue := rest
          main := .started item }
  | _, _ => none

/-- `_execute_tool_on_main` behind the preparation. -/
def enterTool (server : McpServer) (item : ℕ) : Except PrepareError PreparedMcpCall → McpServer
  | .error _ => server.finishItem item none
  | .ok call =>
    if call.needsGate then { server with main := .atGate item call }
    else { server with main := .body item call }

def prepare (server : McpServer) (tool : Option McpTool)
    (document : Option McpDocument) : Option McpServer :=
  match server.main with
  | .started item =>
    (server.items[item]?).bind fun work =>
      (server.workers[work.worker]?).bind fun worker =>
        let prepared := prepareMcpExecution worker.documentUrl tool document
        match work.job with
        | .prepare => some (server.finishItem item (some prepared))
        | .tool => some (server.enterTool item prepared)
        | .call => none
  | _ => none

def runCall (server : McpServer) : Option McpServer :=
  match server.main with
  | .started item =>
    (server.items[item]?).bind fun work =>
      if work.job = .call then some (server.finishItem item none) else none
  | _ => none

/-- The fast tool comes to its gate, which blocks the main thread when it is
held. -/
def mainAcquireGate (server : McpServer) : Option McpServer :=
  match server.main with
  | .atGate item call =>
    match server.enterGate .main call with
    | some entered => some { entered with main := .body item call }
    | none => some { server with main := .waitingGate item call }
  | _ => none

def mainGateFreed (server : McpServer) : Option McpServer :=
  match server.main with
  | .waitingGate item call => (server.enterGate .main call).map ({ · with main := .body item call })
  | _ => none

def mainGateTimeout (server : McpServer) : Option McpServer :=
  match server.main with
  | .waitingGate item _ => some (server.finishItem item none)
  | _ => none

def mainFinishBody (server : McpServer) : Option McpServer :=
  match server.main with
  | .body item call => some ((server.leaveGate call).finishItem item none)
  | _ => none

def onWorker (server : McpServer) (id : ℕ)
    (f : McpServer → ℕ → McpWorker → Option McpServer) : Option McpServer :=
  (server.workers[id]?).bind (f server id)

def step (server : McpServer) : McpAction → Option McpServer
  | .request longRunning documentUrl => some { server with
      workers := server.workers ++ [⟨longRunning, documentUrl, .arriving⟩] }
  | .acquireSemaphore id => server.onWorker id acquireSemaphore
  | .semaphoreTimeout id => server.onWorker id semaphoreTimeout
  | .submit id => server.onWorker id submit
  | .timeOut id => server.onWorker id timeOut
  | .wake id => server.onWorker id wake
  | .acquireGate id => server.onWorker id acquireGate
  | .gateTimeout id => server.onWorker id gateTimeout
  | .finishBody id => server.onWorker id finishBody
  | .takeItem => server.takeItem
  | .prepare tool document => server.prepare tool document
  | .runCall => server.runCall
  | .mainAcquireGate => server.mainAcquireGate
  | .mainGateFreed => server.mainGateFreed
  | .mainGateTimeout => server.mainGateTimeout
  | .mainFinishBody => server.mainFinishBody

end McpServer

def WorkerStage.call? : WorkerStage → Option PreparedMcpCall
  | .body call => some call
  | .calling call _ => some call
  | _ => none

def MainStage.call? : MainStage → Option PreparedMcpCall
  | .body _ call => some call
  | _ => none

namespace McpServer

def body (server : McpServer) : McpThread → Option PreparedMcpCall
  | .main => server.main.call?
  | .worker id => (server.workers[id]?).bind (·.stage.call?)

/-- No two bodies of gated tools run for one document. -/
def Exclusive (server : McpServer) : Prop :=
  ∀ first second call other, server.body first = some call → server.body second = some other →
      call.needsGate = true → other.needsGate = true → call.docKey = other.docKey → first = second

/-- The worker waits in its body for a work item that the main thread has not
finished. -/
def AwaitsMain (server : McpServer) (id : ℕ) : Prop :=
  ∃ worker, server.workers[id]? = some worker ∧ ∃ call item work,
    worker.stage = .calling call item ∧ server.items[item]? = some work ∧ work.eventSet = false

/-- The main thread is blocked by a gate whose holder waits for it. -/
def Deadlocked (server : McpServer) : Prop :=
  ∃ item call id, server.main = .waitingGate item call ∧
    server.holder call.docKey = some (.worker id) ∧ server.AwaitsMain id

end McpServer

end WriterAgent.Mcp
