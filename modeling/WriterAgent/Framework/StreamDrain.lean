import WriterAgent.Framework.BatchingStreamQueue

/-!
# The drain loop of the chat

`plugin/framework/async_stream.py`: `run_stream_drain_loop` takes batches from
the stream queue, shows their texts and thoughts, and calls back at the ends.
-/

namespace WriterAgent.Framework

open PyText

inductive StreamQueueKind where
  | chunk
  | thinking
  | status
  | streamDone
  | nextTool
  | toolDone
  | toolThinking
  | approvalRequired
  | finalDone
  | stopped
  | error
  | toolCall
  | toolResult
  deriving DecidableEq, Repr

/-- The data of an item: a text, nothing, or another object, which is seen
through the text it is formatted to. -/
inductive Payload where
  | text (s : Text)
  | none
  | other (body : Text)
  deriving DecidableEq, Repr

def Payload.body : Payload → Text
  | .text s => s
  | .none => []
  | .other body => body

/-- An item of the queue: a tag, which is a member of `StreamQueueKind` or
not, with its arguments; or a tuple without even a tag. -/
inductive QueueItem where
  | tuple (tag : Option StreamQueueKind) (args : List Payload)
  | emptyTuple
  deriving DecidableEq, Repr

def QueueItem.data : QueueItem → Payload
  | .tuple _ (data :: _) => data
  | _ => .none

/-- A call of `apply_chunk_fn`: a marker, a thought, a text or the line of a
tool. -/
inductive Shown where
  | openBlock
  | closeBlock
  | thinking (text : Text)
  | content (text : Text)
  | toolLine (text : Text)
  deriving DecidableEq, Repr

def Shown.args : Shown → Text × Bool
  | .openBlock => ("[Thinking] ".toList, true)
  | .closeBlock => (" /thinking\n".toList, true)
  | .thinking text => (text, true)
  | .content text => (text, false)
  | .toolLine text => (text, false)

/-- The error that `on_error` is told. -/
inductive DrainError where
  | fromItem (data : Payload)
  | badTag
  | handlerFailed
  | drainFailed
  | batchFailed
  deriving DecidableEq, Repr

inductive Callback where
  | streamDone (item : QueueItem)
  | stopped
  | error (error : DrainError)
  | status (data : Payload)
  | approvalRequired (item : QueueItem)
  deriving DecidableEq, Repr

/-- What a callback does: it returns a value that counts as true or not, or
it raises. -/
inductive Reply where
  | value (b : Bool)
  | raises
  deriving DecidableEq, Repr

/-- A call of `apply_chunk_fn` that returned, or a callback with the data
still buffered when it was called. -/
inductive DrainEvent where
  | shown (call : Shown)
  | called (callback : Callback) (buffered : List Payload)
  deriving DecidableEq, Repr

/-- The arguments of the loop.  What the callbacks do may depend on everything
that has happened. -/
structure DrainConfig where
  applyRaises : List DrainEvent → Shown → Bool
  reply : List DrainEvent → Callback → Reply
  showSearchThinking : Bool
  hasStatusFn : Bool
  hasApprovalRequired : Bool

/-- `_DrainState`, with what has happened and the items handed to their
handlers; `crashed` says that an exception has left the loop. -/
structure DrainState where
  events : List DrainEvent
  processed : List QueueItem
  currentContent : List Payload
  currentThinking : List Payload
  thinkingOpen : Bool
  jobDone : Bool
  crashed : Bool
  deriving DecidableEq

def DrainState.init : DrainState := ⟨[], [], [], [], false, false, false⟩

/-- A state, reached normally or by an exception. -/
inductive Outcome where
  | ok (state : DrainState)
  | raised (state : DrainState)
  deriving DecidableEq

namespace Outcome

def state : Outcome → DrainState
  | .ok state => state
  | .raised state => state

def andThen : Outcome → (DrainState → Outcome) → Outcome
  | .ok state, next => next state
  | .raised state, _ => .raised state

end Outcome

/-- `"".join(parts)`, where every part is a text. -/
def joinTexts : List Payload → Option Text
  | [] => some []
  | .text s :: rest => (joinTexts rest).map (s ++ ·)
  | _ :: _ => none

/-- `"\n%s %s\n" % (label, body)`. -/
def formatAgentToolStreamLine (label : String) (data : Payload) : Text :=
  '\n' :: label.toList ++ ' ' :: data.body ++ ['\n']

namespace DrainState

variable (config : DrainConfig)

def applyChunk (call : Shown) (state : DrainState) : Outcome :=
  if config.applyRaises state.events call then .raised state
  else .ok { state with events := state.events ++ [.shown call] }

def closeThinking (state : DrainState) : Outcome :=
  if state.thinkingOpen then
    (state.applyChunk config .closeBlock).andThen fun state =>
      .ok { state with thinkingOpen := false }
  else .ok state

def openThinking (state : DrainState) : Outcome :=
  if state.thinkingOpen then .ok state
  else
    (state.applyChunk config .openBlock).andThen fun state =>
      .ok { state with thinkingOpen := true }

def flushThinking (state : DrainState) : Outcome :=
  if state.currentThinking.isEmpty then .ok state
  else
    (state.openThinking config).andThen fun state =>
      match joinTexts state.currentThinking with
      | some text =>
        (state.applyChunk config (.thinking text)).andThen fun state =>
          .ok { state with currentThinking := [] }
      | none => .raised state

def flushContent (state : DrainState) : Outcome :=
  if state.currentContent.isEmpty then .ok state
  else
    (state.closeThinking config).andThen fun state =>
      match joinTexts state.currentContent with
      | some text =>
        (state.applyChunk config (.content text)).andThen fun state =>
          .ok { state with currentContent := [] }
      | none => .raised state

def flushBuffers (state : DrainState) : Outcome :=
  (state.flushThinking config).andThen (flushContent config)

def flushAndClose (state : DrainState) : Outcome :=
  (state.flushBuffers config).andThen (closeThinking config)

def logCall (callback : Callback) (state : DrainState) : DrainState :=
  { state with
    events := state.events ++ [.called callback (state.currentThinking ++ state.currentContent)] }

def callBack (callback : Callback) (next : Bool → DrainState → DrainState)
    (state : DrainState) : Outcome :=
  match config.reply state.events callback with
  | .value b => .ok (next b (state.logCall callback))
  | .raises => .raised (state.logCall callback)

def setJobDone (state : DrainState) : DrainState :=
  { state with jobDone := true }

def handleChunk (data : Payload) (state : DrainState) : Outcome :=
  (if state.currentThinking.isEmpty then .ok state
    else state.flushBuffers config).andThen fun state =>
      .ok { state with currentContent := state.currentContent ++ [data] }

def handleThinking (data : Payload) (state : DrainState) : Outcome :=
  (if state.currentContent.isEmpty then .ok state
    else state.flushBuffers config).andThen fun state =>
      .ok { state with currentThinking := state.currentThinking ++ [data] }

def handleStatus (data : Payload) (state : DrainState) : Outcome :=
  if config.hasStatusFn then
    state.callBack config (.status data) fun _ state => state
  else .ok state

def handleStreamDoneLike (item : QueueItem) (state : DrainState) : Outcome :=
  (state.flushAndClose config).andThen (callBack config (.streamDone item) fun done state =>
      if done then state.setJobDone else state)

def handleToolThinking (data : Payload) (state : DrainState) : Outcome :=
  if config.showSearchThinking then state.handleThinking config data
  else .ok state

def handleToolLine (label : String) (data : Payload) (state : DrainState) :
    Outcome :=
  (state.flushAndClose config).andThen
    (applyChunk config (.toolLine (formatAgentToolStreamLine label data)))

def handleToolCallLine (data : Payload) (state : DrainState) : Outcome :=
  state.handleToolLine config "[Tool call]" data

def handleToolResultLine (data : Payload) (state : DrainState) : Outcome :=
  state.handleToolLine config "[Tool result]" data

def handleApprovalRequired (item : QueueItem) (state : DrainState) :
    Outcome :=
  (state.flushAndClose config).andThen fun state =>
    if config.hasApprovalRequired then
      .ok (state.callBack config (.approvalRequired item) fun _ state => state).state
    else .ok state

def handleStopped (state : DrainState) : Outcome :=
  (state.flushAndClose config).andThen (callBack config .stopped fun _ state => state.setJobDone)

def handleError (data : Payload) (state : DrainState) : Outcome :=
  (state.flushAndClose config).andThen
    (callBack config (.error (.fromItem data)) fun recovered state =>
      if recovered then state else state.setJobDone)

def dispatch (kind : StreamQueueKind) (item : QueueItem) (state : DrainState) : Outcome :=
  match kind with
  | .chunk => state.handleChunk config item.data
  | .thinking => state.handleThinking config item.data
  | .status => state.handleStatus config item.data
  | .streamDone => state.handleStreamDoneLike config item
  | .toolDone => state.handleStreamDoneLike config item
  | .finalDone => state.handleStreamDoneLike config item
  | .nextTool => state.handleStreamDoneLike config item
  | .toolThinking => state.handleToolThinking config item.data
  | .toolCall => state.handleToolCallLine config item.data
  | .toolResult => state.handleToolResultLine config item.data
  | .approvalRequired => state.handleApprovalRequired config item
  | .stopped => state.handleStopped config
  | .error => state.handleError config item.data

/-- How the loop over a batch goes on after an item: with the next one, past
the break to the trailing flush, past the break without it, or out by an
exception. -/
inductive After where
  | next
  | leave
  | leaveFailed
  | raised
  deriving DecidableEq

def stopInBatch (state : DrainState) : DrainState × After :=
  match (state.flushAndClose config).andThen
      (callBack config .stopped fun _ state => state.setJobDone) with
  | .ok state => (state, .leave)
  | .raised state => (state, .raised)

/-- An item whose tag is no `StreamQueueKind`. -/
def rejectTag (state : DrainState) : Outcome :=
  (state.flushAndClose config).andThen
    (callBack config (.error .badTag) fun _ state => state.setJobDone)

/-- What follows an exception of a handler: flush and close as far as that
goes, and `on_error`. -/
def recover (state : DrainState) : DrainState × After :=
  let state := (state.flushAndClose config).state
  let called := state.logCall (.error .handlerFailed)
  match config.reply state.events (.error .handlerFailed) with
  | .value true => (called, .next)
  | _ => (called.setJobDone, .leaveFailed)

/-- One item of a batch; `stop` is what the stop checker says before it. -/
def processItem (stop : Bool) (item : QueueItem) (state : DrainState) : DrainState × After :=
  if stop then state.stopInBatch config
  else
    match item with
    | .emptyTuple => (state, .raised)
    | .tuple none _ =>
      match state.rejectTag config with
      | .ok state => (state, .leave)
      | .raised state => state.recover config
    | .tuple (some kind) _ =>
      match { state with processed := state.processed ++ [item] }.dispatch config kind item with
      | .ok state => (state, if state.jobDone then .leave else .next)
      | .raised state => state.recover config

def processItems (state : DrainState) : List (Bool × QueueItem) → DrainState × After
  | [] => (state, .leave)
  | (stop, item) :: rest =>
    match state.processItem config stop item with
    | (state, .next) => processItems state rest
    | done => done

def processBatch (items : List (Bool × QueueItem)) (state : DrainState) :
    Outcome :=
  match state.processItems config items with
  | (state, .raised) => .raised state
  | (state, .leaveFailed) => .ok state
  | (state, _) => state.flushBuffers config

/-- A turn of the loop: what the stop checker says at its head, and the batch
that is drained then, which is empty after a timeout; each item of it with
what the stop checker says before it.  The queue may fail. -/
structure Round where
  stop : Bool
  batch : Option (List (Bool × QueueItem))
  deriving DecidableEq

def endLoop : Outcome → DrainState
  | .ok state => state.setJobDone
  | .raised state => { state with crashed := true }

def step (state : DrainState) (round : Round) : DrainState :=
  if state.jobDone || state.crashed then state
  else if round.stop then
    endLoop (state.callBack config .stopped fun _ state => state)
  else
    match round.batch with
    | none =>
      endLoop (state.callBack config (.error .drainFailed) fun _ state => state)
    | some [] => state
    | some items =>
      match state.processBatch config items with
      | .ok state => state
      | .raised state =>
        (state.setJobDone.callBack config (.error .batchFailed) fun _ state => state).state

def run (state : DrainState) (rounds : List Round) : DrainState :=
  rounds.foldl (step config) state

end DrainState

end WriterAgent.Framework
