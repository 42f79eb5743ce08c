import WriterAgent.Foundations.Dict
import WriterAgent.Foundations.Text

/-!
# The tool loop of the chat sidebar

`plugin/chatbot/tool_loop_state.py`: `next_state` answers an event with a
successor state and a list of effects.  A payload comes from a language model
and is any value; where the source would raise on it, there is no answer.
-/

namespace WriterAgent.Chatbot

open PyText

/-- A Python value.  Of an object of another type only its truth value and
its equality with `0` are used. -/
inductive Value where
  | none
  | bool (b : Bool)
  | int (n : ℤ)
  | str (s : Text)
  | list (items : List Value)
  | dict (entries : List (Text × Value))
  | other (truthy isZero : Bool)

namespace Value

abbrev text (s : String) : Value := .str s.toList

def truthy : Value → Bool
  | .none => false
  | .bool b => b
  | .int n => decide (n ≠ 0)
  | .str s => !s.isEmpty
  | .list items => !items.isEmpty
  | .dict entries => !entries.isEmpty
  | .other truthy _ => truthy

/-- `value == 0`. -/
def eqZero : Value → Bool
  | .bool b => !b
  | .int n => decide (n = 0)
  | .other _ isZero => isZero
  | _ => false

def isStr (value : Value) (s : String) : Bool :=
  match value with
  | .str t => decide (t = s.toList)
  | _ => false

end Value

abbrev Fields := List (Text × Value)

/-- `fields.get(key, default)`. -/
def Fields.get (fields : Fields) (key : String) (default : Value) : Value :=
  (PyDict.lookup key.toList fields).getD default

/-- What the transitions take from other modules and from Python's own
formatting.  A function that may raise has an optional result. -/
structure Formatting where
  str : Value → Text
  repr : Value → Text
  safeJsonLoads : Value → Value
  jsonDumps : Value → Option Text
  jsonDumpsIndented : Value → Option Text
  mergeReasoningDetails : List Value → Option (List Value)
  formatResearchCacheResultChat : Fields → Option Text

def lengthText (n : Nat) : Text := (toString n).toList

def emptyModelDebugContentPreviewMax : Nat := 120

def describeEmptyResponseContent (fmt : Formatting) (content : Value) : Text :=
  match content with
  | .none => "None".toList
  | .str [] => "empty".toList
  | value =>
    let content := match value with
      | .str s => s
      | other => fmt.str other
    let head := lengthText content.length ++ " chars: ".toList
    if content.length ≤ emptyModelDebugContentPreviewMax then
      head ++ fmt.repr (.str content)
    else
      head ++ fmt.repr (.str (content.take (emptyModelDebugContentPreviewMax - 3))) ++ "...".toList

def describeEmptyResponseToolCalls : Value → Text
  | .none => "none".toList
  | .list items => lengthText items.length
  | _ => "present".toList

def formatEmptyModelResponseDebug (fmt : Formatting) (roundNum : ℤ) (response : Fields) : Text :=
  let parts := [ "round=".toList ++ fmt.str (.int roundNum),
    "finish_reason=".toList ++ fmt.repr (response.get "finish_reason" .none),
    "content=".toList ++ describeEmptyResponseContent fmt (response.get "content" .none),
    "tool_calls=".toList ++ describeEmptyResponseToolCalls (response.get "tool_calls" .none)]
  let usage := match response.get "usage" .none with
    | .dict (entry :: rest) =>
      match fmt.jsonDumps (.dict (entry :: rest)) with
      | some dumped => ["usage=".toList ++ dumped]
      | none => ["usage=".toList ++ lengthText (rest.length + 1) ++ " entries".toList]
    | _ => []
  let images := match response.get "images" .none with
    | .list (image :: rest) => ["images=".toList ++ lengthText (image :: rest).length]
    | _ => []
  ", ".toList.intercalate (parts ++ usage ++ images)

def delegateGatewayToolNames : List Text :=
  ["delegate_to_specialized_writer_toolset", "delegate_to_specialized_calc_toolset",
    "delegate_to_specialized_draw_toolset"].map String.toList

/-- Membership of a frozen set; a list or a dictionary has no hash. -/
def isDelegateGateway : Value → Option Bool
  | .str name => some (decide (name ∈ delegateGatewayToolNames))
  | .list _ => none
  | .dict _ => none
  | _ => some false

def domainFromDelegateArgs (funcArgs : Fields) : Text :=
  match funcArgs.get "domain" .none with
  | .str domain => if strip domain ≠ [] then strip domain else "?".toList
  | _ => "?".toList

def delegateStatusLabel (funcArgs : Fields) : Text :=
  "delegate (".toList ++ domainFromDelegateArgs funcArgs ++ ")".toList

def oneLine (s : Text) : Text := replaceChar '\r' ' ' (replaceChar '\n' ' ' s)

def delegateTaskChatMax : Nat := 120

def truncateDelegateTask (task : Text) : Text :=
  let line := strip (oneLine task)
  if line.length ≤ delegateTaskChatMax then line
  else line.take (delegateTaskChatMax - 3) ++ "...".toList

def formatDelegateRunningChatLine (fmt : Formatting) (funcArgs : Fields) :
    Text :=
  let domain := domainFromDelegateArgs funcArgs
  let taskPreview := match funcArgs.get "task" .none with
    | .none => []
    | .str task => truncateDelegateTask task
    | other => truncateDelegateTask (fmt.str other)
  if taskPreview ≠ [] then
    "[Running delegate (".toList ++ domain ++ "): ".toList ++ taskPreview ++ "]\n".toList
  else "[Running delegate (".toList ++ domain ++ ")...]\n".toList

def formatDelegateResultChatLine (fmt : Formatting)
    (funcArgs resultData : Fields) : Option Text := do
  let domain := domainFromDelegateArgs funcArgs
  if (resultData.get "status" .none).isStr "error" then
    let errorMsg := resultData.get "message" (.text "Unknown error")
    return "[delegate (".toList ++ domain ++ ") failed: ".toList ++ fmt.str errorMsg ++ "]\n".toList
  let cacheBlock ←
    if domain = "web_research".toList then
      fmt.formatResearchCacheResultChat resultData
    else some []
  return cacheBlock ++ "[delegate (".toList ++ domain ++ "): done]\n".toList

def upsertMemoryChatValueMax : Nat := 400

/-- `plugin/chatbot/memory.py`. -/
def formatUpsertMemoryChatLine (fmt : Formatting) (funcArgs : Fields) : Text :=
  match funcArgs.get "key" .none with
  | .str key =>
    let val := match funcArgs.get "content" (.str []) with
      | .none => []
      | .str s => s
      | other => fmt.str other
    let line := oneLine val
    let line :=
      if line.length > upsertMemoryChatValueMax then
        line.take (upsertMemoryChatValueMax - 3) ++ "...".toList
      else line
    "[Memory update: key ".toList ++ fmt.repr (.str key) ++
      " value ".toList ++ fmt.repr (.str line) ++ "]\n".toList
  | _ => "[Running tool: upsert_memory...]\n".toList

def objectDictOrEmpty : Value → Fields
  | .dict entries => entries
  | _ => []

/-- The name, the arguments and the identifier of a pending tool call. -/
structure ToolCall where
  funcName : Text
  funcArgsStr : Text
  callId : Text
deriving DecidableEq, Repr

def strOr (default : String) : Value → Text
  | .str s => s
  | _ => default.toList

def pendingToolCallFields (tc : Value) : ToolCall :=
  let tcDict := objectDictOrEmpty tc
  let funcData := objectDictOrEmpty (tcDict.get "function" .none)
  { funcName := strOr "unknown" (funcData.get "name" (.text "unknown"))
    funcArgsStr :=
      strOr "\x7b\x7d" (funcData.get "arguments" (.text "\x7b\x7d"))
    callId := strOr "" (tcDict.get "id" (.text "")) }

def formatToolRunningUi (fmt : Formatting) (funcName : Text) (funcArgs : Fields) : Text × Text :=
  if funcName ∈ delegateGatewayToolNames then
    ("Running: ".toList ++ delegateStatusLabel funcArgs, formatDelegateRunningChatLine fmt funcArgs)
  else if funcName = "upsert_memory".toList then
    ("Running: ".toList ++ funcName, formatUpsertMemoryChatLine fmt funcArgs)
  else
    ("Running: ".toList ++ funcName, "[Running tool: ".toList ++ funcName ++ "...]\n".toList)

def formatErrorDetails (fmt : Formatting) (resultData : Fields) : Option Text := do
  let details := objectDictOrEmpty (resultData.get "details" (.dict []))
  if details.isEmpty then return []
  let others := details.filter fun entry => entry.1 ≠ "traceback".toList
  let dumped ←
    if others.isEmpty then some []
    else
      (fmt.jsonDumpsIndented (.dict others)).map fun dumped =>
        "Details: ".toList ++ dumped ++ "\n".toList
  let traceback := match details.get "traceback" .none with
    | .str tb =>
      if strip tb ≠ [] ∧ strip tb ≠ "NoneType: None".toList then
        "Traceback:\n".toList ++ tb ++ "\n".toList
      else []
    | _ => []
  return dumped ++ traceback

def resultNote (resultData : Fields) : Value :=
  resultData.get "message" (resultData.get "status" (.text "done"))

def formatToolResultChatText (fmt : Formatting) (funcName : Value)
    (funcArgs resultData : Fields) : Option Text := do
  let gateway ← isDelegateGateway funcName
  if (resultData.get "status" .none).isStr "error" then
    let errorMsg := resultData.get "message" (.text "Unknown error")
    let summary ←
      if gateway then formatDelegateResultChatLine fmt funcArgs resultData
      else
        some ("[".toList ++ fmt.str funcName ++ " failed: ".toList ++
          fmt.str errorMsg ++ "]\n".toList)
    let details ← formatErrorDetails fmt resultData
    return summary ++ details
  let note := resultNote resultData
  if gateway then formatDelegateResultChatLine fmt funcArgs resultData
  else
    let cacheBlock ←
      if funcName.isStr "web_research" then
        fmt.formatResearchCacheResultChat resultData
      else some []
    return cacheBlock ++ "[".toList ++ fmt.str funcName ++ ": ".toList ++
      fmt.str note ++ "]\n".toList

def isReplacedZeroResult (resultData : Fields) (note : Value) : Bool :=
  (resultData.get "replaced_count" .none).eqZero ||
    match note with
    | .str s => "Replaced 0 occurrence".toList.isPrefixOf (strip s)
    | _ => false

def paramsDisplay (fmt : Formatting) : Value → Option Text
  | .str s => some (if s.length ≤ 800 then s else s.take 800 ++ "...".toList)
  | .list items => if items.length ≤ 800 then some (fmt.str (.list items)) else none
  | .dict entries => if entries.length ≤ 800 then some (fmt.str (.dict entries)) else none
  | _ => none

def preserveReasoningMaxChars : Nat := 32000

/-- `stream_normalizer.py`: the reasoning keys of a response that the next
request repeats. -/
def reasoningReplayFromAssistantResponse (fmt : Formatting) (response : Fields) : Option Fields :=
  let strings : Fields :=
    ["reasoning", "reasoning_content"].filterMap fun key =>
      match response.get key .none with
      | .str (c :: s) => some (key.toList, .str ((c :: s).take preserveReasoningMaxChars))
      | _ => none
  match response.get "reasoning_details" .none with
  | .list (detail :: rest) =>
    (fmt.mergeReasoningDetails (detail :: rest)).map fun merged =>
      [("reasoning_details".toList, .list merged)]
  | _ => some (strings.take 1)

structure ToolLoopState where
  roundNum : ℤ
  pendingTools : List Value
  maxRounds : ℤ
  status : Text
  isStopped : Bool
  docType : Text
  asyncTools : List Text

inductive EventKind where
  | stopRequested
  | streamDone
  | nextTool
  | toolResult
  | finalDone
  | error
deriving DecidableEq, Repr

structure ToolLoopEvent where
  kind : EventKind
  data : Fields

inductive Effect where
  | exitLoop
  | triggerNextTool
  | spawnFinalStream
  | updateDocumentContext
  | spawnLLMWorker (roundNum : ℤ)
  | spawnToolWorker (call : ToolCall) (funcArgs : Fields) (isAsync : Bool)
  | toolLoopUI (kind : String) (text : Text)
  | logAgent (location message : String) (data : Fields) (hypothesisId : String)
  | addMessage (role : String) (content : Value) (toolCalls : Option (List Value)) (callId : Value)
      (reasoningReplay : Option Fields)
  | updateActivityState (action : String) (roundNum : ℤ) (toolName : Text)
  | cleanupAudio

def Effect.assistant (content : Value) (replay : Option Fields) : Effect :=
  .addMessage "assistant" content none .none replay

abbrev Answer := Option (ToolLoopState × List Effect)

def onStopRequested (state : ToolLoopState) : Answer :=
  some ({ state with isStopped := true, status := "Stopped".toList },
    [.assistant (.text "No response.") none, .toolLoopUI "status" "Stopped".toList,
      .toolLoopUI "append" "\n[Stopped by user]\n".toList, .exitLoop])

def finalMessage (fmt : Formatting) (data : Fields) : Option (List Effect) :=
  let content := data.get "content" .none
  if content.truthy then
    (reasoningReplayFromAssistantResponse fmt data).map fun replay =>
      [.assistant content (some replay), .toolLoopUI "append" "\n".toList]
  else some []

def onFinalDone (fmt : Formatting) (state : ToolLoopState) (data : Fields) :
    Answer := do
  let message ← finalMessage fmt data
  return ({ state with status := "Ready".toList },
    message ++ [.toolLoopUI "status" "Ready".toList, .exitLoop])

def onError (state : ToolLoopState) : Answer :=
  some ({ state with status := "Error".toList }, [.exitLoop])

/-- The list of tool calls a response carries, empty for anything else. -/
def responseToolCalls (response : Fields) : List Value :=
  match response.get "tool_calls" .none with
  | .list items => items
  | _ => []

/-- What the sidebar and the session get when a response calls no tool. -/
def closingEffects (fmt : Formatting) (state : ToolLoopState)
    (response : Fields) : Option (List Effect) :=
  let content := response.get "content" .none
  let finishReason := response.get "finish_reason" .none
  if content.truthy then
    (reasoningReplayFromAssistantResponse fmt response).map fun replay =>
      [.toolLoopUI "debug" "Tool loop: Adding assistant message to session".toList,
        .assistant content (some replay), .toolLoopUI "append" "\n".toList]
  else if finishReason.isStr "length" then
    let banner :=
      "[Response truncated -- the model ran out of tokens...]".toList
    some [.toolLoopUI "append" ('\n' :: banner ++ ['\n']), .assistant (.str banner) none]
  else if finishReason.isStr "content_filter" then
    let banner := "[Content filter: response was truncated.]".toList
    some [.toolLoopUI "append" ('\n' :: banner ++ ['\n']), .assistant (.str banner) none]
  else
    let banner :=
      "[No text from model; any tool changes were still applied.]".toList
    let debug := "[Debug: ".toList ++
      formatEmptyModelResponseDebug fmt state.roundNum response ++ "]".toList
    some [.toolLoopUI "append" ('\n' :: banner ++ ['\n']),
      .toolLoopUI "append" ('\n' :: debug ++ ['\n']),
      .assistant (.str (banner ++ '\n' :: debug)) none]

def onStreamDone (fmt : Formatting) (state : ToolLoopState) (data : Fields) :
    Answer :=
  match data.get "response" (.dict []) with
  | .dict entries => do
    let response : Fields := entries
    let hasAudio := data.get "has_audio" (.bool false)
    let toolCalls := responseToolCalls response
    let content := response.get "content" .none
    let cleanup := if hasAudio.truthy then [Effect.cleanupAudio] else []
    let logged := Effect.logAgent "tool_loop.py:tool_round" "Tool loop round response"
      [("round".toList, .int state.roundNum), ("has_tool_calls".toList, .bool !toolCalls.isEmpty),
        ("num_tool_calls".toList, .int toolCalls.length)] "A"
    if toolCalls.isEmpty then
      let closing ← closingEffects fmt state response
      return ({ state with status := "Ready".toList },
        cleanup ++ logged :: .logAgent "tool_loop.py:exit_no_tools" "Exiting loop: no tool_calls"
            [("round".toList, .int state.roundNum)] "A" ::
          closing ++ [.toolLoopUI "status" "Ready".toList, .exitLoop])
    else
      let replay ← reasoningReplayFromAssistantResponse fmt response
      let newline :=
        if content.truthy then [Effect.toolLoopUI "append" "\n".toList]
        else []
      return ({ state with pendingTools := state.pendingTools ++ toolCalls },
        cleanup ++ logged :: .addMessage "assistant" content (some toolCalls) .none (some replay) ::
          newline ++ [.triggerNextTool])
  | _ => none

/-- `safe_json_loads(text) if text else {}`, when the result is a dictionary. -/
def loadedFields (fmt : Formatting) (text : Value) : Fields :=
  if text.truthy then objectDictOrEmpty (fmt.safeJsonLoads text) else []

/-- The round ends: either the model is asked again or the loop closes. -/
def advanceRound (state : ToolLoopState) : ToolLoopState × List Effect :=
  let sending :=
    if state.isStopped then []
    else [Effect.toolLoopUI "status" "Sending results to AI...".toList]
  let newRoundNum := state.roundNum + 1
  if newRoundNum ≥ state.maxRounds then
    ({ state with roundNum := max state.roundNum state.maxRounds },
      sending ++ [.logAgent "tool_loop.py:exit_exhausted" "Exiting loop: exhausted max_tool_rounds"
          [("rounds".toList, .int state.maxRounds)] "A",
        .spawnFinalStream])
  else
    ({ state with roundNum := newRoundNum }, sending ++ [.spawnLLMWorker newRoundNum])

def startTool (fmt : Formatting) (state : ToolLoopState) (call : ToolCall) : List Effect :=
  let funcArgs := loadedFields fmt (.str call.funcArgsStr)
  let (statusText, runLine) := formatToolRunningUi fmt call.funcName funcArgs
  [.toolLoopUI "status" statusText, .toolLoopUI "append" runLine,
    .updateActivityState "tool_execute" state.roundNum call.funcName,
    .logAgent "tool_loop.py:tool_execute" "Executing tool"
      [("tool".toList, .str call.funcName), ("round".toList, .int state.roundNum)] "C,D,E",
    .toolLoopUI "debug" ("Tool call: ".toList ++ call.funcName ++ "(".toList ++
      call.funcArgsStr ++ ")".toList),
    .spawnToolWorker call funcArgs (decide (call.funcName ∈ state.asyncTools))]

def onNextTool (fmt : Formatting) (state : ToolLoopState) : Answer :=
  match state.pendingTools with
  | [] => some (advanceRound state)
  | tool :: rest =>
    if state.isStopped then some (advanceRound state)
    else
      some ({ state with pendingTools := rest }, startTool fmt state (pendingToolCallFields tool))

/-- The arguments of a replacement that replaced nothing, for debugging. -/
def missedReplacement (fmt : Formatting) (funcName funcArgsStr : Value)
    (resultData : Fields) (note : Value) : Option (List Effect) :=
  if funcName.isStr "apply_document_content" && isReplacedZeroResult resultData note then
    (paramsDisplay fmt funcArgsStr).map fun display =>
      [.toolLoopUI "append" ("[Debug: params ".toList ++ display ++ "]\n".toList)]
  else some []

def onToolResult (fmt : Formatting) (state : ToolLoopState) (data : Fields) :
    Answer := do
  let result := data.get "result" (.text "")
  let funcName := data.get "func_name" (.text "")
  let funcArgsStr := data.get "func_args_str" (.text "")
  let callId := data.get "call_id" (.text "")
  let mutatesDocument := data.get "mutates_document" (.bool false)
  let resultData := loadedFields fmt result
  let funcArgs := loadedFields fmt funcArgsStr
  let note :=
    if (resultData.get "status" .none).isStr "error" then
      resultData.get "message" (.text "Unknown error")
    else resultNote resultData
  let chatText ← formatToolResultChatText fmt funcName funcArgs resultData
  let params ← missedReplacement fmt funcName funcArgsStr resultData note
  let isSuccess :=
    (match resultData.get "success" .none with
      | .bool true => true
      | _ => false) ||
    (resultData.get "status" .none).isStr "ok"
  let refreshed :=
    if isSuccess && mutatesDocument.truthy then
      [Effect.updateDocumentContext]
    else []
  return (state, .toolLoopUI "debug" ("Tool result: ".toList ++ fmt.str result) ::
      .toolLoopUI "append" chatText :: params ++
      .addMessage "tool" result none callId none :: refreshed ++
      [.triggerNextTool])

def nextState (fmt : Formatting) (state : ToolLoopState) (event : ToolLoopEvent) : Answer :=
  match event.kind with
  | .stopRequested => onStopRequested state
  | .finalDone => onFinalDone fmt state event.data
  | .error => onError state
  | .streamDone => onStreamDone fmt state event.data
  | .nextTool => onNextTool fmt state
  | .toolResult => onToolResult fmt state event.data

end WriterAgent.Chatbot
