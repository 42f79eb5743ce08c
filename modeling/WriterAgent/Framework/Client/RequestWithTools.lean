import WriterAgent.Framework.Client.StreamingLoop
import WriterAgent.Framework.JsonUtils

/-!
# A request with tools

`request_with_tools` in `plugin/framework/client/llm_client.py` makes a
streaming or a blocking call and assembles the answer.  The two calls have a
loop each and share the last steps.
-/

namespace WriterAgent.Framework

open PyText

variable {ν : Type}

/-- What the call gets from elsewhere: the shim of the provider, the model that
was asked for, and the parser for tool calls that a model writes as text. -/
structure ChatClient (ν : Type) where
  shim : ProviderShim
  requestedModel : Text
  toolCallParser : Option (Text → Option Text × Json ν)
  writers : PyWriters ν
  readers : JsonReaders ν

structure Answer (ν : Type) where
  content : Text
  toolCalls : Json ν
  finishReason : Json ν
  images : Json ν
  usage : Json ν
  model : Text
  reasoning : Json.Fields ν

def callTriples : Json ν → List (Json ν × Json ν × Json ν)
  | .arr calls => calls.map fun call =>
    let function := (Json.get call.toFields "function").toFields
    (Json.get call.toFields "id", Json.get function "name", Json.get function "arguments")
  | _ => []

/-- How a call ends: with an answer, at Stop or otherwise, or with an
exception. -/
inductive CallEnd (ν : Type) where
  | stopped (answer : Answer ν)
  | response (answer : Answer ν)
  | raised (failure : StreamFailure)

/-- A `<|name|>` at the start of a text: its length. -/
def controlToken? : Text → Option ℕ
  | '<' :: '|' :: rest =>
    let name := rest.takeWhile fun c =>
      isAsciiLetter c || isAsciiDigit c || c == '_'
    if name.isEmpty then none
    else
      match rest.drop name.length with
      | '|' :: '>' :: _ => some (name.length + 4)
      | _ => none
  | _ => none

def stripLeakedControlTokens (content : Text) : Text :=
  strip (substitute (fun _ rest => (controlToken? rest).map fun length => (length, []))
    none 0 content)

variable [PyNumber ν]

namespace ChatClient

def parseLeakedCalls (client : ChatClient ν) (answer : Answer ν) : Answer ν :=
  if answer.toolCalls.truthy || answer.content.isEmpty then answer
  else
    match client.toolCallParser with
    | none => answer
    | some parse =>
      let parsed := parse answer.content
      if parsed.2.truthy then
        { answer with
          toolCalls := parsed.2
          content := parsed.1.getD []
          finishReason := .text "tool_calls" }
      else answer

def postProcess (client : ChatClient ν) (answer : Answer ν) : Answer ν :=
  client.parseLeakedCalls { answer with
    finishReason :=
      if answer.finishReason.isText "stop" && answer.toolCalls.truthy then
        .text "tool_calls"
      else answer.finishReason
    content := if answer.content.isEmpty then answer.content
      else stripLeakedControlTokens answer.content }

def streamedAnswer (client : ChatClient ν) (finishReason : Json ν)
    (collected : Collected ν) : Except PyException (Answer ν) := do
  let snapshot := collected.messageSnapshot
  let normalized ← normalizeMessageContent client.writers.str (Json.get snapshot "content")
  let (content, extracted) := stripThinkTags (normalized.getD [])
  let thinkingParts :=
    match collected.thinkingParts, extracted with
    | [], some (c :: thinking) => [c :: thinking]
    | parts, _ => parts
  let reasoning ← streamingReplay thinkingParts.flatten collected.thinkingMeta
  return client.postProcess {
    content := content
    toolCalls := Json.get snapshot "tool_calls"
    finishReason := finishReason
    images := .arr []
    usage := Json.getD snapshot "usage" (.obj [])
    model := client.writers.text ((Json.get snapshot "model").orElse (.str client.requestedModel))
    reasoning := reasoning }

def endStreaming (client : ChatClient ν) : LoopEnd ν → CallEnd ν
  | .stopped collected =>
    match client.streamedAnswer (.text "stop") collected with
    | .ok answer => .stopped answer
    | .error exception => .raised (.unexpected exception)
  | .finished finishReason collected =>
    match client.streamedAnswer finishReason collected with
    | .ok answer => .response answer
    | .error exception => .raised (.unexpected exception)
  | .raised failure => .raised failure

/-- The streaming loop over the attempts: the state in which the last one
began, the last attempt and its end. -/
def runStreamingLoop (client : ChatClient ν) (attempts : List (Attempt (StreamedBody ν))) :
    Option (StreamingLoop ν × Attempt (StreamedBody ν) × LoopEnd ν) :=
  attemptAll (StreamingLoop.tryAttempt client.writers client.shim) .start attempts

/-- `request_with_tools(stream=True)`; without enough attempts the call still
goes on. -/
def requestStreaming (client : ChatClient ν)
    (attempts : List (Attempt (StreamedBody ν))) : Option (CallEnd ν) :=
  (client.runStreamingLoop attempts).map fun run =>
    client.endStreaming run.2.2

inductive BlockingEnd (ν : Type) where
  | stopped
  | finished (result : Json ν)
  | raised (failure : StreamFailure)

/-- The loop goes on or ends as the handler of an HTTP error says. -/
def followBlocking (sendsLeft : ℤ) (failure : StreamFailure) : RetryAction → ℤ ⊕ BlockingEnd ν
  | .retry => .inl sendsLeft
  | .stop => .inr .stopped
  | .raise => .inr (.raised failure)

/-- The handler of `CONNECTION_ERRORS`; it goes on at Stop too, which is seen
before the next attempt. -/
def connectionFailedBlocking (sendsLeft : ℤ) (attempt : Attempt Text) : ℤ ⊕ BlockingEnd ν :=
  match attempt.handleConnectionError (sendsLeft - 1) with
  | .raise => .inr (.raised .connectionError)
  | _ => .inl (sendsLeft - 1)

def tryBlocking (client : ChatClient ν) (sendsLeft : ℤ)
    (attempt : Attempt Text) : ℤ ⊕ BlockingEnd ν :=
  if attempt.stopBefore then .inr .stopped
  else
    match attempt.exchange with
    | .aborted => .inr .stopped
    | .connectionFailed => connectionFailedBlocking sendsLeft attempt
    | .refused status bodyBroken =>
      if bodyBroken then connectionFailedBlocking (sendsLeft - 1) attempt
      else
        followBlocking (sendsLeft - 1) (.httpError status)
          (attempt.retryOrRaiseHttpError status (sendsLeft - 1) false)
    | .answered body => .inr (.finished (safeJsonLoads client.readers body))

/-- `strip_think_tags` of what a shim calls the content. -/
def stripParsedContent (content : Json ν) : Except PyException (Text × Option Text) :=
  if !content.truthy then .ok ([], none)
  else
    match content with
    | .str text => .ok (stripThinkTags text)
    | _ => .error .typeError

def blockingAnswer (client : ChatClient ν) (result : Json ν) : Except PyException (Answer ν) := do
  let fields ←
    match result with
    | .null => .ok []
    | .obj fields => .ok fields
    | _ => .error .attributeError
  let parsed ← client.shim.parseSyncResponse client.writers fields
  let (content, extracted) ← stripParsedContent parsed.content
  let message :=
    match extracted with
    | some (c :: thinking) =>
      if Json.has parsed.message "reasoning" then parsed.message
      else Json.put parsed.message "reasoning" (.str (c :: thinking))
    | _ => parsed.message
  let reasoning ← messageReplay message
  return client.postProcess {
    content := content
    toolCalls := parsed.toolCalls
    finishReason := parsed.finishReason
    images := parsed.images
    usage := parsed.usage
    model := client.writers.text ((Json.get fields "model").orElse (.str client.requestedModel))
    reasoning := reasoning }

def stoppedAnswer (client : ChatClient ν) : Answer ν where
  content := []
  toolCalls := .null
  finishReason := .text "stop"
  images := .arr []
  usage := .obj []
  model := client.requestedModel
  reasoning := []

def endBlocking (client : ChatClient ν) : BlockingEnd ν → CallEnd ν
  | .stopped => .stopped client.stoppedAnswer
  | .finished result =>
    match client.blockingAnswer result with
    | .ok answer => .response answer
    | .error exception => .raised (.unexpected exception)
  | .raised failure => .raised failure

/-- `request_with_tools(stream=False)`. -/
def requestBlocking (client : ChatClient ν) (attempts : List (Attempt Text)) : Option (CallEnd ν) :=
  (attemptAll client.tryBlocking (retryMaxAttempts : ℤ) attempts).map
    fun run => client.endBlocking run.2.2

end ChatClient

end WriterAgent.Framework
