import WriterAgent.Framework.Client.StreamNormalizer

/-!
# Parsers of the providers

`plugin/framework/client/base_provider_shim.py` reads the answers of services
that are compatible with OpenAI, `plugin/framework/client/anthropic_shim.py`
those of Anthropic.  Each reads a chunk of a stream and a whole answer.
-/

namespace WriterAgent.Framework

open PyText

variable {ν : Type}

/-- How Python writes values: `str` and `json.dumps`. -/
structure PyWriters (ν : Type) where
  str : Json ν → Text
  dumps : Json ν → Text

/-- `str(value)`. -/
def PyWriters.text (writers : PyWriters ν) : Json ν → Text
  | .str s => s
  | value => writers.str value

/-- What `parse_response_chunk` returns. -/
structure ParsedChunk (ν : Type) where
  content : Json ν
  finishReason : Json ν
  thinking : Text
  delta : Json.Fields ν

/-- What `parse_sync_response` returns. -/
structure ParsedResponse (ν : Type) where
  content : Json ν
  finishReason : Json ν
  toolCalls : Json ν
  usage : Json ν
  images : Json ν
  message : Json.Fields ν

variable [PyNumber ν]

namespace BaseProviderShim

/-- The first choice, when the choices are a list that starts with a
dictionary. -/
def firstChoice (choices : Json ν) : Json.Fields ν :=
  match choices with
  | .arr (.obj choice :: _) => choice
  | _ => []

def anyFinishReason (finishReason : Json ν) : List (Json ν) → Json ν
  | [] => finishReason
  | .obj choice :: rest =>
    if (Json.get choice "finish_reason").truthy then
      Json.get choice "finish_reason"
    else anyFinishReason finishReason rest
  | _ :: rest => anyFinishReason finishReason rest

def parseResponseChunk (chunk : Json.Fields ν) : Except PyException (ParsedChunk ν) := do
  let choices := Json.getD chunk "choices" (.arr [])
  let choice := firstChoice choices
  let delta := (Json.getD choice "delta" (.obj [])).toFields
  let finishReason := Json.get choice "finish_reason"
  let finishReason :=
    if finishReason.truthy then finishReason
    else (Json.get chunk "finish_reason").orElse (Json.get chunk "done_reason")
  let finishReason ←
    if finishReason.truthy || !choices.truthy then pure finishReason
    else do
      let items ← choices.iterate
      pure (anyFinishReason finishReason items)
  let thinking ← extractThinkingFromDelta chunk
  return {
    content := (Json.get delta "content").orElse (.text "")
    finishReason := finishReason
    thinking := thinking
    delta := delta }

def parseSyncResponse (writers : PyWriters ν) (response : Json.Fields ν) :
    Except PyException (ParsedResponse ν) := do
  let choice := firstChoice (Json.get response "choices")
  let message := ((Json.get choice "message").orElse
    ((Json.get response "message").orElse (.obj []))).toFields
  let message := normalizeDelta message
  let content ← normalizeMessageContent writers.str (Json.get message "content")
  return {
    content := .str (content.getD [])
    finishReason := (Json.get choice "finish_reason").orElse
      ((Json.get response "finish_reason").orElse (Json.get response "done_reason"))
    toolCalls := Json.get message "tool_calls"
    usage := Json.getD response "usage" (.obj [])
    images := (Json.get message "images").orElse (.arr [])
    message := message }

end BaseProviderShim

namespace AnthropicShim

/-- `value.get(key, default)` where the value may be no dictionary. -/
def getAttr (value : Json ν) (key : String) (default : Json ν) : Except PyException (Json ν) :=
  match value with
  | .obj fields => .ok (Json.getD fields key default)
  | _ => .error .attributeError

/-- `fields[key]`. -/
def getItem (fields : Json.Fields ν) (key : String) : Except PyException (Json ν) :=
  match PyDict.lookup key.toList fields with
  | some value => .ok value
  | none => .error .keyError

def textParts : List (Json ν) → Except PyException (List (Json ν))
  | [] => .ok []
  | part :: rest => do
    let type ← getAttr part "type" .null
    let text ← getAttr part "text" (.text "")
    let later ← textParts rest
    return if type.isText "text" then text :: later else later

/-- The tool calls of the `tool_use` blocks. -/
def toolUses (writers : PyWriters ν) : List (Json ν) → Except PyException (List (Json ν))
  | [] => .ok []
  | part :: rest => do
    let type ← getAttr part "type" .null
    if type.isText "tool_use" then
      let id ← getItem part.toFields "id"
      let name ← getItem part.toFields "name"
      let input ← getItem part.toFields "input"
      let later ← toolUses writers rest
      let function := .obj [("name".toList, name), ("arguments".toList, .str (writers.dumps input))]
      return .obj [("id".toList, id), ("type".toList, .text "function"),
        ("function".toList, function)] :: later
    else toolUses writers rest

def parseResponseChunk (writers : PyWriters ν) (chunk : Json.Fields ν) :
    Except PyException (ParsedChunk ν) := do
  let msgType := Json.getD chunk "type" (.text "")
  if msgType.isText "content_block_delta" then
    let delta := Json.getD chunk "delta" (.obj [])
    let type ← getAttr delta "type" .null
    let text ← getAttr delta "text" .null
    return {
      content := if type.isText "text_delta" then text.orElse (.text "")
        else .text ""
      finishReason := .null
      thinking := []
      delta := [] }
  else if msgType.isText "message" then
    let parts ← (Json.getD chunk "content" (.arr [])).iterate
    let texts ← textParts parts
    let content ← joinParts texts
    let toolCalls ← toolUses writers parts
    let delta : Json.Fields ν :=
      [("role".toList, .text "assistant"), ("content".toList, .str content)]
    return {
      content := .str content
      finishReason := Json.get chunk "stop_reason"
      thinking := []
      delta := if toolCalls.isEmpty then delta
        else Json.put delta "tool_calls" (.arr toolCalls) }
  else if msgType.isText "message_delta" then
    let finishReason ← getAttr (Json.getD chunk "delta" (.obj [])) "stop_reason" .null
    return {
      content := .text ""
      finishReason := finishReason
      thinking := []
      delta := [] }
  else
    return {
      content := .text ""
      finishReason := if msgType.isText "message_stop" then .text "stop"
        else .null
      thinking := []
      delta := [] }

def parseSyncResponse (writers : PyWriters ν) (response : Json.Fields ν) :
    Except PyException (ParsedResponse ν) := do
  let parsed ← parseResponseChunk writers response
  return {
    content := parsed.content
    finishReason := parsed.finishReason
    toolCalls := Json.get parsed.delta "tool_calls"
    usage := (Json.get response "usage").orElse (.obj [])
    images := (Json.get parsed.delta "images").orElse (.arr [])
    message := parsed.delta }

end AnthropicShim

/-- The shims with a parser of their own. -/
inductive ProviderShim where
  | base
  | anthropic
  deriving DecidableEq, Repr

namespace ProviderShim

def parseResponseChunk (writers : PyWriters ν) :
    ProviderShim → Json.Fields ν → Except PyException (ParsedChunk ν)
  | .base => BaseProviderShim.parseResponseChunk
  | .anthropic => AnthropicShim.parseResponseChunk writers

def parseSyncResponse (writers : PyWriters ν) :
    ProviderShim → Json.Fields ν → Except PyException (ParsedResponse ν)
  | .base => BaseProviderShim.parseSyncResponse writers
  | .anthropic => AnthropicShim.parseSyncResponse writers

end ProviderShim

end WriterAgent.Framework
