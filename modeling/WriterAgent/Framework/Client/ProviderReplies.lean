import WriterAgent.Framework.Client.StreamingLoop
import WriterAgent.Framework.JsonUtils

/-!
# Replies as the providers send them

An assistant's reply is a text and tool calls.  A provider sends it as one JSON
body or as a stream of events: OpenAI in deltas that cut the texts in any way
and name the model in every chunk, Anthropic block by block.
-/

namespace WriterAgent.Framework

open PyText

variable {ν : Type}

/-- A list field; an empty list may be `null` or left out. -/
def RendersList {α : Type} (renders : α → Json ν → Prop) (items : List α) (json : Json ν) : Prop :=
  items = [] ∧ json = .null ∨ ∃ entries, json = .arr entries ∧ List.Forall₂ renders items entries

structure ToolCall where
  id : Text
  name : Text
  arguments : Text
  deriving DecidableEq, Repr

def ToolCall.Renders (call : ToolCall) (json : Json ν) : Prop :=
  ∃ fields function, json = .obj fields ∧ Json.get fields "id" = .str call.id ∧
    Json.get fields "function" = .obj function ∧
    Json.get function "name" = .str call.name ∧
    RendersText call.arguments (Json.get function "arguments")

/-- A reply, with the model that gave it and the reason it gave for the end. -/
structure ChatReply where
  model : Text
  text : Text
  calls : List ToolCall
  finish : Text
  model_ne_nil : model ≠ []
  finish_mem : finish ∈ ["stop".toList, "tool_calls".toList]

namespace ChatReply

structure Message (reply : ChatReply) (message : Json.Fields ν) : Prop where
  nonempty : message ≠ []
  content : RendersText reply.text (Json.get message "content")
  calls : RendersList ToolCall.Renders reply.calls (Json.get message "tool_calls")
  noReasoning : Json.get message "reasoning_details" = .null

/-- The whole reply in one JSON object. -/
def Body (reply : ChatReply) (fields : Json.Fields ν) : Prop :=
  Json.get fields "model" = .str reply.model ∧ ∃ choice message rest,
      Json.get fields "choices" = .arr (.obj choice :: rest) ∧
      Json.get choice "finish_reason" = .str reply.finish ∧
      Json.get choice "message" = .obj message ∧
      reply.Message message

end ChatReply

/-- A fragment of a tool call.  The first one of a call has the id and the
name, each has some of the arguments. -/
structure Fragment where
  index : ℕ
  head : Option (Text × Text)
  arguments : Text
  deriving DecidableEq, Repr

namespace Fragment

/-- The calls behind a fragment: they open in the order of their indices. -/
def apply (calls : List ToolCall) (fragment : Fragment) : Option (List ToolCall) :=
  match fragment.head with
  | some (id, name) =>
    if fragment.index = calls.length then
      some (calls ++ [⟨id, name, fragment.arguments⟩])
    else none
  | none =>
    calls[fragment.index]?.map fun call =>
      calls.set fragment.index { call with arguments := call.arguments ++ fragment.arguments }

def Renders [PyNumber ν] (fragment : Fragment) (json : Json ν) : Prop :=
  Json.get json.toFields "index" = .num (PyNumber.ofInt fragment.index) ∧
    match fragment.head with
    | some (id, name) => ToolCall.Renders ⟨id, name, fragment.arguments⟩ json
    | none => ∃ fields function, json = .obj fields ∧ Json.get fields "id" = .null ∧
        Json.get fields "function" = .obj function ∧
        Json.get function "name" = .null ∧
        RendersText fragment.arguments (Json.get function "arguments")

end Fragment

/-- What a delta carries: a piece of the text and fragments of different
calls. -/
structure DeltaPart where
  text : Text
  fragments : List Fragment
  distinct : (fragments.map Fragment.index).Nodup

structure DeltaPart.Renders [PyNumber ν] (part : DeltaPart) (delta : Json.Fields ν) : Prop where
  distinct : (delta.map Prod.fst).Nodup
  fields : ∀ field ∈ delta, field.1 ∈ ["role", "content", "tool_calls"].map String.toList ∨
      field.1 ≠ "model".toList ∧ field.2 = .null
  content : RendersText part.text (Json.get delta "content")
  calls : RendersList Fragment.Renders part.fragments (Json.get delta "tool_calls")

/-- A chunk of the stream: one with the usage only, or one with a delta, which
may give the reason of the end. -/
inductive ChunkPart where
  | usage
  | delta (part : DeltaPart) (finishes : Bool)

namespace ChunkPart

def deltaPart? : ChunkPart → Option DeltaPart
  | usage => none
  | delta part _ => some part

def finishes : ChunkPart → Bool
  | usage => false
  | delta _ finishes => finishes

def Renders [PyNumber ν] (reply : ChatReply) : ChunkPart → Json.Fields ν → Prop
  | usage, chunk => Json.getD chunk "choices" (.arr []) = .arr []
  | delta part finishes, chunk =>
    Json.get chunk "model" = .str reply.model ∧ Json.get chunk "finish_reason" = .null ∧
      Json.get chunk "done_reason" = .null ∧
      ∃ choice delta, Json.get chunk "choices" = .arr [.obj choice] ∧
        Json.get choice "finish_reason" = (if finishes then .str reply.finish else .null) ∧
        Json.get choice "delta" = .obj delta ∧
        part.Renders delta

end ChunkPart

/-- The parts together carry the reply. -/
structure ChatReply.Delivered (reply : ChatReply) (parts : List ChunkPart) : Prop where
  text : ((parts.filterMap ChunkPart.deltaPart?).map DeltaPart.text).flatten = reply.text
  calls : ((parts.filterMap ChunkPart.deltaPart?).flatMap
    DeltaPart.fragments).foldlM Fragment.apply [] = some reply.calls
  finishes : ∃ part ∈ parts, part.finishes = true

def chunkEvent (chunk : Json.Fields ν) : StreamEvent ν :=
  ⟨false, .json (.obj chunk)⟩

def doneEvent : StreamEvent ν := ⟨false, .done⟩

/-- The reply as a stream, cut in any way: its chunks, each with what it
carries. -/
def ChatReply.Stream [PyNumber ν] (reply : ChatReply) (events : List (StreamEvent ν)) : Prop :=
  ∃ (chunks : List (ChunkPart × Json.Fields ν)) (ending : List _),
    (∀ chunk ∈ chunks, chunk.1.Renders reply chunk.2) ∧ reply.Delivered (chunks.map Prod.fst) ∧
      (ending = [] ∨ ending = [doneEvent]) ∧
      events = chunks.map (fun chunk => chunkEvent chunk.2) ++ ending

inductive ContentBlock (ν : Type) where
  | text (text : Text)
  | toolUse (id name : Text) (input : Json ν)

structure ClaudeReply (ν : Type) where
  model : Text
  blocks : List (ContentBlock ν)
  stopReason : Text
  model_ne_nil : model ≠ []
  stopReason_mem : stopReason ∈ ["end_turn", "max_tokens", "stop_sequence",
    "tool_use", "pause_turn", "refusal"].map String.toList

namespace ContentBlock

def textOf : ContentBlock ν → Text
  | text piece => piece
  | toolUse _ _ _ => []

def isToolUse : ContentBlock ν → Bool
  | text _ => false
  | toolUse _ _ _ => true

def Renders : ContentBlock ν → Json ν → Prop
  | text piece, json => ∃ fields, json = .obj fields ∧ Json.get fields "type" = .text "text" ∧
      Json.get fields "text" = .str piece
  | toolUse id name input, json => ∃ fields, json = .obj fields ∧
      Json.get fields "type" = .text "tool_use" ∧
      Json.get fields "id" = .str id ∧
      Json.get fields "name" = .str name ∧
      PyDict.lookup "input".toList fields = some input

end ContentBlock

structure EventOf (type : String) (event : Json.Fields ν) : Prop where
  type : Json.get event "type" = .text type
  noChoices : Json.has event "choices" = false

def BlockDelta (deltaType textField : String) (piece : Text) (event : Json.Fields ν) : Prop :=
  EventOf "content_block_delta" event ∧ ∃ delta, Json.get event "delta" = .obj delta ∧
      Json.get delta "type" = .text deltaType ∧
      Json.get delta textField = .str piece

/-- The events of a block: its start, its deltas and its end.  The input of a
tool is cut as JSON text. -/
inductive BlockEvents (readers : JsonReaders ν) : ContentBlock ν → List (Json.Fields ν) → Prop where
  | text {pieces : List Text} {start stop : Json.Fields ν}
      {deltas : List (Json.Fields ν)} :
      EventOf "content_block_start" start →
      List.Forall₂ (BlockDelta "text_delta" "text") pieces deltas →
      EventOf "content_block_stop" stop →
      BlockEvents readers (.text pieces.flatten) (start :: deltas ++ [stop])
  | toolUse {id name : Text} {input : Json ν} {pieces : List Text}
      {start stop block : Json.Fields ν} {deltas : List (Json.Fields ν)} :
      EventOf "content_block_start" start →
      Json.get start "content_block" = .obj block →
      Json.get block "id" = .str id →
      Json.get block "name" = .str name →
      List.Forall₂ (BlockDelta "input_json_delta" "partial_json") pieces deltas →
      readers.loads pieces.flatten = some input →
      EventOf "content_block_stop" stop →
      BlockEvents readers (.toolUse id name input) (start :: deltas ++ [stop])

namespace ClaudeReply

/-- The whole reply in one JSON object. -/
def Body (reply : ClaudeReply ν) (fields : Json.Fields ν) : Prop :=
  Json.get fields "type" = .text "message" ∧ Json.get fields "model" = .str reply.model ∧
    Json.get fields "stop_reason" = .str reply.stopReason ∧
    ∃ parts, Json.get fields "content" = .arr parts ∧
      List.Forall₂ ContentBlock.Renders reply.blocks parts

/-- The reply as a stream, its blocks cut in any way. -/
def Stream (readers : JsonReaders ν) (reply : ClaudeReply ν)
    (events : List (StreamEvent ν)) : Prop :=
  ∃ start message groups delta stop, EventOf "message_start" start ∧
    Json.get start "message" = .obj message ∧
    Json.get message "model" = .str reply.model ∧
    List.Forall₂ (BlockEvents readers) reply.blocks groups ∧
    EventOf "message_delta" delta ∧
    (∃ fields, Json.get delta "delta" = .obj fields ∧
      Json.get fields "stop_reason" = .str reply.stopReason) ∧
    EventOf "message_stop" stop ∧
    events = (start :: groups.flatten ++ [delta, stop]).map chunkEvent

end ClaudeReply

end WriterAgent.Framework
