import WriterAgent.Foundations.Json
import WriterAgent.Foundations.TagModes
import WriterAgent.Foundations.TextScan
import Mathlib.Data.List.Sort

/-!
# Reading and repairing messages

`plugin/framework/client/stream_normalizer.py`: the text of a message, the
thinking in a delta and the reasoning that the next request repeats, and
`<think>` blocks in a whole text.
-/

namespace WriterAgent.Framework

open PyText

variable {ν : Type} [PyNumber ν]

def preserveReasoningMaxChars : ℕ := 32000
/-- `DEAL_MAX_SHAPE_DIM`. -/
def maxShapeDim : ℕ := 256

def thinkingStringFields : List String :=
  ["reasoning_content", "reasoning", "thought", "thinking"]

def thinkingDeltaKeys : List String :=
  thinkingStringFields ++ ["reasoning_details"]

/-- `isinstance(value, str) and value`. -/
def isNonemptyText : Json ν → Bool
  | .str s => !s.isEmpty
  | _ => false

def nonemptyText? (fields : Json.Fields ν) : List String → Option Text
  | [] => none
  | field :: rest =>
    match Json.get fields field with
    | .str (c :: s) => some (c :: s)
    | _ => nonemptyText? fields rest

/-- `"".join(parts)`. -/
def joinParts : List (Json ν) → Except PyException Text
  | [] => .ok []
  | .str s :: rest => do
    let later ← joinParts rest
    return s ++ later
  | _ :: _ => .error .typeError

/-- The readable part of an entry of `reasoning_details`. -/
def detailPart : Json ν → Option (Json ν)
  | .obj item =>
    let itemType := Json.get item "type"
    if itemType.isText "reasoning.text" || itemType.isText "thought" ||
        itemType.isText "reasoning" then
      some ((Json.get item "text").orElse (.text ""))
    else if itemType.isText "reasoning.summary" then
      some ((Json.get item "summary").orElse (.text ""))
    else none
  | _ => none

def thinkingTextFromDelta (delta : Json.Fields ν) : Except PyException Text :=
  match nonemptyText? delta thinkingStringFields with
  | some thinking => .ok thinking
  | none =>
    match Json.get delta "reasoning_details" with
    | .arr items => joinParts (items.filterMap detailPart)
    | _ => .ok []

/-- `choices[0].delta` of a chunk, else the chunk as it is. -/
def normalizeStreamDelta (chunk : Json.Fields ν) : Json.Fields ν :=
  match Json.get chunk "choices" with
  | .arr (.obj first :: _) =>
    match Json.get first "delta" with
    | .obj delta => delta
    | _ => chunk
  | _ => chunk

def extractThinkingFromDelta (chunk : Json.Fields ν) : Except PyException Text :=
  thinkingTextFromDelta (normalizeStreamDelta chunk)

inductive ThinkingSource where
  | reasoningDetails
  | reasoningContent
  | reasoning
  deriving DecidableEq, Repr

structure ThinkingMeta (ν : Type) where
  source : Option ThinkingSource
  format : Json ν
  signature : Json ν
  index : Json ν
  encryptedFragments : List (Json.Fields ν)

def newStreamingThinkingMeta : ThinkingMeta ν where
  source := none
  format := .null
  signature := .null
  index := .num (PyNumber.ofInt 0)
  encryptedFragments := []

def thinkingSource (delta : Json.Fields ν) : Option ThinkingSource :=
  match Json.get delta "reasoning_details" with
  | .arr (_ :: _) => some .reasoningDetails
  | _ =>
    if isNonemptyText (Json.get delta "reasoning_content") then
      some .reasoningContent
    else if ["reasoning", "thought", "thinking"].any fun field =>
        isNonemptyText (Json.get delta field) then
      some .reasoning
    else none

def ThinkingMeta.addDetail (thinkingMeta : ThinkingMeta ν) : Json ν → ThinkingMeta ν
  | .obj item =>
    if (Json.get item "type").isText "reasoning.encrypted" then
      { thinkingMeta with
        source := some .reasoningDetails
        encryptedFragments := thinkingMeta.encryptedFragments ++ [item] }
    else
      { thinkingMeta with
        format := if thinkingMeta.format.isNull then Json.get item "format"
          else thinkingMeta.format
        signature := if (Json.get item "signature").isNull then
            thinkingMeta.signature
          else Json.get item "signature"
        index := if (Json.get item "index").toInt?.isSome then Json.get item "index"
          else thinkingMeta.index }
  | _ => thinkingMeta

def accumulateStreamingThinking (textParts : List Text)
    (thinkingMeta : ThinkingMeta ν) (delta : Json.Fields ν) :
    Except PyException (List Text × ThinkingMeta ν) := do
  let thinkingMeta :=
    { thinkingMeta with source := thinkingMeta.source <|> thinkingSource delta }
  let chunk ← thinkingTextFromDelta delta
  let textParts := if chunk.isEmpty then textParts else textParts ++ [chunk]
  match Json.get delta "reasoning_details" with
  | .arr details => return (textParts, details.foldl .addDetail thinkingMeta)
  | _ => return (textParts, thinkingMeta)

def truncateReasoningString (value : Text) : Text :=
  value.take preserveReasoningMaxChars

/-- Whether two values are one key of a dictionary; lists and dictionaries
cannot be keys. -/
def sameKey (left right : Json ν) : Bool :=
  match left, right with
  | .null, .null => true
  | .str a, .str b => decide (a = b)
  | _, _ =>
    match left.toNumber?, right.toNumber? with
    | some a, some b => !PyNumber.lt a b && !PyNumber.lt b a
    | _, _ => false

def isHashable : Json ν → Bool
  | .arr _ | .obj _ => false
  | _ => true

def detailTextFields : List String := ["text", "summary", "data"]

def mergeDetailText (item dest : Json.Fields ν) (field : String) :
    Except PyException (Json.Fields ν) :=
  match Json.get item field with
  | .str (c :: piece) =>
    match (Json.get dest field).orElse (.text "") with
    | .str before => .ok (Json.put dest field (.str (before ++ c :: piece)))
    | _ => .error .typeError
  | _ => .ok dest

def mergeDetail (item dest : Json.Fields ν) : Except PyException (Json.Fields ν) := do
  let dest ← detailTextFields.foldlM (mergeDetailText item) dest
  let dest := if (Json.get item "signature").isNull then dest
    else Json.put dest "signature" (Json.get item "signature")
  return ["format", "id"].foldl (fun (dest : Json.Fields ν) field =>
      if Json.has item field && (Json.get dest field).isNull then
        Json.put dest field (Json.get item field)
      else dest) dest

/-- The fragments with the key of an item, which are merged with it. -/
def mergeByKey (item : Json.Fields ν) :
    List (Json.Fields ν) → Except PyException (List (Json.Fields ν))
  | [] => .ok [item]
  | dest :: rest =>
    if sameKey (Json.get dest "type") (Json.get item "type") &&
        sameKey (Json.get dest "index") (Json.get item "index") then do
      let dest ← mergeDetail item dest
      return dest :: rest
    else do
      let rest ← mergeByKey item rest
      return dest :: rest

/-- One step of `_merge_reasoning_details`: the merged fragments, and those
without an integer index. -/
def addReasoningDetail (found : List (Json.Fields ν) × List (Json.Fields ν)) :
    Json ν → Except PyException (List (Json.Fields ν) × List (Json.Fields ν))
  | .obj item =>
    if (Json.get item "index").toInt?.isNone then
      .ok (found.1, found.2 ++ [item])
    else if isHashable (Json.get item "type") then do
      let merged ← mergeByKey item found.1
      return (merged, found.2)
    else .error .typeError
  | _ => .ok found

def mergeReasoningDetails (entries : List (Json ν)) :
    Except PyException (List (Json.Fields ν)) := do
  let found ← entries.foldlM addReasoningDetail ([], [])
  return found.1 ++ found.2

/-- `details.sort(key=…)` by the `index`: numbers and texts can be ordered
among themselves. -/
def sortByIndex (details : List (Json.Fields ν)) : Except PyException (List (Json.Fields ν)) :=
  let key (detail : Json.Fields ν) :=
    Json.getD detail "index" (.num (PyNumber.ofInt 0))
  let before (left right : Json ν) : Bool :=
    match left, right with
    | .str a, .str b => decide (a < b)
    | _, _ =>
      match left.toNumber?, right.toNumber? with
      | some a, some b => PyNumber.lt a b
      | _, _ => false
  if details.length ≤ 1 ∨ (details.all fun detail => (key detail).toNumber?.isSome) ∨
      (details.all fun detail => (key detail).toText?.isSome) then
    .ok (details.insertionSort fun left right =>
      before (key right) (key left) = false)
  else .error .typeError

/-- What `_streaming_replay` makes of the thinking collected from a stream. -/
def streamingReplay (text : Text) (thinkingMeta : ThinkingMeta ν) :
    Except PyException (Json.Fields ν) := do
  let text := truncateReasoningString text
  let encrypted := thinkingMeta.encryptedFragments.take maxShapeDim
  let mergedEncrypted ← mergeReasoningDetails (encrypted.map .obj)
  if thinkingMeta.source = some .reasoningDetails ∨ mergedEncrypted ≠ [] then
    let entry : Json.Fields ν :=
      [("type".toList, .text "reasoning.text"), ("text".toList, .str text),
        ("index".toList, thinkingMeta.index)]
    let entry := if thinkingMeta.format.isNull then entry
      else Json.put entry "format" thinkingMeta.format
    let entry := if thinkingMeta.signature.isNull then entry
      else Json.put entry "signature" thinkingMeta.signature
    let details := (if text.isEmpty then [] else [entry]) ++ mergedEncrypted
    if details.isEmpty then return []
    let details ← sortByIndex details
    return [("reasoning_details".toList, .arr (details.map .obj))]
  else if text.isEmpty then return []
  else if thinkingMeta.source = some .reasoningContent then
    return [("reasoning_content".toList, .str text)]
  else return [("reasoning".toList, .str text)]

/-- `extract_reasoning_replay_from_response` of the message of a blocking
call. -/
def messageReplay (message : Json.Fields ν) : Except PyException (Json.Fields ν) :=
  match Json.get message "reasoning_details" with
  | .arr (detail :: details) => do
    let merged ← mergeReasoningDetails (detail :: details)
    return [("reasoning_details".toList, .arr (merged.map .obj))]
  | _ =>
    match Json.get message "reasoning", Json.get message "reasoning_content" with
    | .str (c :: s), _ => .ok [("reasoning".toList, .str (truncateReasoningString (c :: s)))]
    | _, .str (c :: s) =>
      .ok [("reasoning_content".toList, .str (truncateReasoningString (c :: s)))]
    | _, _ => .ok []

def contentPart : Json ν → Option (Json ν)
  | .obj item =>
    if (Json.get item "type").isText "text" || Json.has item "text" then
      some ((Json.get item "text").orElse (.text ""))
    else none
  | _ => none

/-- `_normalize_message_content`; `str` is how Python writes a value that is
no text. -/
def normalizeMessageContent (str : Json ν → Text) : Json ν → Except PyException (Option Text)
  | .null => .ok none
  | .str s => .ok (some s)
  | .arr items =>
    if (items.filterMap contentPart).isEmpty then .ok none
    else do
      let text ← joinParts (items.filterMap contentPart)
      return some text
  | raw => .ok (some (str raw))

def normalizeToolCall : Json ν → Json ν
  | .obj call =>
    let call := if (Json.get call "type").isNull then
        Json.put call "type" (.text "function")
      else call
    match Json.get call "function" with
    | .obj fn =>
      if (Json.get fn "arguments").isNull then
        .obj (Json.put call "function" (.obj (Json.put fn "arguments" (.text ""))))
      else .obj call
    | _ => .obj call
  | other => other

def normalizeRole (delta : Json.Fields ν) : Json.Fields ν :=
  if Json.has delta "role" && (Json.get delta "role").isNull then
    Json.put delta "role" (.text "assistant")
  else delta

def normalizeDelta (delta : Json.Fields ν) : Json.Fields ν :=
  let delta := normalizeRole delta
  match Json.get delta "tool_calls" with
  | .arr calls => Json.put delta "tool_calls" (.arr (calls.map normalizeToolCall))
  | _ => delta

def thinkOpen : Text := "<think>".toList
def thinkClose : Text := "</think>".toList

/-- `<think>(.*?)</think>` at the start of a text: the length of the match
and the text of the group. -/
def thinkBlock? (text : Text) : Option (ℕ × Text) :=
  match stripStart thinkOpen text with
  | none => none
  | some inner =>
    (findText thinkClose inner).map fun close =>
      (thinkOpen.length + close + thinkClose.length, inner.take close)

def joinBlankLine : List Text → Text
  | [] => []
  | [thought] => thought
  | thought :: rest => thought ++ '\n' :: '\n' :: joinBlankLine rest

def stripThinkTags (text : Text) : Text × Option Text :=
  if text.isEmpty then ([], none)
  else
    let blocks := matchesOf (fun _ rest => thinkBlock? rest) none 0 text
    let clean := substitute (fun _ rest => (thinkBlock? rest).map fun found => (found.1, []))
      none 0 text
    let (clean, thoughts) :=
      match findText thinkOpen clean with
      | some start => (clean.take start, blocks ++ [clean.drop (start + thinkOpen.length)])
      | none => (clean, blocks)
    (strip clean,
      if thoughts.isEmpty then none
      else some (joinBlankLine ((thoughts.map strip).filter fun thought => !thought.isEmpty)))

end WriterAgent.Framework
