import WriterAgent.Framework.Client.RequestWithTools
import WriterAgent.Framework.Client.ChatStreams

/-!
# Answers that carry a reply

What a caller sees of an answer, and the answers that the two calls make of a
reply whose parts they have got right.
-/

namespace WriterAgent.Framework

open PyText List

variable {ν : Type}

def loadedCalls (readers : JsonReaders ν) (toolCalls : Json ν) :
    List (Json ν × Json ν × Option (Json ν)) :=
  (callTriples toolCalls).map fun call =>
    (call.1, call.2.1, call.2.2.toText?.bind readers.loads)

variable {json : Json ν} {calls : List ToolCall} {call : ToolCall}
  {delta message : Json.Fields ν} {fragments : List Fragment}
  {left right : Answer ν}

namespace ToolCall

def Written (call : ToolCall) (json : Json ν) : Prop :=
  ∃ fields function, json = .obj fields ∧ Json.get fields "id" = .str call.id ∧
    Json.get fields "function" = .obj function ∧
    Json.get function "name" = .str call.name ∧
    Json.get function "arguments" = .str call.arguments

def triple (call : ToolCall) : Json ν × Json ν × Json ν :=
  (.str call.id, .str call.name, .str call.arguments)

theorem Written.renders (written : call.Written json) : call.Renders json := by
  obtain ⟨fields, function, isFields, id, isFunction, name, arguments⟩ :=
    written
  exact ⟨fields, function, isFields, id, isFunction, name, .inl arguments⟩

theorem Renders.normalize (renders : call.Renders json) :
    call.Written (normalizeToolCall json) := by
  obtain ⟨fields, function, rfl, id, isFunction, name, arguments⟩ := renders
  let typed := if (Json.get fields "type").isNull then
    Json.put fields "type" (.text "function") else fields
  have get_typed {key : String} (other : key ≠ "type") :
      Json.get typed key = Json.get fields key := by
    dsimp only [typed]
    split
    · rw [Json.get_put, if_neg other]
    · rfl
  have isTyped : Json.get typed "function" = .obj function := by
    rw [get_typed (by decide), isFunction]
  rw [normalizeToolCall]
  rw [isTyped]
  dsimp only
  rcases arguments with isText | ⟨empty, isNull⟩
  · rw [isText]
    refine ⟨typed, function, rfl, ?_, isTyped, name, isText⟩
    rw [get_typed (by decide), id]
  · rw [isNull]
    refine ⟨_, Json.put function "arguments" (.text ""), rfl, ?_, ?_, ?_, ?_⟩
    · rw [Json.get_put, if_neg (by decide), get_typed (by decide), id]
    · rw [Json.get_put, if_pos rfl]
    · rw [Json.get_put, if_neg (by decide), name]
    · rw [Json.get_put, empty]
      rfl

end ToolCall

theorem normalizeDelta_written (renders : RendersList ToolCall.Renders calls
      (Json.get delta "tool_calls")) :
    RendersList ToolCall.Written calls (Json.get (normalizeDelta delta) "tool_calls") := by
  rw [← normalizeRole_get delta (show "tool_calls" ≠ "role" by decide)]
    at renders
  rw [normalizeDelta]
  rcases renders with ⟨empty, isNull⟩ | ⟨entries, isList, rendered⟩
  · rw [isNull]
    exact .inl ⟨empty, isNull⟩
  · rw [isList]
    rw [Json.get_put]
    refine .inr ⟨_, rfl, ?_⟩
    rw [forall₂_map_right_iff]
    exact rendered.imp fun _ _ => ToolCall.Renders.normalize

theorem renders_of_written (written : RendersList ToolCall.Written calls json) :
    RendersList ToolCall.Renders calls json := by
  rcases written with empty | ⟨entries, isList, rendered⟩
  · exact .inl empty
  · exact .inr ⟨entries, isList, rendered.imp fun _ _ =>
      ToolCall.Written.renders⟩

theorem withThinking_details (noReasoning : Json.get message "reasoning_details" = .null)
    (extracted : Option Text) :
    Json.get (match extracted with
      | some (c :: thinking) =>
        if Json.has message "reasoning" then message
        else Json.put message "reasoning" (.str (c :: thinking))
      | _ => message) "reasoning_details" = .null := by
  split
  · split
    · exact noReasoning
    · rw [Json.get_put, if_neg (by decide), noReasoning]
  · exact noReasoning

theorem Fragment.opens_of_foldlM {before : List ToolCall}
    (assembled : fragments.foldlM Fragment.apply before = some calls)
    (distinct : (fragments.map Fragment.index).Nodup)
    (unseen : ∀ fragment ∈ fragments, before.length ≤ fragment.index) :
    ∃ opened, calls = before ++ opened ∧ List.Forall₂ (fun fragment call =>
        fragment.head = some (call.id, call.name) ∧
          fragment.arguments = call.arguments) fragments opened := by
  induction fragments generalizing before with
  | nil =>
    have same : before = calls := Option.some.inj assembled
    exact ⟨[], by rw [← same, append_nil], .nil⟩
  | cons fragment rest ih =>
    obtain ⟨next, applied, later⟩ := Option.bind_eq_some_iff.mp assembled
    rw [map_cons, nodup_cons] at distinct
    rw [forall_mem_cons] at unseen
    rw [Fragment.apply] at applied
    split at applied
    · rename_i id name head
      split_ifs at applied with isNext
      cases applied
      obtain ⟨opened, rfl, opens⟩ := ih later distinct.2 (by
        intro other member
        have atLeast := unseen.2 other member
        have apart : other.index ≠ fragment.index := by
          intro same
          exact distinct.1 (same ▸ mem_map_of_mem member)
        rw [length_append, length_singleton]
        omega)
      refine ⟨⟨id, name, fragment.arguments⟩ :: opened, ?_, .cons ⟨head, rfl⟩ opens⟩
      rw [append_assoc]
      rfl
    · obtain ⟨call, found, -⟩ := Option.map_eq_some_iff.mp applied
      obtain ⟨inside, -⟩ := List.getElem?_eq_some_iff.mp found
      exact absurd inside (Nat.not_lt.mpr unseen.1)

variable [PyNumber ν]

theorem Fragment.renders_of_opens {entries : List (Json ν)}
    (opens : List.Forall₂ (fun fragment call =>
      fragment.head = some (call.id, call.name) ∧
        fragment.arguments = call.arguments) fragments calls)
    (rendered : List.Forall₂ Fragment.Renders fragments entries) :
    List.Forall₂ ToolCall.Renders calls entries := by
  induction opens generalizing entries with
  | nil =>
    cases rendered
    exact .nil
  | cons opensCall _ ih =>
    cases rendered with
    | cons isFragment later =>
      refine .cons ?_ (ih later)
      obtain ⟨-, isCall⟩ := isFragment
      rw [opensCall.1, opensCall.2] at isCall
      exact isCall

theorem DeltaPart.Renders.calls_of_foldlM {part : DeltaPart} (renders : part.Renders delta)
    (assembled : part.fragments.foldlM Fragment.apply [] = some calls) :
    RendersList ToolCall.Renders calls (Json.get delta "tool_calls") := by
  obtain ⟨opened, rfl, opens⟩ := Fragment.opens_of_foldlM assembled
    part.distinct fun _ _ => Nat.zero_le _
  rcases renders.calls with ⟨noFragments, isNull⟩ | ⟨entries, isList, rendered⟩
  · rw [noFragments] at opens
    cases opens
    exact .inl ⟨rfl, isNull⟩
  · exact .inr ⟨entries, isList, Fragment.renders_of_opens opens rendered⟩

/-- A value of the field `tool_calls` that holds the calls. -/
structure HoldsCalls (calls : List ToolCall) (json : Json ν) : Prop where
  triples : callTriples json = calls.map ToolCall.triple
  truthy : json.truthy = !calls.isEmpty

theorem holdsCalls_of_written (written : RendersList ToolCall.Written calls json) :
    HoldsCalls calls json := by
  rcases written with ⟨rfl, rfl⟩ | ⟨entries, rfl, rendered⟩
  · exact ⟨rfl, rfl⟩
  · induction rendered with
    | nil => exact ⟨rfl, rfl⟩
    | cons isCall _ ih =>
      obtain ⟨fields, function, rfl, id, isFunction, name, arguments⟩ :=
        isCall
      refine ⟨?_, rfl⟩
      rw [map_cons, ← ih.triples]
      simp only [callTriples, map_cons, Json.toFields, id, isFunction,
        name, arguments, ToolCall.triple]

namespace Answer

def wantsTools (answer : Answer ν) : Bool :=
  answer.toolCalls.truthy || answer.finishReason.isText "tool_calls"

structure SameAs (readers : JsonReaders ν) (left right : Answer ν) : Prop where
  content : left.content = right.content
  calls : loadedCalls readers left.toolCalls = loadedCalls readers right.toolCalls
  model : left.model = right.model
  outcome : left.wantsTools = right.wantsTools

/-- Two answers that the last steps treat alike. -/
structure Alike (readers : JsonReaders ν) (left right : Answer ν) : Prop where
  content : left.content = right.content
  calls : loadedCalls readers left.toolCalls = loadedCalls readers right.toolCalls
  truthy : left.toolCalls.truthy = right.toolCalls.truthy
  finish : ∀ reason ∈ ["stop", "tool_calls"],
    left.finishReason.isText reason = right.finishReason.isText reason

theorem Alike.wantsTools {readers : JsonReaders ν} (alike : Alike readers left right) :
    left.wantsTools = right.wantsTools := by
  rw [Answer.wantsTools, alike.truthy, alike.finish "tool_calls" (by decide)]
  rfl

end Answer

theorem callTriples_of_falsy (falsy : json.truthy = false) : callTriples json = [] := by
  cases json with
  | arr items =>
    cases items with
    | nil => rfl
    | cons item rest => cases falsy
  | _ => rfl

namespace ChatClient

variable {client : ChatClient ν} {left right : Answer ν}

theorem parseLeakedCalls_alike (alike : left.Alike client.readers right) :
    (client.parseLeakedCalls left).Alike client.readers (client.parseLeakedCalls right) := by
  rw [parseLeakedCalls, parseLeakedCalls, alike.truthy, alike.content]
  split
  · exact alike
  · split
    · exact alike
    · rename_i parse isParser
      dsimp only
      split
      · exact ⟨rfl, rfl, rfl, fun _ _ => rfl⟩
      · exact alike

theorem parseLeakedCalls_model (answer : Answer ν) :
    (client.parseLeakedCalls answer).model = answer.model := by
  rw [parseLeakedCalls]
  split
  · rfl
  · split
    · rfl
    · dsimp only
      split <;> rfl

theorem postProcess_alike (alike : left.Alike client.readers right) :
    (client.postProcess left).Alike client.readers (client.postProcess right) := by
  apply parseLeakedCalls_alike
  constructor
  · rw [alike.content]
  · exact alike.calls
  · exact alike.truthy
  · intro reason member
    dsimp only
    rw [alike.truthy, alike.finish "stop" (by decide)]
    split
    · rfl
    · exact alike.finish reason member

theorem postProcess_model (answer : Answer ν) : (client.postProcess answer).model = answer.model :=
  parseLeakedCalls_model _

theorem postProcess_sameAs_iff (alike : left.Alike client.readers right) :
    (client.postProcess left).SameAs client.readers
      (client.postProcess right) ↔ left.model = right.model := by
  have processed := postProcess_alike alike
  constructor
  · intro same
    have model := same.model
    rw [postProcess_model, postProcess_model] at model
    exact model
  · intro model
    refine ⟨processed.content, processed.calls, ?_, processed.wantsTools⟩
    rw [postProcess_model, postProcess_model, model]

theorem postProcess_silent_iff {raw : Answer ν}
    (notCalls : raw.finishReason.isText "tool_calls" = false) :
    ((client.postProcess raw).content = [] ∧ (client.postProcess raw).wantsTools = false) ↔
      raw.toolCalls.truthy = false ∧ stripLeakedControlTokens raw.content = [] := by
  have stripped : (if raw.content.isEmpty then raw.content
      else stripLeakedControlTokens raw.content) = stripLeakedControlTokens raw.content := by
    cases raw.content with
    | nil | cons => rfl
  rw [postProcess, stripped, parseLeakedCalls, Answer.wantsTools]
  cases calls : raw.toolCalls.truthy with
  | true => simp [calls]
  | false =>
    cases content : stripLeakedControlTokens raw.content with
    | nil => simp [calls, notCalls]
    | cons c rest =>
      simp only [isEmpty_cons, Bool.or_self, Bool.false_eq_true, if_false]
      split
      · simp
      · rename_i parse isParser
        split
        · next found => simp [found]
        · simp

end ChatClient

theorem normalizeMessageContent_of_rendersText {text : Text}
    (renders : RendersText text json) (str : Json ν → Text) :
    ∃ normalized, normalizeMessageContent str json = .ok normalized ∧
      normalized.getD [] = text := by
  rcases renders with rfl | ⟨rfl, rfl⟩
  · exact ⟨some text, rfl, rfl⟩
  · exact ⟨none, rfl, rfl⟩

theorem streamingReplay_start (text : Text) : ∃ reasoning, streamingReplay text
      (newStreamingThinkingMeta : ThinkingMeta ν) = .ok reasoning := by
  cases text with
  | nil => exact ⟨[], rfl⟩
  | cons c rest => exact ⟨_, rfl⟩

theorem messageReplay_isOk (noReasoning : Json.get message "reasoning_details" = .null) :
    ∃ reasoning, messageReplay message = .ok reasoning := by
  rw [messageReplay, noReasoning]
  dsimp only
  split <;> exact ⟨_, rfl⟩

theorem ChatClient.stripParsedContent_str (text : Text) :
    stripParsedContent (.str text : Json ν) = .ok (stripThinkTags text) := by
  cases text with
  | nil | cons => rfl

/-- An answer, before the last steps, that has the parts of a reply. -/
structure Answer.Carries (reply : ChatReply) (answer : Answer ν) : Prop where
  content : answer.content = (stripThinkTags reply.text).1
  calls : HoldsCalls reply.calls answer.toolCalls
  finish : answer.finishReason = .str reply.finish

theorem Answer.Carries.alike {reply : ChatReply} (first : left.Carries reply)
    (second : right.Carries reply) (readers : JsonReaders ν) :
    left.Alike readers right := by
  constructor
  · rw [first.content, second.content]
  · rw [loadedCalls, loadedCalls, first.calls.triples, second.calls.triples]
  · rw [first.calls.truthy, second.calls.truthy]
  · intro reason _
    rw [first.finish, second.finish]

/-- What a streaming call has collected when a reply is over. -/
structure Collected.Holds (reply : ChatReply) (model : Text) (collected : Collected ν) : Prop where
  content : RendersText reply.text (Json.get collected.messageSnapshot "content")
  calls : HoldsCalls reply.calls (Json.get collected.messageSnapshot "tool_calls")
  model : RendersText model (Json.get collected.messageSnapshot "model")
  noThinking : collected.thinkingMeta = newStreamingThinkingMeta

namespace ChatClient

variable {client : ChatClient ν} {reply : ChatReply}

theorem streamedAnswer_of_holds {collected : Collected ν} {model : Text}
    (holds : collected.Holds reply model) :
    ∃ raw, client.streamedAnswer (.str reply.finish) collected = .ok (client.postProcess raw) ∧
      raw.Carries reply ∧
      raw.model = if model.isEmpty then client.requestedModel else model := by
  obtain ⟨normalized, isNormalized, text⟩ :=
    normalizeMessageContent_of_rendersText holds.content client.writers.str
  rw [streamedAnswer]
  simp only [isNormalized, text, holds.noThinking, bind, Except.bind]
  generalize List.flatten _ = thinking
  obtain ⟨reasoning, replayed⟩ := @streamingReplay_start ν _ thinking
  rw [replayed]
  refine ⟨_, rfl, ⟨rfl, holds.calls, rfl⟩, ?_⟩
  rcases holds.model with isText | ⟨empty, isNull⟩
  · rw [isText]
    cases model with
    | nil | cons => rfl
  · rw [isNull, empty]
    rfl

theorem blockingAnswer_of_body {wire : Json.Fields ν}
    (base : client.shim = .base) (body : reply.Body wire) :
    ∃ raw, client.blockingAnswer (.obj wire) = .ok (client.postProcess raw) ∧
      raw.Carries reply ∧ raw.model = reply.model := by
  obtain ⟨model, choice, message, rest, choices, finish, isMessage, parts⟩ :=
    body
  obtain ⟨normalized, isNormalized, text⟩ :=
    normalizeMessageContent_of_rendersText parts.content client.writers.str
  have truthy : (Json.obj message : Json ν).truthy = true := by
    simpa [Json.truthy] using parts.nonempty
  have noReasoning : Json.get (normalizeDelta message) "reasoning_details" =
      .null := by
    rw [normalizeDelta_get message (by decide) (by decide), parts.noReasoning]
  have content : Json.get (normalizeDelta message) "content" = Json.get message "content" :=
    normalizeDelta_get message (by decide) (by decide)
  have calls : HoldsCalls reply.calls (Json.get (normalizeDelta message) "tool_calls") :=
    holdsCalls_of_written (normalizeDelta_written parts.calls)
  rw [blockingAnswer]
  simp only [base, ProviderShim.parseSyncResponse, BaseProviderShim.parseSyncResponse, choices,
    BaseProviderShim.firstChoice, isMessage, Json.orElse, truthy, if_true, Json.toFields, content,
    isNormalized, text, bind, Except.bind, pure, Except.pure, finish, ChunkPart.finish_truthy,
    stripParsedContent_str]
  obtain ⟨reasoning, replayed⟩ := messageReplay_isOk
    (withThinking_details noReasoning (stripThinkTags reply.text).2)
  split
  · next raised => cases replayed.symm.trans raised
  · refine ⟨_, rfl, ⟨rfl, calls, rfl⟩, ?_⟩
    have named : (Json.str reply.model : Json ν).truthy = true := by
      simpa [Json.truthy] using reply.model_ne_nil
    rw [model, if_pos named]
    rfl

end ChatClient

end WriterAgent.Framework
