import WriterAgent.Framework.Client.ChatAnswers

/-!
# The answers to a reply of Anthropic

The streaming loop passes over a payload without choices, and no event of
Anthropic has any.  The blocking call gets the texts and the tool calls.
-/

namespace WriterAgent.Framework

open PyText List

variable {ν : Type}
variable {readers : JsonReaders ν}

theorem BlockEvents.noChoices {block : ContentBlock ν}
    {events : List (Json.Fields ν)} (sent : BlockEvents readers block events) :
    ∀ event ∈ events, Json.has event "choices" = false := by
  have ofDeltas {deltaType textField : String} {pieces : List Text}
      {deltas : List (Json.Fields ν)}
      (rendered : List.Forall₂ (BlockDelta deltaType textField) pieces deltas) :
      ∀ event ∈ deltas, Json.has event "choices" = false := by
    induction rendered with
    | nil => nofun
    | cons isDelta _ ih =>
      rw [forall_mem_cons]
      exact ⟨isDelta.1.noChoices, ih⟩
  cases sent with
  | text start deltas stop | toolUse start _ _ _ deltas _ stop =>
    rw [forall_mem_append, forall_mem_cons, forall_mem_singleton]
    exact ⟨⟨start.noChoices, ofDeltas deltas⟩, stop.noChoices⟩

theorem BlockEvents.noChoices_flatten {blocks : List (ContentBlock ν)}
    {groups : List (List (Json.Fields ν))}
    (sent : List.Forall₂ (BlockEvents readers) blocks groups) :
    ∀ event ∈ groups.flatten, Json.has event "choices" = false := by
  induction sent with
  | nil => nofun
  | cons isBlock _ ih =>
    rw [flatten_cons, forall_mem_append]
    exact ⟨isBlock.noChoices, ih⟩

theorem ClaudeReply.noChoices {reply : ClaudeReply ν}
    {events : List (StreamEvent ν)} (stream : reply.Stream readers events) :
    ∀ event ∈ events, ∃ chunk, event = chunkEvent chunk ∧ Json.has chunk "choices" = false := by
  obtain ⟨start, message, groups, delta, stop, isStart, -, -, blocks, isDelta,
    -, isStop, rfl⟩ := stream
  intro event member
  obtain ⟨chunk, isChunk, rfl⟩ := mem_map.mp member
  refine ⟨chunk, rfl, ?_⟩
  rcases mem_cons.mp isChunk with rfl | later
  · exact isStart.noChoices
  · rcases mem_append.mp later with inGroups | last
    · exact BlockEvents.noChoices_flatten blocks chunk inGroups
    · rcases mem_cons.mp last with rfl | isLast
      · exact isDelta.noChoices
      · rw [mem_singleton.mp isLast]
        exact isStop.noChoices

namespace ClaudeReply

variable {blocks : List (ContentBlock ν)} {parts : List (Json ν)}

def textOf (reply : ClaudeReply ν) : Text :=
  reply.blocks.flatMap ContentBlock.textOf

def usesTools (reply : ClaudeReply ν) : Bool :=
  reply.blocks.any ContentBlock.isToolUse

theorem textParts_of_renders (rendered : List.Forall₂ ContentBlock.Renders blocks parts) :
    ∃ texts, AnthropicShim.textParts parts = .ok texts ∧
      joinParts texts = .ok (blocks.flatMap ContentBlock.textOf) := by
  induction rendered with
  | nil => exact ⟨[], rfl, rfl⟩
  | @cons block part blocks parts isBlock _ ih =>
    obtain ⟨texts, found, joined⟩ := ih
    cases block with
    | text piece =>
      obtain ⟨fields, rfl, type, text⟩ := isBlock
      have isText : Json.getD fields "text" (.text "") = .str piece :=
        Json.getD_of_get text nofun _
      change Json.getD fields "type" .null = .text "text" at type
      refine ⟨.str piece :: texts, ?_, ?_⟩
      · simp only [AnthropicShim.textParts, AnthropicShim.getAttr, type,
          isText, found, bind, Except.bind, pure, Except.pure]
        rfl
      · rw [joinParts, joined]
        rfl
    | toolUse id name input =>
      obtain ⟨fields, rfl, type, -⟩ := isBlock
      change Json.getD fields "type" .null = .text "tool_use" at type
      refine ⟨texts, ?_, joined⟩
      simp only [AnthropicShim.textParts, AnthropicShim.getAttr, type,
        found, bind, Except.bind, pure, Except.pure]
      rfl

theorem toolUses_of_renders {writers : PyWriters ν}
    (rendered : List.Forall₂ ContentBlock.Renders blocks parts) :
    ∃ calls, AnthropicShim.toolUses writers parts = .ok calls ∧
      calls.isEmpty = !blocks.any ContentBlock.isToolUse := by
  induction rendered with
  | nil => exact ⟨[], rfl, rfl⟩
  | @cons block part blocks parts isBlock _ ih =>
    obtain ⟨calls, found, tools⟩ := ih
    cases block with
    | text piece =>
      obtain ⟨fields, rfl, type, -⟩ := isBlock
      change Json.getD fields "type" .null = .text "text" at type
      refine ⟨calls, ?_, tools⟩
      simp only [AnthropicShim.toolUses, AnthropicShim.getAttr, type, found, bind, Except.bind]
      rfl
    | toolUse id name input =>
      obtain ⟨fields, rfl, type, isId, isName, isInput⟩ := isBlock
      change Json.getD fields "type" .null = .text "tool_use" at type
      let function : Json ν := .obj [("name".toList, .str name),
        ("arguments".toList, .str (writers.dumps input))]
      refine ⟨.obj [("id".toList, .str id), ("type".toList, .text "function"),
        ("function".toList, function)] :: calls, ?_, rfl⟩
      simp only [AnthropicShim.toolUses, AnthropicShim.getAttr, type,
        AnthropicShim.getItem, Json.toFields,
        Json.lookup_of_get isId (by rintro ⟨⟩), Json.lookup_of_get isName (by rintro ⟨⟩),
        isInput, found, bind, Except.bind]
      rfl

end ClaudeReply

variable [PyNumber ν]

theorem Reading.readEvents_noChoices {writers : PyWriters ν}
    {shim : ProviderShim} {reading : Reading ν}
    {events : List (StreamEvent ν)}
    (noChoices : ∀ event ∈ events, ∃ chunk, event = chunkEvent chunk ∧
      Json.has chunk "choices" = false) :
    reading.readEvents writers shim events = .ok (reading, false) := by
  induction events with
  | nil => rfl
  | cons event rest ih =>
    rw [forall_mem_cons] at noChoices
    obtain ⟨⟨chunk, rfl, absent⟩, later⟩ := noChoices
    have falsy : (Json.getD chunk "choices" (.arr [])).truthy = false := by
      rw [Json.has, Option.isSome_eq_false_iff, Option.isNone_iff_eq_none] at absent
      rw [Json.getD, absent]
      rfl
    rw [readEvents]
    simp only [chunkEvent, falsy, Bool.not_false, if_true,
      Bool.false_eq_true, if_false, ih later, ite_self]

namespace ClaudeReply

variable {client : ChatClient ν} {reply : ClaudeReply ν} {wire : Json.Fields ν}

theorem Body.parse (isBody : reply.Body wire) (writers : PyWriters ν) :
    ∃ parsed, AnthropicShim.parseSyncResponse writers wire = .ok parsed ∧
      parsed.content = .str reply.textOf ∧
      parsed.finishReason = .str reply.stopReason ∧
      parsed.toolCalls.truthy = reply.usesTools ∧
      Json.get parsed.message "reasoning_details" = .null := by
  obtain ⟨type, -, stopReason, parts, content, rendered⟩ := isBody
  obtain ⟨texts, found, joined⟩ := textParts_of_renders rendered
  obtain ⟨calls, tools, isEmpty⟩ :=
    @toolUses_of_renders _ _ _ writers rendered
  have msgType : Json.getD wire "type" (.text "") = .text "message" :=
    Json.getD_of_get type nofun _
  have allParts : Json.getD wire "content" (.arr []) = .arr parts :=
    Json.getD_of_get content nofun _
  have isMessage : (Json.text "message" : Json ν).isText "content_block_delta" = false := rfl
  have isMessage' : (Json.text "message" : Json ν).isText "message" = true :=
    rfl
  simp only [AnthropicShim.parseSyncResponse, AnthropicShim.parseResponseChunk, msgType, isMessage,
    isMessage', Bool.false_eq_true, if_false, if_true, allParts, Json.iterate, found, joined, tools,
    bind, Except.bind, pure, Except.pure]
  have usesTools : reply.usesTools = !calls.isEmpty := by
    rw [isEmpty, Bool.not_not, ClaudeReply.usesTools]
  refine ⟨_, rfl, rfl, stopReason, ?_, ?_⟩
  · rw [usesTools]
    cases calls with
    | nil => rfl
    | cons call rest => rfl
  · cases calls with
    | nil => rfl
    | cons call rest => rfl

theorem Body.blockingAnswer (isBody : reply.Body wire) (anthropic : client.shim = .anthropic) :
    ∃ raw, client.blockingAnswer (.obj wire) = .ok (client.postProcess raw) ∧
      raw.content = (stripThinkTags reply.textOf).1 ∧
      raw.finishReason = .str reply.stopReason ∧
      raw.toolCalls.truthy = reply.usesTools ∧
      raw.model = reply.model := by
  obtain ⟨parsed, isParsed, content, finish, tools, noReasoning⟩ :=
    isBody.parse client.writers
  obtain ⟨reasoning, replayed⟩ := messageReplay_isOk
    (withThinking_details noReasoning (stripThinkTags reply.textOf).2)
  rw [ChatClient.blockingAnswer]
  simp only [anthropic, ProviderShim.parseSyncResponse, isParsed, content,
    ChatClient.stripParsedContent_str, bind, Except.bind, pure, Except.pure]
  split
  · next raised => cases replayed.symm.trans raised
  · refine ⟨_, rfl, rfl, finish, tools, ?_⟩
    have named : (Json.str reply.model : Json ν).truthy = true := by
      simpa [Json.truthy] using reply.model_ne_nil
    rw [isBody.2.1, Json.orElse, if_pos named]
    rfl

end ClaudeReply

end WriterAgent.Framework
