import WriterAgent.Framework.Client.ClaudeAnswers

/-!
# The streaming and the blocking call

A provider sends one reply in two ways.
-/

namespace WriterAgent.Framework

open PyText List

variable {ν : Type}

def answering {β : Type} (body : β) : Attempt β :=
  ⟨false, .answered body, false, false, false⟩

def deltaCount (events : List (StreamEvent ν)) : ℕ :=
  events.countP fun event =>
    match event.payload with
    | .json (.obj chunk) => hasDelta chunk
    | _ => false

variable {chunks : List (ChunkPart × Json.Fields ν)}
  {ending : List (StreamEvent ν)} {reply : ChatReply} {collected : Collected ν}

theorem deltaCount_chunks (isEnding : ending = [] ∨ ending = [doneEvent]) :
    deltaCount (chunks.map (fun chunk => chunkEvent chunk.2) ++ ending) =
      chunks.countP fun chunk => hasDelta chunk.2 := by
  have noMore : deltaCount ending = 0 := by rcases isEnding with rfl | rfl <;> rfl
  rw [deltaCount, countP_append, countP_map]
  exact congrArg (_ + ·) noMore

theorem split_of_countP_eq_one {α : Type} {p : α → Bool} {items : List α}
    (one : items.countP p = 1) :
    ∃ front item back, items = front ++ item :: back ∧ p item = true ∧
      (∀ item ∈ front, p item = false) ∧ ∀ item ∈ back, p item = false := by
  obtain ⟨item, member, holds⟩ := countP_pos_iff.mp (Nat.lt_of_lt_of_eq Nat.one_pos one.symm)
  obtain ⟨front, back, rfl⟩ := append_of_mem member
  rw [countP_append, countP_cons_of_pos holds] at one
  have noFront : front.countP p = 0 := by omega
  have noBack : back.countP p = 0 := by omega
  rw [countP_eq_zero] at noFront noBack
  refine ⟨front, item, back, rfl, holds, ?_, ?_⟩
  · intro other inFront
    simpa using noFront other inFront
  · intro other inBack
    simpa using noBack other inBack

theorem ChatReply.Delivered.any_finishes (delivered : reply.Delivered (chunks.map Prod.fst)) :
    (chunks.any fun chunk => chunk.1.finishes) = true := by
  obtain ⟨part, member, finishes⟩ := delivered.finishes
  obtain ⟨chunk, inChunks, rfl⟩ := mem_map.mp member
  exact any_eq_true.mpr ⟨chunk, inChunks, finishes⟩

variable [PyNumber ν]

theorem carried_noDeltas (rendered : ∀ chunk ∈ chunks, chunk.1.Renders reply chunk.2)
    (noDeltas : ∀ chunk ∈ chunks, hasDelta chunk.2 = false) :
    ∀ part ∈ (chunks.map Prod.fst).filterMap ChunkPart.deltaPart?,
      part.text = [] ∧ part.fragments = [] := by
  intro part member
  obtain ⟨chunkPart, isChunk, isPart⟩ := mem_filterMap.mp member
  obtain ⟨chunk, inChunks, rfl⟩ := mem_map.mp isChunk
  have renders := rendered chunk inChunks
  cases kind : chunk.1 with
  | usage =>
    rw [kind] at isPart
    cases isPart
  | delta carried finishes =>
    rw [kind] at isPart renders
    cases isPart
    have isDelta := renders.deltaOf_renders
    have empty : deltaOf chunk.2 = [] := by simpa [hasDelta] using noDeltas chunk inChunks
    rw [empty] at isDelta
    exact ⟨isDelta.text_eq_nil, isDelta.fragments_eq_nil⟩

theorem text_noDeltas {parts : List DeltaPart}
    (empty : ∀ part ∈ parts, part.text = [] ∧ part.fragments = []) :
    (parts.map DeltaPart.text).flatten = [] ∧ parts.flatMap DeltaPart.fragments = [] := by
  constructor
  · rw [flatten_eq_nil_iff]
    intro text member
    obtain ⟨part, isPart, rfl⟩ := mem_map.mp member
    exact (empty part isPart).1
  · rw [flatMap_eq_nil_iff]
    exact fun part member => (empty part member).2

namespace ChatClient

variable {client : ChatClient ν} {events : List (StreamEvent ν)} {body : Text}

/-- Both calls return, with the same answer. -/
def Agree (client : ChatClient ν) (events : List (StreamEvent ν)) (body : Text) : Prop :=
  ∃ streamed blocking, client.requestStreaming [answering ⟨events, false⟩] =
        some (.response streamed) ∧
      client.requestBlocking [answering body] = some (.response blocking) ∧
      streamed.SameAs client.readers blocking

theorem requestStreaming_answering {next : Reading ν} {stopped : Bool}
    (read : (Reading.start false .start).readEvents client.writers client.shim
      events = .ok (next, stopped)) :
    client.requestStreaming [answering ⟨events, false⟩] =
      some (client.endStreaming (if stopped then .stopped next.flush
        else .finished next.finishReason next.flush)) := by
  have made : StreamingLoop.tryAttempt client.writers client.shim .start
      (answering ⟨events, false⟩) = .inr (if stopped then .stopped next.flush
          else .finished next.finishReason next.flush) := by
    simp only [StreamingLoop.tryAttempt, answering, StreamingLoop.start, read,
      Bool.false_eq_true, if_false]
    cases stopped with
    | true => rfl
    | false => rfl
  rw [requestStreaming, runStreamingLoop, attemptAll_singleton made]
  rfl

theorem requestStreaming_raised {failure : StreamFailure}
    (read : (Reading.start false .start).readEvents client.writers client.shim
      events = .error failure) :
    client.requestStreaming [answering ⟨events, false⟩] = some (.raised failure) := by
  have made : StreamingLoop.tryAttempt client.writers client.shim .start
      (answering ⟨events, false⟩) = .inr (.raised failure) := by
    simp only [StreamingLoop.tryAttempt, answering, StreamingLoop.start, read,
      Bool.false_eq_true, if_false]
  rw [requestStreaming, runStreamingLoop, attemptAll_singleton made]
  rfl

theorem agree_iff {raw : Answer ν}
    (blocking : client.blockingAnswer (safeJsonLoads client.readers body) =
      .ok (client.postProcess raw)) :
    client.Agree events body ↔ ∃ next streamed,
      (Reading.start false .start).readEvents client.writers client.shim
          events = .ok (next, false) ∧
        client.streamedAnswer next.finishReason next.flush = .ok streamed ∧
        streamed.SameAs client.readers (client.postProcess raw) := by
  have blocked : client.requestBlocking [answering body] =
      some (.response (client.postProcess raw)) := by
    change some (client.endBlocking (.finished (safeJsonLoads client.readers body))) = _
    rw [endBlocking, blocking]
  constructor
  · rintro ⟨streamed, answer, requested, isBlocked, same⟩
    rw [blocked] at isBlocked
    cases isBlocked
    cases read : (Reading.start false .start).readEvents client.writers client.shim events with
    | error failure =>
      rw [requestStreaming_raised read] at requested
      cases requested
    | ok result =>
      obtain ⟨next, stopped⟩ := result
      rw [requestStreaming_answering read] at requested
      have ended := Option.some.inj requested
      cases stopped with
      | true =>
        simp only [if_true, endStreaming] at ended
        split at ended <;> cases ended
      | false =>
        simp only [Bool.false_eq_true, if_false, endStreaming] at ended
        split at ended
        · rename_i isAnswer
          cases ended
          exact ⟨next, streamed, rfl, isAnswer, same⟩
        · cases ended
  · rintro ⟨next, streamed, read, isAnswer, same⟩
    refine ⟨streamed, _, ?_, blocked, same⟩
    rw [requestStreaming_answering read]
    simp only [Bool.false_eq_true, if_false, endStreaming, isAnswer]

variable {reply : ChatReply} {wire : Json.Fields ν}

theorem agree_iff_of_holds {next : Reading ν} {model : Text} (base : client.shim = .base)
    (unrepaired : safeJsonLoads client.readers body = .obj wire) (isBody : reply.Body wire)
    (read : (Reading.start false .start).readEvents client.writers .base events = .ok (next, false))
    (finish : next.finishReason = .str reply.finish) (holds : next.collected.Holds reply model) :
    client.Agree events body ↔ (if model.isEmpty then client.requestedModel else model) =
        reply.model := by
  obtain ⟨raw, blocking, carries, named⟩ :=
    @blockingAnswer_of_body _ _ client _ _ base isBody
  have flushed : next.flush.Holds reply model := by
    rw [Reading.flush, Collected.showAll_eq]
    exact ⟨holds.content, holds.calls, holds.model, holds.noThinking⟩
  obtain ⟨streamed, isStreamed, streamedCarries, streamedNamed⟩ :=
    @streamedAnswer_of_holds _ _ client _ _ _ flushed
  have same := postProcess_sameAs_iff (streamedCarries.alike carries client.readers)
  rw [agree_iff (unrepaired.symm ▸ blocking), base, ← named, ← streamedNamed, ← same]
  constructor
  · rintro ⟨other, answer, isRead, isAnswer, isSame⟩
    rw [read] at isRead
    cases isRead
    rw [finish, isStreamed] at isAnswer
    cases isAnswer
    exact isSame
  · intro isSame
    exact ⟨next, _, read, finish ▸ isStreamed, isSame⟩

theorem firstMessage_holds {part : DeltaPart} {delta : Json.Fields ν}
    (renders : part.Renders delta) (text : part.text = reply.text)
    (assembled : part.fragments.foldlM Fragment.apply [] = some reply.calls)
    (message : collected.messageSnapshot = firstMessage reply delta)
    (noThinking : collected.thinkingMeta = newStreamingThinkingMeta) :
    collected.Holds reply reply.model := by
  constructor
  · rw [message, firstMessage, Collected.get_forSnapshot _ (by decide),
      normalizeDelta_get _ (by decide) (by decide), Json.get_put,
      normalizeDelta_get _ (by decide) (by decide), ← text]
    exact renders.content
  · rw [message, firstMessage, Collected.get_forSnapshot _ (by decide)]
    apply holdsCalls_of_written
    apply normalizeDelta_written
    rw [Json.get_put]
    apply renders_of_written
    apply normalizeDelta_written
    exact renders.calls_of_foldlM assembled
  · rw [message, firstMessage, Collected.get_forSnapshot _ (by decide),
      normalizeDelta_get _ (by decide) (by decide), Json.get_put]
    exact .inl rfl
  · exact noThinking

section Delivered

variable (base : client.shim = .base) (unrepaired : safeJsonLoads client.readers body = .obj wire)
  (isBody : reply.Body wire) (rendered : ∀ chunk ∈ chunks, chunk.1.Renders reply chunk.2)
  (delivered : reply.Delivered (chunks.map Prod.fst))
  (isEnding : ending = [] ∨ ending = [doneEvent])

include base unrepaired isBody rendered delivered isEnding

theorem agree_noDeltas (noDeltas : ∀ chunk ∈ chunks, hasDelta chunk.2 = false) :
    client.Agree (chunks.map (fun chunk => chunkEvent chunk.2) ++ ending)
      body ↔ client.requestedModel = reply.model := by
  have carried := carried_noDeltas rendered noDeltas
  have noText : reply.text = [] :=
    delivered.text.symm.trans (text_noDeltas carried).1
  have noCalls : reply.calls = [] := by
    have assembled := delivered.calls
    rw [(text_noDeltas carried).2] at assembled
    exact (Option.some.inj assembled).symm
  obtain ⟨finished, ended⟩ := @Reading.readEvents_ending _ _ client.writers
    ((Reading.start false .start).finish reply
      (chunks.any fun chunk => chunk.1.finishes)) _ isEnding
  rw [← Reading.readEvents_noDeltas rendered noDeltas rfl] at ended
  refine @agree_iff_of_holds _ _ client _ body _ _ _ [] base unrepaired isBody
    ended ?_ ?_
  · exact if_pos delivered.any_finishes
  · refine ⟨.inr ⟨noText, rfl⟩, ?_, .inr ⟨rfl, rfl⟩, rfl⟩
    rw [noCalls]
    exact ⟨rfl, rfl⟩

theorem agree_oneDelta (one : (chunks.countP fun chunk => hasDelta chunk.2) = 1) :
    client.Agree (chunks.map (fun chunk => chunkEvent chunk.2) ++ ending)
      body ↔ ¬EndlessLoop (contentTexts (ThinkTagStreamSplitter.init.feed reply.text).1) := by
  have finishes := delivered.any_finishes
  obtain ⟨front, ⟨chunkPart, chunk⟩, back, rfl, hasFields, noFront, noBack⟩ :=
    split_of_countP_eq_one one
  rw [forall_mem_append, forall_mem_cons] at rendered
  obtain ⟨renderedFront, renders, renderedBack⟩ := rendered
  cases chunkPart with
  | usage =>
    rw [hasDelta_of_noChoices renders] at hasFields
    cases hasFields
  | delta part last =>
    have emptyFront := text_noDeltas (carried_noDeltas renderedFront noFront)
    have emptyBack := text_noDeltas (carried_noDeltas renderedBack noBack)
    have parts : ((front ++ (ChunkPart.delta part last, chunk) :: back).map
        Prod.fst).filterMap ChunkPart.deltaPart? =
          (front.map Prod.fst).filterMap ChunkPart.deltaPart? ++
            part :: (back.map Prod.fst).filterMap ChunkPart.deltaPart? := by
      rw [map_append, filterMap_append]
      rfl
    have text : part.text = reply.text := by
      rw [← delivered.text, parts, map_append, map_cons, flatten_append, flatten_cons, emptyFront.1,
        emptyBack.1, nil_append, append_nil]
    have assembled : part.fragments.foldlM Fragment.apply [] = some reply.calls := by
      rw [← delivered.calls, parts, flatMap_append, flatMap_cons,
        emptyFront.2, emptyBack.2, nil_append, append_nil]
    rw [← text]
    rcases @Reading.readEvents_oneDelta _ _ client.writers _ _ _ _ _ _ _
      renders hasFields renderedFront renderedBack noFront noBack isEnding
      with ⟨endless, failure, raised⟩ | ⟨notEndless, next, read, finish, collected⟩
    · refine iff_of_false ?_ (not_not_intro endless)
      rintro ⟨streamed, -, requested, -⟩
      rw [requestStreaming_raised (base.symm ▸ raised)] at requested
      cases requested
    · refine iff_of_true ?_ notEndless
      have holds : next.collected.Holds reply reply.model := by
        apply firstMessage_holds renders.deltaOf_renders text assembled
        · rw [collected]
        · rw [collected]
          rfl
      rw [agree_iff_of_holds base unrepaired isBody read
        (finish.trans (if_pos finishes)) holds, if_neg]
      simpa using reply.model_ne_nil

end Delivered

theorem streamedAnswer_model {finishReason : Json ν} {answer : Answer ν}
    (isAnswer : client.streamedAnswer finishReason collected = .ok answer) :
    answer.model = client.writers.text ((Json.get collected.messageSnapshot "model").orElse
        (.str client.requestedModel)) := by
  obtain ⟨_, -, rest⟩ := bind_eq_ok_iff.mp isAnswer
  obtain ⟨_, -, rest⟩ := bind_eq_ok_iff.mp rest
  cases rest
  exact postProcess_model _

theorem not_agree_manyDeltas (base : client.shim = .base)
    (unrepaired : safeJsonLoads client.readers body = .obj wire) (isBody : reply.Body wire)
    (rendered : ∀ chunk ∈ chunks, chunk.1.Renders reply chunk.2)
    (isEnding : ending = [] ∨ ending = [doneEvent])
    (many : 2 ≤ chunks.countP fun chunk => hasDelta chunk.2) :
    ¬client.Agree (chunks.map (fun chunk => chunkEvent chunk.2) ++ ending)
      body := by
  obtain ⟨raw, blocking, carries, named⟩ :=
    @blockingAnswer_of_body _ _ client _ _ base isBody
  rw [agree_iff (unrepaired.symm ▸ blocking), base]
  rintro ⟨next, streamed, read, isAnswer, same⟩
  have models := Reading.readEvents_model read isEnding rendered rfl (.inr ⟨rfl, rfl⟩)
  have flushed : next.flush.messageSnapshot = next.collected.messageSnapshot := by
    rw [Reading.flush, Collected.showAll_eq]
  have isModel := same.model
  rw [postProcess_model, named, streamedAnswer_model isAnswer, flushed] at isModel
  obtain ⟨more, isMany⟩ := Nat.exists_eq_add_of_le' many
  rw [isMany, nil_append, replicate_succ, flatten_cons, replicate_succ, flatten_cons] at models
  rcases models with isText | ⟨empty, -⟩
  · have truthy : (Json.str (reply.model ++ (reply.model ++
        (List.replicate more reply.model).flatten)) : Json ν).truthy =
          true := by
      simp [Json.truthy, reply.model_ne_nil]
    rw [isText, Json.orElse, if_pos truthy] at isModel
    have noMore := append_right_eq_self.mp isModel
    exact reply.model_ne_nil (append_eq_nil_iff.mp noMore).1
  · exact reply.model_ne_nil (append_eq_nil_iff.mp empty).1

theorem agree_chat_iff (base : client.shim = .base)
    (unrepaired : safeJsonLoads client.readers body = .obj wire)
    (isBody : reply.Body wire) (stream : reply.Stream events) :
    client.Agree events body ↔ deltaCount events = 1 ∧ ¬EndlessLoop (contentTexts
          (ThinkTagStreamSplitter.init.feed reply.text).1) ∨
        deltaCount events = 0 ∧ client.requestedModel = reply.model := by
  obtain ⟨chunks, ending, rendered, delivered, isEnding, rfl⟩ := stream
  rw [deltaCount_chunks isEnding]
  match count : chunks.countP fun chunk => hasDelta chunk.2 with
  | 0 =>
    have noDeltas : ∀ chunk ∈ chunks, hasDelta chunk.2 = false := by
      intro chunk member
      simpa using countP_eq_zero.mp count chunk member
    rw [agree_noDeltas base unrepaired isBody rendered delivered isEnding noDeltas, count]
    simp
  | 1 =>
    rw [agree_oneDelta base unrepaired isBody rendered delivered isEnding count, count]
    simp
  | more + 2 =>
    refine iff_of_false ?_ (by simp [count])
    apply not_agree_manyDeltas base unrepaired isBody rendered isEnding
    omega

/-- What the streaming call makes of a response that it passes over. -/
def unheardAnswer (client : ChatClient ν) : Answer ν where
  content := []
  toolCalls := .null
  finishReason := .null
  images := .arr []
  usage := .obj []
  model := client.requestedModel
  reasoning := []

theorem agree_claude_iff {reply : ClaudeReply ν} (anthropic : client.shim = .anthropic)
    (unrepaired : safeJsonLoads client.readers body = .obj wire)
    (isBody : reply.Body wire) (stream : reply.Stream client.readers events) :
    client.Agree events body ↔ reply.usesTools = false ∧
        stripLeakedControlTokens (stripThinkTags reply.textOf).1 = [] ∧
        client.requestedModel = reply.model := by
  obtain ⟨raw, blocking, content, finish, tools, named⟩ :=
    @ClaudeReply.Body.blockingAnswer _ _ client _ _ isBody anthropic
  have read := @Reading.readEvents_noChoices _ _ client.writers .anthropic
    (Reading.start false .start) _ (ClaudeReply.noChoices stream)
  have notCalls : raw.finishReason.isText "tool_calls" = false := by
    rw [finish, Json.isText, decide_eq_false_iff_not]
    intro same
    have member := reply.stopReason_mem
    rw [Option.some.inj same] at member
    revert member
    decide
  have silent := @postProcess_silent_iff _ _ client raw notCalls
  rw [tools, content] at silent
  have streamedEmpty : client.streamedAnswer .null
      (Reading.start false .start).flush = .ok client.unheardAnswer := rfl
  rw [agree_iff (unrepaired.symm ▸ blocking), anthropic, read, ← and_assoc, ← silent]
  constructor
  · rintro ⟨next, streamed, isRead, isAnswer, same⟩
    cases isRead
    cases streamedEmpty.symm.trans isAnswer
    have model := same.model
    rw [postProcess_model, named] at model
    exact ⟨⟨same.content.symm, same.outcome.symm⟩, model⟩
  · rintro ⟨⟨noContent, noTools⟩, model⟩
    refine ⟨_, _, rfl, streamedEmpty, noContent.symm, ?_, ?_, noTools.symm⟩
    · have falsy := (Bool.or_eq_false_iff.mp noTools).1
      rw [loadedCalls, loadedCalls, callTriples_of_falsy falsy]
      rfl
    · rw [postProcess_model, named, ← model]
      rfl

/-- **Streaming and blocking.** The calls agree on a reply of a service
compatible with OpenAI when one delta carries it all without endless
repetition, and on one of Anthropic when nothing of it is to be heard; an empty
reply must name the model that was asked for. -/
theorem agree_iff_heard (client : ChatClient ν) (events : List (StreamEvent ν)) (body : Text)
    (wire : Json.Fields ν) (unrepaired : safeJsonLoads client.readers body = .obj wire) :
    (∀ reply : ChatReply, client.shim = .base → reply.Body wire →
      reply.Stream events → (client.Agree events body ↔
          deltaCount events = 1 ∧ ¬EndlessLoop (contentTexts
              (ThinkTagStreamSplitter.init.feed reply.text).1) ∨
            deltaCount events = 0 ∧ client.requestedModel = reply.model)) ∧
      ∀ reply : ClaudeReply ν, client.shim = .anthropic → reply.Body wire →
        reply.Stream client.readers events → (client.Agree events body ↔ reply.usesTools = false ∧
              stripLeakedControlTokens (stripThinkTags reply.textOf).1 = [] ∧
              client.requestedModel = reply.model) :=
  ⟨fun _ base isBody stream => agree_chat_iff base unrepaired isBody stream,
    fun _ anthropic isBody stream =>
      agree_claude_iff anthropic unrepaired isBody stream⟩

def clientOf (shim : ProviderShim) (body : String) (wire : Json.Fields ℤ) : ChatClient ℤ where
  shim := shim
  requestedModel := "gpt".toList
  toolCallParser := none
  writers := ⟨fun _ => [], fun _ => []⟩
  readers := ⟨fun c => isAsciiLetter c || isAsciiDigit c || c == '_',
    fun text => if text = body.toList then some (.obj wire) else none,
    fun _ => none, fun _ => none, fun _ => none⟩

theorem clientOf_unrepaired {shim : ProviderShim} {body : String} {wire : Json.Fields ℤ}
    (stripped : strip body.toList = body.toList) (nonempty : body.toList ≠ [])
    (noBackslash : '\\' ∉ body.toList) (noControl : ∀ c ∈ body.toList, ' ' ≤ c) :
    safeJsonLoads (clientOf shim body wire).readers body.toList = .obj wire := by
  rw [safeJsonLoads, stripped, if_neg (by simpa using nonempty),
    repairLatexClashes_eq_self noBackslash]
  · simp [clientOf]
  · intro letter control escaped member
    have printed := noControl control member
    rw [escapeMap.eq_def] at escaped
    split at escaped
    all_goals cases escaped
    all_goals exact absurd printed (by decide)

def greeting : ChatReply where
  model := "gpt-4o".toList
  text := "Hi".toList
  calls := []
  finish := "stop".toList
  model_ne_nil := by decide
  finish_mem := by decide

def greetingBody : String :=
  "\x7b\"model\":\"gpt-4o\",\"choices\":[\x7b\"finish_reason\":\"stop\"," ++
    "\"message\":\x7b\"content\":\"Hi\"\x7d\x7d]\x7d"

def greetingWire : Json.Fields ℤ :=
  [("model".toList, .text "gpt-4o"), ("choices".toList, .arr [.obj [
    ("finish_reason".toList, .text "stop"),
    ("message".toList, .obj [("content".toList, .text "Hi")])]])]

theorem greetingWire_body : greeting.Body greetingWire :=
  ⟨rfl, _, _, [], rfl, rfl, rfl, by decide, .inl rfl, .inl ⟨rfl, rfl⟩, rfl⟩

theorem greetingBody_unrepaired : safeJsonLoads (clientOf .base greetingBody greetingWire).readers
      greetingBody.toList = .obj greetingWire := by
  apply clientOf_unrepaired
  · decide +kernel
  · decide
  · decide
  · decide

def greetingChunk (text : String) (finishes : Bool) : ChunkPart × Json.Fields ℤ :=
  (.delta ⟨text.toList, [], nodup_nil⟩ finishes,
    [("model".toList, .text "gpt-4o"), ("choices".toList, .arr [.obj [
      ("finish_reason".toList, if finishes then .text "stop" else .null),
      ("delta".toList, .obj [("content".toList, .text text)])]])])

theorem greetingChunk_renders (text : String) (finishes : Bool) :
    (greetingChunk text finishes).1.Renders greeting (greetingChunk text finishes).2 := by
  refine ⟨rfl, rfl, rfl, _, _, rfl, ?_, rfl, ?_⟩
  · cases finishes with
    | true => rfl
    | false => rfl
  · refine ⟨nodup_singleton _, ?_, .inl rfl, .inl ⟨rfl, rfl⟩⟩
    intro field member
    rw [mem_singleton.mp member]
    exact .inl (mem_map_of_mem (by decide))

def streamOf (chunks : List (ChunkPart × Json.Fields ℤ)) : List (StreamEvent ℤ) :=
  chunks.map (fun chunk => chunkEvent chunk.2) ++ [doneEvent]

def wholeGreeting : List (ChunkPart × Json.Fields ℤ) :=
  [greetingChunk "Hi" true]

def cutGreeting : List (ChunkPart × Json.Fields ℤ) :=
  [greetingChunk "H" false, greetingChunk "i" true]

theorem wholeGreeting_stream : greeting.Stream (streamOf wholeGreeting) := by
  refine ⟨wholeGreeting, _, ?_, ⟨rfl, rfl, ?_⟩, .inr rfl, rfl⟩
  · intro chunk member
    rw [mem_singleton.mp member]
    exact greetingChunk_renders "Hi" true
  · exact ⟨_, mem_cons_self, rfl⟩

theorem cutGreeting_stream : greeting.Stream (streamOf cutGreeting) := by
  refine ⟨cutGreeting, _, ?_, ⟨rfl, rfl, ?_⟩, .inr rfl, rfl⟩
  · rw [cutGreeting, forall_mem_cons, forall_mem_singleton]
    exact ⟨greetingChunk_renders "H" false, greetingChunk_renders "i" true⟩
  · exact ⟨_, mem_cons_of_mem _ mem_cons_self, rfl⟩

theorem greeting_notEndless : ¬EndlessLoop (contentTexts
    (ThinkTagStreamSplitter.init.feed greeting.text).1) := by
  have pieces : (ThinkTagStreamSplitter.init.feed greeting.text).1 = [(false, "Hi".toList)] := by
    rw [ThinkTagStreamSplitter.feed]
    rw [ThinkTagStreamSplitter.feedLoop]
    rfl
  rw [pieces]
  rintro ⟨piece, -, occurs⟩
  have few := occurs.length_le
  rw [length_replicate] at few
  exact absurd few (by decide)

def claudeGreeting : ClaudeReply ℤ where
  model := "claude".toList
  blocks := [.text "Hi".toList]
  stopReason := "end_turn".toList
  model_ne_nil := by decide
  stopReason_mem := mem_map_of_mem (by decide)

def claudeBody : String :=
  "\x7b\"type\":\"message\",\"model\":\"claude\",\"stop_reason\":\"end_turn\"," ++
    "\"content\":[\x7b\"type\":\"text\",\"text\":\"Hi\"\x7d]\x7d"

def claudeWire : Json.Fields ℤ :=
  [("type".toList, .text "message"), ("model".toList, .text "claude"),
    ("stop_reason".toList, .text "end_turn"), ("content".toList, .arr [.obj [
      ("type".toList, .text "text"), ("text".toList, .text "Hi")]])]

theorem claudeWire_body : claudeGreeting.Body claudeWire :=
  ⟨rfl, rfl, rfl, _, rfl, .cons ⟨_, rfl, rfl, rfl⟩ .nil⟩

theorem claudeBody_unrepaired : safeJsonLoads (clientOf .anthropic claudeBody claudeWire).readers
      claudeBody.toList = .obj claudeWire := by
  apply clientOf_unrepaired
  · decide +kernel
  · decide
  · decide
  · decide

def claudeEvent (type : String) (fields : Json.Fields ℤ) : Json.Fields ℤ :=
  ("type".toList, .text type) :: fields

def claudeStream : List (StreamEvent ℤ) :=
  [claudeEvent "message_start" [("message".toList, .obj [ ("model".toList, .text "claude")])],
    claudeEvent "content_block_start" [],
    claudeEvent "content_block_delta" [("delta".toList, .obj [
      ("type".toList, .text "text_delta"), ("text".toList, .text "Hi")])],
    claudeEvent "content_block_stop" [],
    claudeEvent "message_delta" [("delta".toList, .obj [
      ("stop_reason".toList, .text "end_turn")])],
    claudeEvent "message_stop" []].map chunkEvent

theorem claudeGreeting_stream (readers : JsonReaders ℤ) :
    claudeGreeting.Stream readers claudeStream := by
  refine ⟨_, _, [[_, _, _]], _, _, ⟨rfl, rfl⟩, rfl, rfl, .cons ?_ .nil,
    ⟨rfl, rfl⟩, ⟨_, rfl, rfl⟩, ⟨rfl, rfl⟩, rfl⟩
  exact @BlockEvents.text _ readers ["Hi".toList] _ _ [_] ⟨rfl, rfl⟩
    (.cons ⟨⟨rfl, rfl⟩, _, rfl, rfl, rfl⟩ .nil) ⟨rfl, rfl⟩

/-- In one delta the greeting is heard the same in both calls. -/
theorem agree_wholeGreeting :
    (clientOf .base greetingBody greetingWire).Agree (streamOf wholeGreeting) greetingBody.toList ∧
      ¬(clientOf .anthropic claudeBody claudeWire).Agree claudeStream
        claudeBody.toList := by
  constructor
  · apply ((agree_iff_heard _ _ _ _ greetingBody_unrepaired).1 greeting rfl
      greetingWire_body wholeGreeting_stream).mpr
    exact .inl ⟨rfl, greeting_notEndless⟩
  · intro agree
    have heard := ((agree_iff_heard _ _ _ _ claudeBody_unrepaired).2
      claudeGreeting rfl claudeWire_body (claudeGreeting_stream _)).mp agree
    exact absurd heard.2.1 (by decide)

/-- Cut in two, the greeting names the model twice; from Anthropic, the
streaming call hears nothing of it. -/
theorem not_agree_greeting : (∃ (client : ChatClient ℤ) (wire : Json.Fields ℤ) (reply : ChatReply)
      (events : List (StreamEvent ℤ)) (body : Text),
        client.shim = .base ∧ client.readers.loads body = some (.obj wire) ∧
          reply.Body wire ∧ reply.Stream events ∧
          ¬client.Agree events body) ∧
      ∃ (client : ChatClient ℤ) (wire : Json.Fields ℤ)
        (reply : ClaudeReply ℤ) (events : List (StreamEvent ℤ)) (body : Text),
          client.shim = .anthropic ∧ client.readers.loads body = some (.obj wire) ∧
            reply.Body wire ∧ reply.Stream client.readers events ∧
            ¬client.Agree events body := by
  constructor
  · refine ⟨clientOf .base greetingBody greetingWire, greetingWire, greeting,
      streamOf cutGreeting, greetingBody.toList, rfl, by simp [clientOf],
      greetingWire_body, cutGreeting_stream, ?_⟩
    rw [agree_chat_iff rfl greetingBody_unrepaired greetingWire_body cutGreeting_stream]
    rintro (⟨one, -⟩ | ⟨zero, -⟩)
    · exact absurd one (by decide)
    · exact absurd zero (by decide)
  · refine ⟨clientOf .anthropic claudeBody claudeWire, claudeWire,
      claudeGreeting, claudeStream, claudeBody.toList, rfl,
      by simp [clientOf], claudeWire_body, claudeGreeting_stream _, ?_⟩
    rw [agree_claude_iff rfl claudeBody_unrepaired claudeWire_body (claudeGreeting_stream _)]
    rintro ⟨-, silent, -⟩
    exact absurd silent (by decide)

end ChatClient

end WriterAgent.Framework
