import WriterAgent.Framework.Client.DeltaTraces
import WriterAgent.Framework.Client.ProviderReplies
import WriterAgent.Framework.Client.RepeatedChunks

/-!
# Streams of services compatible with OpenAI

What the streaming loop collects from a reply that comes in deltas.
-/

namespace WriterAgent.Framework

open PyText List

variable {ν : Type}

def deltaOf (chunk : Json.Fields ν) : Json.Fields ν :=
  (Json.get (BaseProviderShim.firstChoice (Json.get chunk "choices")) "delta").toFields

def hasDelta (chunk : Json.Fields ν) : Bool := !(deltaOf chunk).isEmpty

variable {chunk : Json.Fields ν} {before model : Text} {next : Reading ν}
  {more : List (StreamEvent ν)} {key : String} {collected : Collected ν}
  {writers : PyWriters ν}

theorem hasDelta_of_noChoices (noChoices : Json.getD chunk "choices" (.arr []) = .arr []) :
    hasDelta chunk = false := by
  have noChoice : BaseProviderShim.firstChoice (Json.get chunk "choices") = [] := by
    rw [Json.getD] at noChoices
    rw [Json.get, Json.getD]
    cases found : PyDict.lookup "choices".toList chunk with
    | none => rfl
    | some choices =>
      rw [found, Option.getD_some] at noChoices
      rw [noChoices]
      rfl
  rw [hasDelta, deltaOf, noChoice]
  rfl

theorem ChunkPart.finish_not_error (reply : ChatReply) (finishes : Bool) :
    (if finishes then .str reply.finish else .null : Json ν).isText "error" =
      false := by
  have member := reply.finish_mem
  cases finishes with
  | true =>
    rcases mem_cons.mp member with isStop | isCalls
    · rw [isStop]
      rfl
    · rw [mem_singleton.mp isCalls]
      rfl
  | false => rfl

/-- The reading behind a chunk that may give the reason of the end. -/
def Reading.finish (reply : ChatReply) (finishes : Bool) (reading : Reading ν) : Reading ν :=
  { reading with
    finishReason := if finishes then .str reply.finish
      else reading.finishReason }

def firstMessage (reply : ChatReply) (delta : Json.Fields ν) : Json.Fields ν :=
  Collected.forSnapshot (normalizeDelta
    (Json.put (normalizeDelta delta) "model" (.str reply.model)))

theorem Reading.finish_finish (reply : ChatReply) (first second : Bool) (reading : Reading ν) :
    (reading.finish reply first).finish reply second = reading.finish reply (first || second) := by
  cases first <;> cases second <;> rfl

theorem Collected.lookup_forSnapshot (delta : Json.Fields ν) {key : Text}
    (kept : key ∉ thinkingDeltaKeys.map String.toList) :
    PyDict.lookup key (forSnapshot delta) = PyDict.lookup key delta := by
  rw [forSnapshot, PyDict.lookup_filter
    (fun key => !(thinkingDeltaKeys.map String.toList).contains key),
    if_pos (by simpa using kept)]

theorem Collected.get_forSnapshot (delta : Json.Fields ν)
    (kept : key.toList ∉ thinkingDeltaKeys.map String.toList) :
    Json.get (forSnapshot delta) key = Json.get delta key := by
  rw [Json.get, Json.getD, lookup_forSnapshot delta kept]
  rfl

theorem Collected.forSnapshot_nodup {delta : Json.Fields ν}
    (distinct : (delta.map Prod.fst).Nodup) :
    ((forSnapshot delta).map Prod.fst).Nodup :=
  distinct.sublist (filter_sublist.map Prod.fst)

variable [PyNumber ν]

namespace DeltaPart.Renders

variable {part : DeltaPart} {delta : Json.Fields ν}

theorem get_eq_null (renders : part.Renders delta) (other : key.toList ∉
      ["role", "content", "tool_calls"].map String.toList) :
    Json.get delta key = .null := by
  cases found : PyDict.lookup key.toList delta with
  | none => rw [Json.get, Json.getD, found, Option.getD_none]
  | some value =>
    rw [Json.get, Json.getD, found]
    have field := renders.fields _ (PyDict.lookup_eq_some found)
    exact (field.resolve_left other).2

theorem noModel (renders : part.Renders delta) : "model".toList ∉ delta.map Prod.fst := by
  intro member
  obtain ⟨field, isField, same⟩ := mem_map.mp member
  rcases renders.fields field isField with isKnown | ⟨notModel, -⟩
  · rw [same] at isKnown
    revert isKnown
    decide
  · exact notModel same

theorem text_eq_nil (renders : part.Renders ([] : Json.Fields ν)) : part.text = [] :=
  renders.content.eq_nil

theorem fragments_eq_nil (renders : part.Renders ([] : Json.Fields ν)) : part.fragments = [] := by
  rcases renders.calls with ⟨empty, -⟩ | ⟨entries, impossible, -⟩
  · exact empty
  · cases impossible

theorem content_orElse (renders : part.Renders delta) :
    (Json.get delta "content").orElse (.text "") = .str part.text := by
  rcases renders.content with isText | ⟨empty, isNull⟩
  · rw [isText]
    cases text : part.text with
    | nil | cons => rfl
  · rw [isNull, empty]
    rfl

theorem source (renders : part.Renders delta) : thinkingSource delta = none := by
  rw [thinkingSource_eq_none_iff]
  constructor
  · intro detail details isList
    rw [renders.get_eq_null (by decide)] at isList
    cases isList
  · intro field member
    have isNull : Json.get delta field = .null := by
      apply renders.get_eq_null
      revert field
      decide
    rw [isNull]
    rfl

end DeltaPart.Renders

namespace ChunkPart

variable {reply : ChatReply} {part : DeltaPart} {finishes : Bool} {chunk : Json.Fields ν}

theorem Renders.deltaOf_renders (renders : (delta part finishes).Renders reply chunk) :
    part.Renders (deltaOf chunk) := by
  obtain ⟨-, -, -, choice, delta, choices, -, isDelta, part⟩ := renders
  rw [deltaOf, choices]
  show DeltaPart.Renders _ (Json.get choice "delta").toFields
  rw [isDelta]
  exact part

theorem finish_truthy (reply : ChatReply) : (Json.str reply.finish : Json ν).truthy = true := by
  have nonempty : reply.finish ≠ [] := by
    intro empty
    have member := reply.finish_mem
    rw [empty] at member
    revert member
    decide
  simpa [Json.truthy] using nonempty

theorem Renders.parse (renders : (delta part finishes).Renders reply chunk) :
    BaseProviderShim.parseResponseChunk chunk = .ok {
      content := .str part.text
      finishReason := if finishes then .str reply.finish else .null
      thinking := []
      delta := deltaOf chunk } := by
  have isPart := renders.deltaOf_renders
  obtain ⟨-, noFinish, noDone, choice, delta, choices, finish, isDelta, -⟩ :=
    renders
  have isDeltaOf : deltaOf chunk = delta := by
    rw [deltaOf, choices]
    show (Json.get choice "delta").toFields = delta
    rw [isDelta]
    rfl
  rw [isDeltaOf] at isPart ⊢
  have allChoices : Json.getD chunk "choices" (.arr []) =
      .arr [.obj choice] := Json.getD_of_get choices nofun _
  have getDelta : Json.getD choice "delta" (.obj []) = .obj delta :=
    Json.getD_of_get isDelta nofun _
  have thinking : extractThinkingFromDelta chunk = .ok [] := by
    rw [extractThinkingFromDelta, normalizeStreamDelta, choices]
    simp only [isDelta]
    exact thinkingTextFromDelta_of_source isPart.source
  have iterated : Json.iterate (.arr [.obj choice] : Json ν) = .ok [.obj choice] := rfl
  simp only [BaseProviderShim.parseResponseChunk, allChoices, BaseProviderShim.firstChoice,
    getDelta, Json.toFields, finish, noFinish, noDone, thinking, isPart.content_orElse, iterated]
  cases finishes with
  | true =>
    simp only [if_true, finish_truthy, Bool.true_or]
    rfl
  | false =>
    simp [Json.truthy, Json.orElse, BaseProviderShim.anyFinishReason, finish,
      bind, Except.bind, pure, Except.pure]

end ChunkPart

theorem Collected.onDelta_model {next : Collected ν} {delta : Json.Fields ν}
    (handed : collected.onDelta delta = .ok next)
    (distinct : (delta.map Prod.fst).Nodup)
    (named : Json.get delta "model" = .str model) (had : RendersText before
      (Json.get collected.messageSnapshot "model")) :
    RendersText (before ++ model) (Json.get next.messageSnapshot "model") := by
  obtain ⟨_, -, rest⟩ := bind_eq_ok_iff.mp handed
  obtain ⟨snapshot, merged, rest⟩ := bind_eq_ok_iff.mp rest
  cases rest
  have isNamed : Json.get (normalizeDelta delta) "model" = .str model := by
    rw [normalizeDelta_get delta (by decide) (by decide), named]
  have adds : RendersText (before ++ model) (Json.get snapshot "model") := by
    apply accumulateDelta_rendersText merged _ (by decide) had
    · rw [get_forSnapshot _ (by decide), isNamed]
      exact .inl rfl
    · apply forSnapshot_nodup
      rw [normalizeDelta_keys]
      exact distinct
  split
  · rename_i absent
    have isNull : Json.get snapshot "model" = .null := by
      apply Json.get_of_hasNot
      simpa using (Bool.and_eq_true_iff.mp absent).2
    rw [isNull] at adds
    rw [Json.get_put, if_pos rfl, isNamed]
    left
    rw [(append_eq_nil_iff.mp adds.eq_nil).1, nil_append]
  · exact adds

theorem Collected.onDelta_first {delta : Json.Fields ν} (first : collected.messageSnapshot = [])
    (distinct : (delta.map Prod.fst).Nodup) (noSource : thinkingSource delta = none) :
    collected.onDelta delta = .ok { collected with
      messageSnapshot := forSnapshot (normalizeDelta delta) } := by
  have noSource' : thinkingSource (normalizeDelta delta) = none := by
    rw [normalizeDelta_source, noSource]
  have thinking := accumulateStreamingThinking_of_source noSource'
    collected.thinkingParts collected.thinkingMeta
  have merged : accumulateDelta [] (forSnapshot (normalizeDelta delta)) =
      .ok (forSnapshot (normalizeDelta delta)) := by
    apply accumulateDelta_append
    apply forSnapshot_nodup
    rw [normalizeDelta_keys]
    exact distinct
  have sameModel : Json.has (forSnapshot (normalizeDelta delta)) "model" =
      Json.has (normalizeDelta delta) "model" := by
    rw [Json.has, lookup_forSnapshot _ (by decide)]
    rfl
  simp only [onDelta, thinking, first, merged, sameModel, bind, Except.bind,
    pure, Except.pure, Bool.and_not_self, Bool.false_eq_true, if_false]

theorem Reading.handedDelta_eq {delta : Json.Fields ν} (named : Json.get chunk "model" = .str model)
    (nonempty : model ≠ []) (noModel : "model".toList ∉ delta.map Prod.fst) :
    handedDelta writers chunk delta = Json.put (normalizeDelta delta) "model" (.str model) := by
  have absent : Json.has (normalizeDelta delta) "model" = false := by
    apply Json.has_of_absent
    rw [normalizeDelta_keys]
    exact noModel
  have truthy : (Json.str model : Json ν).truthy = true := by simpa [Json.truthy] using nonempty
  simp only [handedDelta, named, absent, truthy, Bool.not_false, Bool.and_self,
    if_true, PyWriters.text]

theorem ChunkPart.Renders.handedDelta_eq {reply : ChatReply} {part : DeltaPart} {finishes : Bool}
    (renders : (ChunkPart.delta part finishes).Renders reply chunk) :
    Reading.handedDelta writers chunk (deltaOf chunk) =
      Json.put (normalizeDelta (deltaOf chunk)) "model" (.str reply.model) :=
  Reading.handedDelta_eq renders.1 reply.model_ne_nil renders.deltaOf_renders.noModel

namespace Reading

variable {writers : PyWriters ν} {reply : ChatReply} {reading : Reading ν}
  {part : DeltaPart} {finishes : Bool} {chunk : Json.Fields ν}

theorem handleChunk_delta (renders : (ChunkPart.delta part finishes).Renders reply chunk) :
    reading.handleChunk writers .base chunk = do
      let fed ← reading.feedContent (.str part.text)
      let given ← fed.handDelta writers chunk (deltaOf chunk)
      return given.finish reply finishes := by
  rw [handleChunk, ProviderShim.parseResponseChunk, renders.parse]
  show (if _ then _ else _) = _
  rw [ChunkPart.finish_not_error]
  cases finishes with
  | true => simp only [if_true, ChunkPart.finish_truthy]; rfl
  | false => rfl

theorem handleChunk_noDelta (renders : (ChunkPart.delta part finishes).Renders reply chunk)
    (noDelta : hasDelta chunk = false) :
    reading.handleChunk writers .base chunk = .ok (reading.finish reply finishes) := by
  have isPart := renders.deltaOf_renders
  have empty : deltaOf chunk = [] := by simpa [hasDelta] using noDelta
  rw [empty] at isPart
  rw [handleChunk_delta renders, empty, isPart.text_eq_nil]
  rfl

theorem handleChunk_unfinished (handled : reading.handleChunk writers .base chunk = .ok next)
    (unfinished : reading.contentFinished = false) :
    next.contentFinished = false := by
  obtain ⟨_, _, _, finished, _⟩ := handleChunk_ok handled
  exact finished.trans unfinished

theorem readEvents_usage (renders : ChunkPart.Renders reply .usage chunk) :
    reading.readEvents writers .base (chunkEvent chunk :: more) =
      reading.readEvents writers .base more := by
  have noChoices : Json.getD chunk "choices" (.arr []) = .arr [] := renders
  rw [readEvents]
  simp [chunkEvent, noChoices, Json.truthy]

theorem readEvents_delta (renders : (ChunkPart.delta part finishes).Renders reply chunk)
    (unfinished : reading.contentFinished = false) :
    reading.readEvents writers .base (chunkEvent chunk :: more) =
      reading.handleChunk writers .base chunk >>= fun next =>
        next.readEvents writers .base more := by
  obtain ⟨_, _, _, choice, _, choices, _⟩ := renders
  have allChoices : Json.getD chunk "choices" (.arr []) =
      .arr [.obj choice] := Json.getD_of_get choices nofun _
  rw [readEvents]
  simp [chunkEvent, unfinished, allChoices, Json.truthy]

theorem readEvents_ending {ending : List (StreamEvent ν)}
    (isEnding : ending = [] ∨ ending = [doneEvent]) :
    ∃ finished, reading.readEvents writers .base ending =
      .ok ({ reading with contentFinished := finished }, false) := by
  rcases isEnding with rfl | rfl
  · exact ⟨reading.contentFinished, rfl⟩
  · exact ⟨true, rfl⟩

variable {chunks : List (ChunkPart × Json.Fields ν)} {ending : List (StreamEvent ν)}

theorem readEvents_noDeltas (rendered : ∀ chunk ∈ chunks, chunk.1.Renders reply chunk.2)
    (noDeltas : ∀ chunk ∈ chunks, hasDelta chunk.2 = false)
    (unfinished : reading.contentFinished = false) :
    reading.readEvents writers .base (chunks.map (fun chunk => chunkEvent chunk.2) ++ more) =
      (reading.finish reply (chunks.any fun chunk => chunk.1.finishes)).readEvents
        writers .base more := by
  induction chunks generalizing reading with
  | nil => rfl
  | cons first rest ih =>
    obtain ⟨chunkPart, chunk⟩ := first
    rw [forall_mem_cons] at rendered noDeltas
    rw [map_cons, cons_append, any_cons]
    cases chunkPart with
    | usage =>
      rw [readEvents_usage rendered.1]
      exact ih rendered.2 noDeltas.2 unfinished
    | delta part finishes =>
      rw [readEvents_delta rendered.1 unfinished,
        handleChunk_noDelta rendered.1 noDeltas.1, ← finish_finish]
      exact ih rendered.2 noDeltas.2 unfinished

theorem feedContent_isOk {text : Text} (noContents : reading.lastContents = [])
    (fresh : reading.splitter = .init) :
    (∃ next, reading.feedContent (.str text) = .ok next) ↔ ¬EndlessLoop
        (contentTexts (ThinkTagStreamSplitter.init.feed text).1) := by
  have noLoop : ¬EndlessLoop [] := by
    rintro ⟨piece, -, occurs⟩
    exact cons_ne_nil _ _ (infix_nil.mp occurs)
  cases text with
  | nil => exact ⟨fun _ => noLoop, fun _ => ⟨reading, rfl⟩⟩
  | cons c rest =>
    rw [← fresh]
    exact @showPieces_isOk _ { reading with
      splitter := (reading.splitter.feed (c :: rest)).2 } [] _ noContents
      noLoop

theorem handDelta_first (renders : (ChunkPart.delta part finishes).Renders reply chunk)
    (hasFields : hasDelta chunk = true) (first : reading.collected.messageSnapshot = []) :
    reading.handDelta writers chunk (deltaOf chunk) = .ok { reading with
        collected := { reading.collected with
          messageSnapshot := firstMessage reply (deltaOf chunk) } } := by
  have nonempty : ¬(deltaOf chunk).isEmpty = true := by simpa [hasDelta] using hasFields
  have isPart := renders.deltaOf_renders
  rw [handDelta, if_neg nonempty, renders.handedDelta_eq, Collected.onDelta_first first]
  · rfl
  · apply PyDict.nodup_insertEntry
    rw [normalizeDelta_keys]
    exact isPart.distinct
  · rw [← isPart.source, ← normalizeDelta_source (deltaOf chunk)]
    apply thinkingSource_congr
    intro key member
    rw [Json.get_put, if_neg]
    rintro rfl
    revert member
    decide

theorem readEvents_oneDelta {front back : List (ChunkPart × Json.Fields ν)}
    (renders : (ChunkPart.delta part finishes).Renders reply chunk)
    (hasFields : hasDelta chunk = true)
    (renderedFront : ∀ chunk ∈ front, chunk.1.Renders reply chunk.2)
    (renderedBack : ∀ chunk ∈ back, chunk.1.Renders reply chunk.2)
    (noFront : ∀ chunk ∈ front, hasDelta chunk.2 = false)
    (noBack : ∀ chunk ∈ back, hasDelta chunk.2 = false)
    (isEnding : ending = [] ∨ ending = [doneEvent]) :
    EndlessLoop (contentTexts (ThinkTagStreamSplitter.init.feed part.text).1) ∧
        (∃ failure, (start false .start).readEvents writers .base
          ((front ++ (.delta part finishes, chunk) :: back).map
            (fun chunk => chunkEvent chunk.2) ++ ending) = .error failure) ∨
      ¬EndlessLoop (contentTexts (ThinkTagStreamSplitter.init.feed part.text).1) ∧
        ∃ next, (start false .start).readEvents writers .base
          ((front ++ (.delta part finishes, chunk) :: back).map
            (fun chunk => chunkEvent chunk.2) ++ ending) = .ok (next, false) ∧
          next.finishReason = (if (front ++ (.delta part finishes, chunk) :: back).any
                fun chunk => chunk.1.finishes then .str reply.finish
              else .null) ∧
          next.collected = { Collected.start with
            messageSnapshot := firstMessage reply (deltaOf chunk)
            shown := next.collected.shown } := by
  let before := (start false .start : Reading ν).finish reply
    (front.any fun chunk => chunk.1.finishes)
  have isOk := @feedContent_isOk _ _ before part.text rfl rfl
  rw [map_append, append_assoc, readEvents_noDeltas renderedFront noFront rfl, map_cons,
    cons_append, readEvents_delta renders rfl, handleChunk_delta renders]
  cases isFed : before.feedContent (.str part.text) with
  | error failure =>
    left
    refine ⟨?_, failure, rfl⟩
    by_contra notEndless
    obtain ⟨next, fed⟩ := isOk.mpr notEndless
    rw [isFed] at fed
    cases fed
  | ok fed =>
    right
    refine ⟨isOk.mp ⟨fed, isFed⟩, ?_⟩
    have isNext := feedContent_ok isFed
    rw [Collected.showAll_eq] at isNext
    have collected : fed.collected = { Collected.start with
        shown := fed.collected.shown } := by
      rw [isNext]
      rfl
    have unfinished : fed.contentFinished = false := by
      rw [isNext]
      rfl
    have finishReason : fed.finishReason =
        if front.any fun chunk => chunk.1.finishes then .str reply.finish
        else .null := by
      rw [isNext]
      rfl
    have first : fed.collected.messageSnapshot = [] := by
      rw [collected]
      rfl
    simp only [bind, Except.bind, pure, Except.pure, handDelta_first renders hasFields first]
    rw [readEvents_noDeltas renderedBack noBack (by exact unfinished), finish_finish]
    obtain ⟨finished, ended⟩ := readEvents_ending isEnding
    refine ⟨_, ended, ?_, ?_⟩
    · rw [any_append]
      show (if _ then _ else fed.finishReason) = _
      rw [finishReason]
      cases front.any fun chunk => chunk.1.finishes with
      | false => rfl
      | true => rw [if_pos rfl, ite_self, Bool.true_or, if_pos rfl]
    · rw [collected]
      rfl

theorem handleChunk_model (handled : reading.handleChunk writers .base chunk = .ok next)
    (renders : (ChunkPart.delta part finishes).Renders reply chunk)
    (hasFields : hasDelta chunk = true) (model : RendersText before
      (Json.get reading.collected.messageSnapshot "model")) :
    RendersText (before ++ reply.model) (Json.get next.collected.messageSnapshot "model") := by
  rw [handleChunk_delta renders] at handled
  obtain ⟨fed, isFed, rest⟩ := bind_eq_ok_iff.mp handled
  obtain ⟨given, isGiven, rest⟩ := bind_eq_ok_iff.mp rest
  cases rest
  have nonempty : ¬(deltaOf chunk).isEmpty = true := by simpa [hasDelta] using hasFields
  rw [handDelta, if_neg nonempty, renders.handedDelta_eq] at isGiven
  obtain ⟨collected, handed, result⟩ := bind_eq_ok_iff.mp isGiven
  rw [mapError_eq_ok_iff] at handed
  cases result
  have kept := congrArg (fun reading => reading.collected.messageSnapshot) (feedContent_ok isFed)
  apply Collected.onDelta_model handed
  · apply PyDict.nodup_insertEntry
    rw [normalizeDelta_keys]
    exact renders.deltaOf_renders.distinct
  · rw [Json.get_put, if_pos rfl]
  · rw [kept, Collected.showAll_eq]
    exact model

theorem readEvents_model {stopped : Bool} (read : reading.readEvents writers .base
      (chunks.map (fun chunk => chunkEvent chunk.2) ++ ending) =
        .ok (next, stopped)) (isEnding : ending = [] ∨ ending = [doneEvent])
    (rendered : ∀ chunk ∈ chunks, chunk.1.Renders reply chunk.2)
    (unfinished : reading.contentFinished = false) (model : RendersText before
      (Json.get reading.collected.messageSnapshot "model")) :
    RendersText (before ++ (List.replicate
        (chunks.countP fun chunk => hasDelta chunk.2) reply.model).flatten)
      (Json.get next.collected.messageSnapshot "model") := by
  induction chunks generalizing reading before with
  | nil =>
    obtain ⟨finished, ended⟩ := @readEvents_ending _ _ writers reading _ isEnding
    rw [map_nil, nil_append, ended] at read
    cases read
    rw [countP_nil, replicate_zero, flatten_nil, append_nil]
    exact model
  | cons first rest ih =>
    obtain ⟨chunkPart, chunk⟩ := first
    rw [forall_mem_cons] at rendered
    rw [map_cons, cons_append] at read
    cases chunkPart with
    | usage =>
      have noDelta := hasDelta_of_noChoices rendered.1
      rw [readEvents_usage rendered.1] at read
      rw [countP_cons_of_neg (by simp [noDelta])]
      exact ih read rendered.2 unfinished model
    | delta part finishes =>
      rw [readEvents_delta rendered.1 unfinished] at read
      obtain ⟨middle, handled, later⟩ := bind_eq_ok_iff.mp read
      have still := handleChunk_unfinished handled unfinished
      by_cases hasFields : hasDelta chunk = true
      · rw [countP_cons_of_pos (by simpa using hasFields),
          replicate_succ, flatten_cons, ← append_assoc]
        apply ih later rendered.2 still
        exact handleChunk_model handled rendered.1 hasFields model
      · rw [countP_cons_of_neg (by simpa using hasFields)]
        rw [handleChunk_noDelta rendered.1 (by simpa using hasFields)]
          at handled
        cases handled
        exact ih later rendered.2 still model

end Reading

end WriterAgent.Framework
