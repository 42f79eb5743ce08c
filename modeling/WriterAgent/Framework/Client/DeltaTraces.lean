import WriterAgent.Framework.Client.StreamingLoop

/-!
# What a response leaves behind

The variables that a streaming call collects are written when a text is shown
or a delta is handed over.
-/

namespace WriterAgent.Framework

open PyText List

variable {ν : Type}

/-- A delta with thinking fields only, none of which says anything. -/
structure Traceless (delta : Json.Fields ν) : Prop where
  keys : ∀ field ∈ delta, field.1 ∈ thinkingDeltaKeys.map String.toList
  source : thinkingSource delta = none

variable {delta chunk : Json.Fields ν} {reading next : Reading ν}
  {writers : PyWriters ν} {shim : ProviderShim} {collected : Collected ν}
  {thinkingMeta : ThinkingMeta ν} {events : List (StreamEvent ν)} {key : String}
  {pieces : List (Bool × Text)} {stopped : Bool}

theorem Traceless.absent {delta : Json.Fields ν} (traceless : Traceless delta)
    {key : String} (other : key.toList ∉ thinkingDeltaKeys.map String.toList) :
    key.toList ∉ delta.map Prod.fst := by
  intro member
  obtain ⟨field, isField, same⟩ := mem_map.mp member
  apply other
  rw [← same]
  exact traceless.keys field isField

theorem Traceless.normalizeDelta_eq (traceless : Traceless delta) :
    normalizeDelta delta = delta := by
  have noRole := Json.has_of_absent (@Traceless.absent _ _ traceless "role" (by decide))
  have noCalls : Json.get delta "tool_calls" = .null := Json.getD_of_absent
    (@Traceless.absent _ _ traceless "tool_calls" (by decide)) _
  simp only [normalizeDelta, normalizeRole, noRole, Bool.false_and,
    Bool.false_eq_true, if_false, noCalls]

theorem Traceless.forSnapshot_eq_nil (traceless : Traceless delta) :
    Collected.forSnapshot delta = [] := by
  rw [Collected.forSnapshot, filter_eq_nil_iff]
  intro field member
  simpa using traceless.keys field member

theorem thinkingSource_eq_none_iff : thinkingSource delta = none ↔
      (∀ detail details, Json.get delta "reasoning_details" ≠ .arr (detail :: details)) ∧
      ∀ field ∈ thinkingStringFields, isNonemptyText (Json.get delta field) = false := by
  rw [thinkingSource]
  split
  · next detail details isList => simp [isList]
  · rename_i notList
    have noDetails : ∀ detail details,
        Json.get delta "reasoning_details" ≠ .arr (detail :: details) := by
      intro detail details isList
      exact notList detail details isList
    rw [and_iff_right noDetails]
    by_cases content : isNonemptyText (Json.get delta "reasoning_content") = true
    · simp [thinkingStringFields, content]
    · simp [thinkingStringFields, content]

theorem nonemptyText?_eq_none {fields : List String} (silent : ∀ field ∈ fields,
      isNonemptyText (Json.get delta field) = false) :
    nonemptyText? delta fields = none := by
  induction fields with
  | nil => rfl
  | cons field rest ih =>
    rw [forall_mem_cons] at silent
    rw [nonemptyText?]
    split
    · rename_i c s isText
      rw [isText] at silent
      cases silent.1
    · exact ih silent.2

theorem normalizeRole_keys (delta : Json.Fields ν) :
    (normalizeRole delta).map Prod.fst = delta.map Prod.fst := by
  rw [normalizeRole]
  split
  · rename_i isNull
    apply Json.keys_put
    exact Json.present_of_has (Bool.and_eq_true_iff.mp isNull).1
  · rfl

theorem normalizeDelta_keys (delta : Json.Fields ν) :
    (normalizeDelta delta).map Prod.fst = delta.map Prod.fst := by
  rw [normalizeDelta]
  split
  · rename_i calls isList
    rw [← normalizeRole_keys delta]
    apply Json.keys_put
    apply Json.present_of_get
    rw [isList]
    nofun
  · exact normalizeRole_keys delta

theorem normalizeRole_get (delta : Json.Fields ν) (noRole : key ≠ "role") :
    Json.get (normalizeRole delta) key = Json.get delta key := by
  rw [normalizeRole]
  split
  · rw [Json.get_put, if_neg noRole]
  · rfl

theorem normalizeDelta_get (delta : Json.Fields ν) (noRole : key ≠ "role")
    (noCalls : key ≠ "tool_calls") :
    Json.get (normalizeDelta delta) key = Json.get delta key := by
  rw [normalizeDelta, ← normalizeRole_get delta noRole]
  split
  · rw [Json.get_put, if_neg noCalls]
  · rfl

theorem thinkingSource_congr {left right : Json.Fields ν}
    (same : ∀ key ∈ thinkingDeltaKeys, Json.get left key = Json.get right key) :
    thinkingSource left = thinkingSource right := by
  simp only [thinkingSource, any_cons, any_nil,
    same "reasoning_details" (by decide), same "reasoning_content" (by decide),
    same "reasoning" (by decide), same "thought" (by decide),
    same "thinking" (by decide)]
  rfl

theorem normalizeDelta_source (delta : Json.Fields ν) :
    thinkingSource (normalizeDelta delta) = thinkingSource delta := by
  apply thinkingSource_congr
  intro key member
  apply normalizeDelta_get
  · rintro rfl
    revert member
    decide
  · rintro rfl
    revert member
    decide

theorem forSnapshot_ne_nil (other : ∃ field ∈ delta,
      field.1 ∉ thinkingDeltaKeys.map String.toList) :
    Collected.forSnapshot delta ≠ [] := by
  obtain ⟨field, member, notThinking⟩ := other
  apply @List.ne_nil_of_mem _ field
  rw [Collected.forSnapshot, mem_filter]
  exact ⟨member, by simpa using notThinking⟩

theorem not_traceless (notTraceless : ¬Traceless delta) :
    Collected.forSnapshot (normalizeDelta delta) ≠ [] ∨
      thinkingSource (normalizeDelta delta) ≠ none := by
  by_cases source : thinkingSource delta = none
  · left
    have other : ∃ field ∈ delta, field.1 ∉ thinkingDeltaKeys.map String.toList := by
      by_contra none
      apply notTraceless
      refine ⟨fun field member => ?_, source⟩
      by_contra notThinking
      exact none ⟨field, member, notThinking⟩
    obtain ⟨field, member, notThinking⟩ := other
    apply forSnapshot_ne_nil
    have key : field.1 ∈ (normalizeDelta delta).map Prod.fst := by
      rw [normalizeDelta_keys]
      exact mem_map_of_mem member
    obtain ⟨kept, isKept, same⟩ := mem_map.mp key
    exact ⟨kept, isKept, same ▸ notThinking⟩
  · right
    rw [normalizeDelta_source]
    exact source

/-- Something was shown, or a delta has left something behind. -/
def Collected.Touched (collected : Collected ν) : Prop :=
  collected.messageSnapshot ≠ [] ∨ collected.thinkingMeta.source ≠ none ∨ collected.shown ≠ []

theorem Collected.showAll_eq (collected : Collected ν) (pieces : List (Bool × Text)) :
    collected.showAll pieces =
      { collected with shown := collected.shown ++ pieces } := by
  induction pieces generalizing collected with
  | nil =>
    rw [append_nil]
    rfl
  | cons piece rest ih =>
    show (collected.showText piece.1 piece.2).showAll rest = _
    rw [ih, showText, append_assoc]
    rfl

theorem showAll_touched (touches : collected.Touched ∨ pieces ≠ []) :
    (collected.showAll pieces).Touched := by
  rw [Collected.showAll_eq]
  rcases touches with (snapshot | source | shown) | nonempty
  · exact .inl snapshot
  · exact .inr (.inl source)
  · exact .inr (.inr (append_ne_nil_of_left_ne_nil shown pieces))
  · exact .inr (.inr (append_ne_nil_of_right_ne_nil _ nonempty))

theorem Reading.showPiece_ok {piece : Bool × Text} (shown : reading.showPiece piece = .ok next) :
    next = { reading with
      collected := reading.collected.showText piece.1 piece.2
      lastContents := next.lastContents
      emittedAny := next.emittedAny } := by
  rw [showPiece] at shown
  dsimp only at shown
  split_ifs at shown
  · cases shown
    rfl
  · cases shown
    rfl

theorem Reading.showPieces_ok (shown : pieces.foldlM showPiece reading = .ok next) :
    next = { reading with
      collected := reading.collected.showAll pieces
      lastContents := next.lastContents
      emittedAny := next.emittedAny } := by
  induction pieces generalizing reading with
  | nil =>
    cases shown
    rfl
  | cons piece rest ih =>
    obtain ⟨middle, first, later⟩ := bind_eq_ok_iff.mp shown
    have isNext := ih later
    rw [showPiece_ok first] at isNext
    exact isNext

theorem Reading.showThinking_splitter (reading : Reading ν) (thinking : Text) :
    (reading.showThinking thinking).splitter = reading.splitter := by
  rw [showThinking]
  split <;> rfl

theorem Reading.showThinking_contentFinished (reading : Reading ν) (thinking : Text) :
    (reading.showThinking thinking).contentFinished =
      reading.contentFinished := by
  rw [showThinking]
  split <;> rfl

theorem Reading.showThinking_touched {thinking : Text}
    (touches : reading.collected.Touched ∨ thinking ≠ []) :
    (reading.showThinking thinking).collected.Touched := by
  cases thinking with
  | nil => exact touches.resolve_right (absurd rfl)
  | cons c rest => exact .inr (.inr (append_ne_nil_of_right_ne_nil _ (cons_ne_nil _ _)))

variable [PyNumber ν]

theorem thinkingTextFromDelta_of_source (noSource : thinkingSource delta = none) :
    thinkingTextFromDelta delta = .ok [] := by
  obtain ⟨noDetails, silent⟩ := thinkingSource_eq_none_iff.mp noSource
  rw [thinkingTextFromDelta, nonemptyText?_eq_none silent]
  dsimp only
  split
  · rename_i items isList
    cases items with
    | nil => rfl
    | cons detail details => exact absurd isList (noDetails detail details)
  · rfl

theorem accumulateStreamingThinking_of_source (noSource : thinkingSource delta = none)
    (textParts : List Text) (thinkingMeta : ThinkingMeta ν) :
    accumulateStreamingThinking textParts thinkingMeta delta = .ok (textParts, thinkingMeta) := by
  have noDetails := (thinkingSource_eq_none_iff.mp noSource).1
  rw [accumulateStreamingThinking, noSource, thinkingTextFromDelta_of_source noSource]
  cases details : Json.get delta "reasoning_details" with
  | arr items =>
    cases items with
    | nil => simp [bind, Except.bind, pure, Except.pure]
    | cons detail rest => exact absurd details (noDetails detail rest)
  | _ => simp [bind, Except.bind, pure, Except.pure]

theorem onDelta_of_traceless (traceless : Traceless delta) (collected : Collected ν) :
    collected.onDelta delta = .ok collected := by
  have noModel := Json.has_of_absent (@Traceless.absent _ _ traceless "model" (by decide))
  have thinking := accumulateStreamingThinking_of_source traceless.source
    collected.thinkingParts collected.thinkingMeta
  simp only [Collected.onDelta, traceless.normalizeDelta_eq, thinking,
    traceless.forSnapshot_eq_nil, accumulateDelta, noModel, bind, Except.bind,
    pure, Except.pure, Bool.false_and, Bool.false_eq_true, if_false]

theorem start_not_touched : ¬(Collected.start : Collected ν).Touched := by
  rintro (snapshot | source | shown)
  · exact snapshot rfl
  · exact source rfl
  · exact shown rfl

theorem addDetail_source (found : thinkingMeta.source ≠ none) (detail : Json ν) :
    (thinkingMeta.addDetail detail).source ≠ none := by
  cases detail with
  | obj item =>
    rw [ThinkingMeta.addDetail]
    split
    · exact Option.some_ne_none _
    · exact found
  | _ => exact found

theorem foldl_addDetail_source {details : List (Json ν)} (found : thinkingMeta.source ≠ none) :
    (details.foldl .addDetail thinkingMeta).source ≠ none := by
  induction details generalizing thinkingMeta with
  | nil => exact found
  | cons detail rest ih => exact ih (addDetail_source found detail)

theorem accumulateStreamingThinking_source {textParts : List Text}
    {result : List Text × ThinkingMeta ν}
    (accumulated : accumulateStreamingThinking textParts thinkingMeta delta =
      .ok result) (found : thinkingMeta.source ≠ none ∨ thinkingSource delta ≠ none) :
    result.2.source ≠ none := by
  have sourced : (thinkingMeta.source <|> thinkingSource delta) ≠ none := by
    cases before : thinkingMeta.source with
    | some source => exact Option.some_ne_none source
    | none => simpa [before] using found
  obtain ⟨chunk, -, rest⟩ := bind_eq_ok_iff.mp accumulated
  cases details : Json.get delta "reasoning_details" with
  | arr items =>
    simp only [details] at rest
    cases rest
    exact foldl_addDetail_source sourced
  | _ =>
    simp only [details] at rest
    cases rest
    exact sourced

theorem onDelta_ok {next : Collected ν} (handed : collected.onDelta delta = .ok next) :
    accumulateStreamingThinking collected.thinkingParts collected.thinkingMeta
        (normalizeDelta delta) = .ok (next.thinkingParts, next.thinkingMeta) ∧
      (collected.messageSnapshot ≠ [] ∨ Collected.forSnapshot (normalizeDelta delta) ≠ [] →
        next.messageSnapshot ≠ []) ∧
      next.shown = collected.shown := by
  obtain ⟨⟨thinkingParts, thinkingMeta⟩, thought, rest⟩ :=
    bind_eq_ok_iff.mp handed
  obtain ⟨snapshot, merged, rest⟩ := bind_eq_ok_iff.mp rest
  cases rest
  refine ⟨thought, fun nonempty => ?_, rfl⟩
  split
  · exact Json.put_ne_nil _ _ _
  · exact accumulateDelta_ne_nil merged nonempty

theorem onDelta_touched {next : Collected ν} (handed : collected.onDelta delta = .ok next)
    (touches : collected.Touched ∨ ¬Traceless delta) : next.Touched := by
  obtain ⟨thought, snapshot, shown⟩ := onDelta_ok handed
  have source := accumulateStreamingThinking_source thought
  rcases touches with (had | found | some) | notTraceless
  · exact .inl (snapshot (.inl had))
  · exact .inr (.inl (source (.inl found)))
  · exact .inr (.inr (shown ▸ some))
  · rcases not_traceless notTraceless with adds | found
    · exact .inl (snapshot (.inr adds))
    · exact .inr (.inl (source (.inr found)))

def fedContent (splitter : ThinkTagStreamSplitter) :
    Json ν → List (Bool × Text) × ThinkTagStreamSplitter
  | .str text => splitter.feed text
  | _ => ([], splitter)

/-- A chunk that shows no text and hands over nothing. -/
structure SilentChunk (writers : PyWriters ν) (splitter : ThinkTagStreamSplitter)
    (chunk : Json.Fields ν) (parsed : ParsedChunk ν) : Prop where
  thinking : parsed.thinking = []
  pieces : (fedContent splitter parsed.content).1 = []
  delta : parsed.delta = [] ∨ Traceless (Reading.handedDelta writers chunk parsed.delta)

namespace Reading

theorem feedContent_ok {content : Json ν} (fed : reading.feedContent content = .ok next) :
    next = { reading with
      collected := reading.collected.showAll (fedContent reading.splitter content).1
      splitter := (fedContent reading.splitter content).2
      lastContents := next.lastContents
      emittedAny := next.emittedAny } := by
  unfold feedContent at fed
  cases content with
  | str text =>
    cases text with
    | nil =>
      cases fed
      rfl
    | cons c text => exact showPieces_ok fed
  | _ =>
    split_ifs at fed
    cases fed
    rfl

theorem handDelta_ok (handed : reading.handDelta writers chunk delta = .ok next) :
    next.splitter = reading.splitter ∧ next.contentFinished = reading.contentFinished ∧
      (delta = [] ∨ Traceless (handedDelta writers chunk delta) →
        next.collected = reading.collected) ∧
      (reading.collected.Touched ∨ ¬(delta = [] ∨ Traceless (handedDelta writers chunk delta)) →
        next.collected.Touched) := by
  cases delta with
  | nil =>
    cases handed
    refine ⟨rfl, rfl, fun _ => rfl, fun touches => ?_⟩
    exact touches.resolve_right (not_not_intro (.inl rfl))
  | cons field rest =>
    obtain ⟨collected, onDelta, result⟩ := bind_eq_ok_iff.mp handed
    rw [mapError_eq_ok_iff] at onDelta
    cases result
    refine ⟨rfl, rfl, fun silent => ?_, fun touches => ?_⟩
    · have traceless := silent.resolve_left (cons_ne_nil field rest)
      rw [onDelta_of_traceless traceless] at onDelta
      cases onDelta
      rfl
    · apply onDelta_touched onDelta
      exact touches.imp_right fun notSilent traceless =>
        notSilent (.inr traceless)

theorem handleChunk_ok (handled : reading.handleChunk writers shim chunk = .ok next) :
    ∃ parsed, shim.parseResponseChunk writers chunk = .ok parsed ∧
      next.splitter = (fedContent reading.splitter parsed.content).2 ∧
      next.contentFinished = reading.contentFinished ∧
      (SilentChunk writers reading.splitter chunk parsed → next.collected = reading.collected) ∧
      (reading.collected.Touched ∨ ¬SilentChunk writers reading.splitter chunk parsed →
        next.collected.Touched) := by
  obtain ⟨parsed, isParsed, rest⟩ := bind_eq_ok_iff.mp handled
  rw [mapError_eq_ok_iff] at isParsed
  split at rest
  · cases rest
  · obtain ⟨fed, isFed, rest⟩ := bind_eq_ok_iff.mp rest
    obtain ⟨given, isGiven, rest⟩ := bind_eq_ok_iff.mp rest
    cases rest
    have isNext := feedContent_ok isFed
    have fedCollected := congrArg collected isNext
    have fedSplitter := congrArg splitter isNext
    have fedFinished := congrArg contentFinished isNext
    rw [showThinking_splitter] at fedSplitter fedCollected
    obtain ⟨splitter, finished, kept, touched⟩ := handDelta_ok isGiven
    refine ⟨parsed, isParsed, splitter.trans fedSplitter, ?_, ?_, ?_⟩
    · rw [finished, fedFinished, showThinking_contentFinished]
    · intro silent
      rw [kept silent.delta, fedCollected, silent.pieces, silent.thinking]
      rfl
    · rintro (before | notSilent)
      · apply touched
        left
        rw [fedCollected]
        apply showAll_touched
        left
        exact showThinking_touched (.inl before)
      · apply touched
        by_cases thinking : parsed.thinking = []
        · by_cases pieces : (fedContent reading.splitter parsed.content).1 = []
          · right
            intro delta
            exact notSilent ⟨thinking, pieces, delta⟩
          · left
            rw [fedCollected]
            exact showAll_touched (.inr pieces)
        · left
          rw [fedCollected]
          apply showAll_touched
          left
          exact showThinking_touched (.inr thinking)

/-- The payloads up to `[DONE]` are silent. -/
def SilentEvents (writers : PyWriters ν) (shim : ProviderShim)
    (splitter : ThinkTagStreamSplitter) : List (StreamEvent ν) → Prop
  | [] => True
  | event :: rest =>
    match event.payload with
    | .done => True
    | .json (.obj chunk) =>
      if (Json.getD chunk "choices" (.arr [])).truthy then
        match shim.parseResponseChunk writers chunk with
        | .ok parsed => SilentChunk writers splitter chunk parsed ∧
            SilentEvents writers shim (fedContent splitter parsed.content).2 rest
        | .error _ => True
      else SilentEvents writers shim splitter rest
    | _ => SilentEvents writers shim splitter rest

theorem readEvents_finished (read : reading.readEvents writers shim events = .ok (next, stopped))
    (finished : reading.contentFinished = true) :
    next.collected = reading.collected := by
  induction events generalizing reading with
  | nil =>
    cases read
    rfl
  | cons event rest ih =>
    rw [readEvents] at read
    split at read
    · exact @ih { reading with contentFinished := true } read rfl
    · rw [if_pos finished] at read
      exact ih read finished
    · exact ih read finished

theorem readEvents_touched (read : reading.readEvents writers shim events = .ok (next, stopped))
    (touched : reading.collected.Touched) : next.collected.Touched := by
  induction events generalizing reading with
  | nil =>
    cases read
    exact touched
  | cons event rest ih =>
    rw [readEvents] at read
    split at read
    · exact @ih { reading with contentFinished := true } read touched
    · split_ifs at read
      · exact ih read touched
      · cases read
        exact touched
      · exact ih read touched
      · obtain ⟨middle, handled, later⟩ := bind_eq_ok_iff.mp read
        obtain ⟨_, _, _, _, _, stays⟩ := handleChunk_ok handled
        exact ih later (stays (.inl touched))
    · exact ih read touched

theorem readEvents_silent (read : reading.readEvents writers shim events = .ok (next, false))
    (unfinished : reading.contentFinished = false) :
    (SilentEvents writers shim reading.splitter events → next.collected = reading.collected) ∧
      (¬SilentEvents writers shim reading.splitter events → next.collected.Touched) := by
  induction events generalizing reading with
  | nil =>
    cases read
    exact ⟨fun _ => rfl, fun notSilent => absurd trivial notSilent⟩
  | cons event rest ih =>
    rw [readEvents] at read
    rw [SilentEvents]
    cases payload : event.payload with
    | done =>
      simp only [payload] at read
      have ended := readEvents_finished read rfl
      exact ⟨fun _ => ended, fun notSilent => absurd trivial notSilent⟩
    | unreadable =>
      simp only [payload] at read
      exact ih read unfinished
    | json value =>
      cases value with
      | obj chunk =>
        simp only [payload, unfinished, Bool.false_eq_true, if_false] at read
        split_ifs at read
        · cases read
        · rename_i noChoices
          have falsy : (Json.getD chunk "choices"
              (.arr [])).truthy = false := by simpa using noChoices
          simp only [falsy, Bool.false_eq_true, if_false]
          exact ih read unfinished
        · rename_i choices
          have truthy : (Json.getD chunk "choices"
              (.arr [])).truthy = true := by simpa using choices
          obtain ⟨middle, handled, later⟩ :=
            bind_eq_ok_iff.mp read
          obtain ⟨parsed, isParsed, splitter, finished, kept, touches⟩ := handleChunk_ok handled
          have rest := ih later (finished.trans unfinished)
          simp only [truthy, if_true, isParsed]
          rw [splitter] at rest
          constructor
          · intro silent
            rw [rest.1 silent.2, kept silent.1]
          · intro notSilent
            by_cases isSilent : SilentChunk writers reading.splitter chunk parsed
            · apply rest.2
              intro later
              exact notSilent ⟨isSilent, later⟩
            · exact readEvents_touched later (touches (.inr isSilent))
      | _ =>
        simp only [payload] at read
        exact ih read unfinished

end Reading

end WriterAgent.Framework
