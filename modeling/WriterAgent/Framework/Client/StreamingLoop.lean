import WriterAgent.Foundations.Attempts
import WriterAgent.Framework.Client.ProviderShims
import WriterAgent.Framework.ThinkTagStreamSplitter

/-!
# Merging the deltas of a stream

`accumulate_delta` in `plugin/framework/async_stream.py` merges the delta of a
chunk into the message so far: strings are concatenated, numbers are added,
dictionaries are merged and the entries of a list are merged by their `index`.
-/

namespace WriterAgent.Framework

open PyText List

variable {ν : Type}
variable {acc merged delta : Json.Fields ν}

/-- The place that `items[index]` reads; an index below 0 counts from the
end. -/
def listIndex? (items : List (Json ν)) (index : ℤ) : Option ℕ :=
  let place := if index < 0 then index + items.length else index
  if 0 ≤ place ∧ place < items.length then some place.toNat else none

/-- `items.insert(index, item)`; a place outside the list is its nearest
end. -/
def listInsert (items : List (Json ν)) (index : ℤ) (item : Json ν) : List (Json ν) :=
  let place := if index < 0 then index + items.length else index
  items.insertIdx (min place.toNat items.length) item

variable [PyNumber ν]

/-- `isinstance(item, (str, int, float))`. -/
def isScalar : Json ν → Bool
  | .str _ | .bool _ | .num _ => true
  | _ => false

/-- `accValue += deltaValue` on two numbers; otherwise the value stays. -/
def addNumbers (accValue deltaValue : Json ν) : Json ν :=
  match accValue.toNumber?, deltaValue.toNumber? with
  | some left, some right => .num (PyNumber.add left right)
  | _, _ => accValue

mutual

def accumulateDelta (acc : Json.Fields ν) : Json.Fields ν → Except PyException (Json.Fields ν)
  | [] => .ok acc
  | (key, deltaValue) :: rest =>
    match PyDict.lookup key acc with
    | none | some .null => accumulateDelta (PyDict.insertEntry key deltaValue acc) rest
    | some accValue =>
      if key = "index".toList ∨ key = "type".toList then
        accumulateDelta (PyDict.insertEntry key deltaValue acc) rest
      else do
        let merged ← mergeValue accValue deltaValue
        accumulateDelta (PyDict.insertEntry key merged acc) rest

def mergeValue (accValue : Json ν) : Json ν → Except PyException (Json ν)
  | .null => .ok accValue
  | .bool b => .ok (addNumbers accValue (.bool b))
  | .num n => .ok (addNumbers accValue (.num n))
  | .str deltaText =>
    match accValue with
    | .str accText => .ok (.str (accText ++ deltaText))
    | _ => .ok accValue
  | .obj deltaFields =>
    match accValue with
    | .obj accFields => do
      let merged ← accumulateDelta accFields deltaFields
      return .obj merged
    | _ => .ok accValue
  | .arr deltaItems =>
    match accValue with
    | .arr accItems =>
      if accItems.all isScalar then .ok (.arr (accItems ++ deltaItems))
      else do
        let merged ← mergeEntries accItems deltaItems
        return .arr merged
    | _ => .ok accValue

/-- The loop over the entries of a list, each of which has an `index`. -/
def mergeEntries (accItems : List (Json ν)) : List (Json ν) → Except PyException (List (Json ν))
  | [] => .ok accItems
  | .obj entry :: rest =>
    match PyDict.lookup "index".toList entry with
    | none => .error .runtimeError
    | some index =>
      match index.toInt? with
      | none => .error .typeError
      | some index =>
        match listIndex? accItems index with
        | none => mergeEntries (listInsert accItems index (.obj entry)) rest
        | some place =>
          match accItems[place]? with
          | some (.obj accEntry) => do
            let merged ← accumulateDelta accEntry entry
            mergeEntries (accItems.set place (.obj merged)) rest
          | _ => .error .typeError
  | _ :: _ => .error .typeError

end

theorem accumulateDelta_cons {rest : Json.Fields ν} {key : Text} {deltaValue : Json ν}
    (accumulated : accumulateDelta acc ((key, deltaValue) :: rest) =       .ok merged) :
    ∃ value, accumulateDelta (PyDict.insertEntry key value acc) rest = .ok merged ∧
      (((PyDict.lookup key acc).getD .null = .null ∨ key = "index".toList ∨ key = "type".toList) ∧
          value = deltaValue ∨
        (PyDict.lookup key acc).getD .null ≠ .null ∧
          mergeValue ((PyDict.lookup key acc).getD .null) deltaValue = .ok value) := by
  rw [accumulateDelta] at accumulated
  split at accumulated
  · next absent => exact ⟨deltaValue, accumulated, .inl ⟨.inl (by
      rw [absent]; rfl), rfl⟩⟩
  · next isNull => exact ⟨deltaValue, accumulated, .inl ⟨.inl (by
      rw [isNull]; rfl), rfl⟩⟩
  · rename_i accValue notNull found
    rw [found]
    split at accumulated
    · rename_i replaced
      exact ⟨deltaValue, accumulated, .inl ⟨.inr replaced, rfl⟩⟩
    · obtain ⟨value, isMerged, later⟩ := bind_eq_ok_iff.mp accumulated
      exact ⟨value, later, .inr ⟨notNull, isMerged⟩⟩

theorem accumulateDelta_ne_nil (accumulated : accumulateDelta acc delta = .ok merged)
    (nonempty : acc ≠ [] ∨ delta ≠ []) : merged ≠ [] := by
  induction delta generalizing acc with
  | nil =>
    cases accumulated
    exact nonempty.resolve_right (absurd rfl)
  | cons field rest ih =>
    obtain ⟨value, later, -⟩ := accumulateDelta_cons accumulated
    exact ih later (.inl (Json.insertEntry_ne_nil field.1 value acc))

theorem accumulateDelta_append (distinct : ((acc ++ delta).map Prod.fst).Nodup) :
    accumulateDelta acc delta = .ok (acc ++ delta) := by
  induction delta generalizing acc with
  | nil => rw [accumulateDelta, append_nil]
  | cons field rest ih =>
    obtain ⟨key, value⟩ := field
    have isNew : key ∉ acc.map Prod.fst := by
      rw [map_append, nodup_append] at distinct
      intro member
      exact distinct.2.2 key member key mem_cons_self rfl
    rw [accumulateDelta, PyDict.lookup_eq_none.mpr isNew]
    rw [PyDict.insertEntry_of_notMem isNew, ih, append_assoc]
    · rfl
    · simpa using distinct

theorem accumulateDelta_rendersText {key : String} {before piece : Text}
    (accumulated : accumulateDelta acc delta = .ok merged) (distinct : (delta.map Prod.fst).Nodup)
    (merges : key ≠ "index" ∧ key ≠ "type") (ofAcc : RendersText before (Json.get acc key))
    (ofDelta : RendersText piece (Json.get delta key)) :
    RendersText (before ++ piece) (Json.get merged key) := by
  induction delta generalizing acc before piece with
  | nil =>
    cases accumulated
    rw [ofDelta.eq_nil, append_nil]
    exact ofAcc
  | cons field rest ih =>
    obtain ⟨first, deltaValue⟩ := field
    rw [map_cons, nodup_cons] at distinct
    obtain ⟨value, later, cases⟩ := accumulateDelta_cons accumulated
    by_cases same : first = key.toList
    · subst same
      have noMore : Json.get rest key = .null :=
        Json.getD_of_absent distinct.1 .null
      have isValue : Json.get (Json.put acc key value) key = value := by
        rw [Json.get_put, if_pos rfl]
      have isDelta : Json.get ((key.toList, deltaValue) :: rest) key =
          deltaValue := by
        simp [Json.get, Json.getD, PyDict.lookup]
      rw [isDelta] at ofDelta
      have ofValue : RendersText (before ++ piece) value := by
        rcases cases with ⟨isNull | isIndex | isType, rfl⟩ | ⟨notNull, isMerged⟩
        · change Json.get acc key = .null at isNull
          rw [isNull] at ofAcc
          rw [ofAcc.eq_nil]
          exact ofDelta
        · exact absurd (String.toList_injective isIndex) merges.1
        · exact absurd (String.toList_injective isType) merges.2
        · have isText := ofAcc.resolve_right fun isNull => notNull isNull.2
          have merged : mergeValue (.str before) deltaValue = .ok value :=
            isText ▸ isMerged
          rcases ofDelta with rfl | ⟨rfl, rfl⟩
          · cases merged
            exact .inl rfl
          · cases merged
            rw [append_nil]
            exact .inl rfl
      rw [← append_nil (before ++ piece)]
      apply ih later distinct.2
      · exact isValue.symm ▸ ofValue
      · rw [noMore]
        exact .inr ⟨rfl, rfl⟩
    · apply ih later distinct.2
      · have kept : Json.get (PyDict.insertEntry first value acc) key = Json.get acc key := by
          rw [Json.get, Json.getD, PyDict.lookup_insertEntry, if_neg (Ne.symm same)]
          rfl
        rw [kept]
        exact ofAcc
      · have later : Json.get ((first, deltaValue) :: rest) key = Json.get rest key := by
          simp [Json.get, Json.getD, PyDict.lookup, same]
        rw [← later]
        exact ofDelta

end WriterAgent.Framework

/-!
## The streaming loop of the client

`_run_streaming_loop` in `plugin/framework/client/llm_client.py` sends the
request, reads the chunks of the response and sends the request again when
that failed.  `on_delta` of `request_with_tools` collects the deltas, in
variables that live as long as the call.  How long the loop waits between two
attempts is left out.
-/

namespace WriterAgent.Framework

open PyText

variable {ν : Type}

def retryMaxAttempts : ℕ := 3
def retryableHttpStatus : List ℕ := [429, 503]
def repeatedStreamingChunkLimit : ℕ := 20

/-- Why the loop raises: the code of the `NetworkError`, or the exception that
it wraps. -/
inductive StreamFailure where
  | streamError
  | infiniteLoop
  | connectionLost
  | connectionError
  | httpError (status : ℕ)
  | unexpected (exception : PyException)
  deriving DecidableEq, Repr

/-- The variables that `on_delta` fills, and the texts given to the two
callbacks in order, those of the thinking callback marked. -/
structure Collected (ν : Type) where
  messageSnapshot : Json.Fields ν
  thinkingParts : List Text
  thinkingMeta : ThinkingMeta ν
  shown : List (Bool × Text)

structure Reading (ν : Type) where
  contentFinished : Bool
  lastContents : List Text
  splitter : ThinkTagStreamSplitter
  finishReason : Json ν
  emittedAny : Bool
  collected : Collected ν

variable [PyNumber ν]

namespace Collected

def start : Collected ν where
  messageSnapshot := []
  thinkingParts := []
  thinkingMeta := newStreamingThinkingMeta
  shown := []

def showText (collected : Collected ν) (isThink : Bool) (text : Text) : Collected ν :=
  { collected with shown := collected.shown ++ [(isThink, text)] }

def showAll (collected : Collected ν) (pieces : List (Bool × Text)) : Collected ν :=
  pieces.foldl (fun collected piece => collected.showText piece.1 piece.2) collected

def forSnapshot (delta : Json.Fields ν) : Json.Fields ν :=
  delta.filter fun field =>
    !(thinkingDeltaKeys.map String.toList).contains field.1

def onDelta (collected : Collected ν) (delta : Json.Fields ν) :
    Except PyException (Collected ν) := do
  let delta := normalizeDelta delta
  let (thinkingParts, thinkingMeta) ← accumulateStreamingThinking
    collected.thinkingParts collected.thinkingMeta delta
  let snapshot ← accumulateDelta collected.messageSnapshot (forSnapshot delta)
  let snapshot := if Json.has delta "model" && !Json.has snapshot "model" then
      Json.put snapshot "model" (Json.get delta "model")
    else snapshot
  return { collected with
    messageSnapshot := snapshot
    thinkingParts := thinkingParts
    thinkingMeta := thinkingMeta }

end Collected

/-- A payload of the stream: `[DONE]`, a text that is no JSON, or JSON. -/
inductive EventPayload (ν : Type) where
  | done
  | unreadable
  | json (value : Json ν)

/-- A payload, and whether Stop was requested when it was read. -/
structure StreamEvent (ν : Type) where
  stopRequested : Bool
  payload : EventPayload ν

namespace Reading

def start (emittedAny : Bool) (collected : Collected ν) : Reading ν where
  contentFinished := false
  lastContents := []
  splitter := .init
  finishReason := .null
  emittedAny := emittedAny
  collected := collected

/-- A piece of text goes to one of the callbacks; the same piece of content
again and again is taken for an endless loop. -/
def showPiece (reading : Reading ν) (piece : Bool × Text) : Except StreamFailure (Reading ν) :=
  let collected := reading.collected.showText piece.1 piece.2
  if piece.1 then .ok { reading with collected := collected }
  else
    let contents := reading.lastContents ++ [piece.2]
    let lastContents :=
      contents.drop (contents.length - repeatedStreamingChunkLimit)
    if lastContents.length = repeatedStreamingChunkLimit ∧ piece.2.length > 2 ∧
        (lastContents.all fun text => lastContents.head? == some text) then
      .error .infiniteLoop
    else
      .ok { reading with
        collected := collected
        lastContents := lastContents
        emittedAny := reading.emittedAny || !piece.2.isEmpty }

def showThinking (reading : Reading ν) (thinking : Text) : Reading ν :=
  if thinking.isEmpty then reading
  else
    { reading with
      collected := reading.collected.showText true thinking
      emittedAny := true }

def feedContent (reading : Reading ν) (content : Json ν) : Except StreamFailure (Reading ν) :=
  if !content.truthy then .ok reading
  else
    match content with
    | .str text =>
      let (pieces, splitter) := reading.splitter.feed text
      pieces.foldlM showPiece { reading with splitter := splitter }
    | _ => .error (.unexpected .typeError)

/-- The delta that is handed to `on_delta`: each names the model of its
chunk. -/
def handedDelta (writers : PyWriters ν) (chunk delta : Json.Fields ν) : Json.Fields ν :=
  let delta := normalizeDelta delta
  let chunkModel := Json.get chunk "model"
  if chunkModel.truthy && !Json.has delta "model" then
    Json.put delta "model" (.str (writers.text chunkModel))
  else delta

def handDelta (writers : PyWriters ν) (chunk delta : Json.Fields ν)
    (reading : Reading ν) : Except StreamFailure (Reading ν) :=
  if delta.isEmpty then .ok reading
  else do
    let collected ← (reading.collected.onDelta
      (handedDelta writers chunk delta)).mapError .unexpected
    return { reading with collected := collected }

def handleChunk (writers : PyWriters ν) (shim : ProviderShim)
    (reading : Reading ν) (chunk : Json.Fields ν) :
    Except StreamFailure (Reading ν) := do
  let parsed ← (shim.parseResponseChunk writers chunk).mapError .unexpected
  if parsed.finishReason.isText "error" then .error .streamError
  else do
    let reading ← (reading.showThinking parsed.thinking).feedContent parsed.content
    let reading ← reading.handDelta writers chunk parsed.delta
    return { reading with
      finishReason := if parsed.finishReason.truthy then parsed.finishReason
        else reading.finishReason }

def readEvents (writers : PyWriters ν) (shim : ProviderShim) (reading : Reading ν) :
    List (StreamEvent ν) → Except StreamFailure (Reading ν × Bool)
  | [] => .ok (reading, false)
  | event :: rest =>
    match event.payload with
    | .done => readEvents writers shim { reading with contentFinished := true } rest
    | .json (.obj chunk) =>
      if reading.contentFinished then readEvents writers shim reading rest
      else if event.stopRequested then .ok (reading, true)
      else if !(Json.getD chunk "choices" (.arr [])).truthy then
        readEvents writers shim reading rest
      else do
        let reading ← reading.handleChunk writers shim chunk
        readEvents writers shim reading rest
    | _ => readEvents writers shim reading rest

def flush (reading : Reading ν) : Collected ν :=
  reading.collected.showAll reading.splitter.flush.1

end Reading

/-- What happens to a request: Stop during the wait before it is sent, a
connection that fails, an answer with another status than 200, or one with a
body. -/
inductive Exchange (β : Type) where
  | aborted
  | connectionFailed
  | refused (status : ℕ) (bodyBroken : Bool)
  | answered (body : β)

/-- An attempt: whether Stop was requested before it, after a connection
error or in the wait for the next attempt, and whether a connection error
turned off the certificate check of a local host. -/
structure Attempt (β : Type) where
  stopBefore : Bool
  exchange : Exchange β
  stopOnError : Bool
  certificateFallback : Bool
  stopInWait : Bool

inductive RetryAction where
  | retry
  | stop
  | raise
  deriving DecidableEq, Repr

namespace Attempt

variable {β : Type}

def sends (attempt : Attempt β) : Bool :=
  match attempt.exchange with
  | .aborted => false
  | _ => !attempt.stopBefore

def handleConnectionError (attempt : Attempt β) (retriesLeft : ℤ) :
    RetryAction :=
  if attempt.stopOnError then .stop
  else if retriesLeft > 0 then
    if attempt.certificateFallback then .retry
    else if attempt.stopInWait then .stop
    else .retry
  else .raise

def retryOrRaiseHttpError (attempt : Attempt β) (status : ℕ)
    (retriesLeft : ℤ) (emittedAny : Bool) : RetryAction :=
  if retryableHttpStatus.contains status && decide (retriesLeft > 0) && !emittedAny then
    if attempt.stopInWait then .stop else .retry
  else .raise

end Attempt

/-- A response that is read until it ends or the connection breaks. -/
structure StreamedBody (ν : Type) where
  events : List (StreamEvent ν)
  broken : Bool

structure StreamingLoop (ν : Type) where
  sendsLeft : ℤ
  emittedAny : Bool
  collected : Collected ν

/-- How `_run_streaming_loop` ends: at Stop, at the end of a response or with
an exception. -/
inductive LoopEnd (ν : Type) where
  | stopped (collected : Collected ν)
  | finished (finishReason : Json ν) (collected : Collected ν)
  | raised (failure : StreamFailure)

namespace StreamingLoop

def start : StreamingLoop ν where
  sendsLeft := retryMaxAttempts
  emittedAny := false
  collected := .start

def follow (loop : StreamingLoop ν) (failure : StreamFailure) :
    RetryAction → StreamingLoop ν ⊕ LoopEnd ν
  | .retry => .inl loop
  | .stop => .inr (.stopped loop.collected)
  | .raise => .inr (.raised failure)

/-- The handler of `CONNECTION_ERRORS`. -/
def connectionFailed (loop : StreamingLoop ν)
    (attempt : Attempt (StreamedBody ν)) : StreamingLoop ν ⊕ LoopEnd ν :=
  if loop.emittedAny then .inr (.raised .connectionLost)
  else
    let loop := { loop with sendsLeft := loop.sendsLeft - 1 }
    loop.follow .connectionError (attempt.handleConnectionError loop.sendsLeft)

def tryAttempt (writers : PyWriters ν) (shim : ProviderShim)
    (loop : StreamingLoop ν) (attempt : Attempt (StreamedBody ν)) :
    StreamingLoop ν ⊕ LoopEnd ν :=
  if attempt.stopBefore then .inr (.stopped loop.collected)
  else
    match attempt.exchange with
    | .aborted => .inr (.stopped loop.collected)
    | .connectionFailed => loop.connectionFailed attempt
    | .refused status bodyBroken =>
      let loop := { loop with sendsLeft := loop.sendsLeft - 1 }
      if bodyBroken then loop.connectionFailed attempt
      else
        loop.follow (.httpError status) (attempt.retryOrRaiseHttpError
          status loop.sendsLeft loop.emittedAny)
    | .answered body =>
      match (Reading.start loop.emittedAny loop.collected).readEvents writers shim body.events with
      | .error failure => .inr (.raised failure)
      | .ok (reading, true) => .inr (.stopped reading.flush)
      | .ok (reading, false) =>
        if body.broken then
          connectionFailed { loop with
            emittedAny := reading.emittedAny
            collected := reading.collected } attempt
        else .inr (.finished reading.finishReason reading.flush)

end StreamingLoop

end WriterAgent.Framework
