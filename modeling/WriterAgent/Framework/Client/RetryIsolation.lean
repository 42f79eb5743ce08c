import WriterAgent.Framework.Client.DeltaTraces
import WriterAgent.Framework.Client.RequestWithTools

/-!
# Retries and what they leave behind

A streaming call keeps its variables when it sends the request again, so the
answer is that of the last attempt alone only when the abandoned attempts have
left nothing behind.
-/

namespace WriterAgent.Framework

open PyText

variable {ν : Type}
variable {β : Type} {loop next before : StreamingLoop ν}
  {attempt last : Attempt (StreamedBody ν)} {finishReason : Json ν}
  {collected : Collected ν} {failure : StreamFailure} {action : RetryAction}
  {writers : PyWriters ν} {shim : ProviderShim} {client : ChatClient ν}
  {attempts : List (Attempt (StreamedBody ν))} {ending : LoopEnd ν}

theorem Attempt.handleConnectionError_retry {attempt : Attempt β} {retriesLeft : ℤ}
    (retries : attempt.handleConnectionError retriesLeft = .retry) : 0 < retriesLeft := by
  rw [handleConnectionError] at retries
  split at retries
  · cases retries
  · split at retries
    · assumption
    · cases retries

theorem Attempt.retryOrRaiseHttpError_retry {attempt : Attempt β} {status : ℕ}
    {retriesLeft : ℤ} {emittedAny : Bool}
    (retries : attempt.retryOrRaiseHttpError status retriesLeft emittedAny =
      .retry) : 0 < retriesLeft ∧ emittedAny = false := by
  rw [retryOrRaiseHttpError] at retries
  split_ifs at retries with allowed
  simp only [Bool.and_eq_true, decide_eq_true_eq, Bool.not_eq_true'] at allowed
  exact ⟨allowed.1.2, allowed.2⟩

theorem StreamingLoop.follow_again (again : loop.follow failure action = .inl next) :
    action = .retry ∧ next = loop := by
  cases action with
  | retry =>
    cases again
    exact ⟨rfl, rfl⟩
  | stop | raise => cases again

theorem StreamingLoop.connectionFailed_again (again : loop.connectionFailed attempt = .inl next) :
    next.sendsLeft < loop.sendsLeft ∧ 0 < next.sendsLeft ∧
      next.emittedAny = false ∧ next.collected = loop.collected := by
  rw [connectionFailed] at again
  split_ifs at again with notEmitted
  obtain ⟨retries, rfl⟩ := follow_again again
  refine ⟨by dsimp only; omega, ?_, by simpa using notEmitted, rfl⟩
  exact Attempt.handleConnectionError_retry retries

theorem StreamingLoop.follow_not_finished :
    loop.follow failure action ≠ .inr (.finished finishReason collected) := by
  cases action <;> nofun

theorem StreamingLoop.connectionFailed_not_finished : loop.connectionFailed attempt ≠
      .inr (.finished finishReason collected) := by
  intro ended
  rw [connectionFailed] at ended
  split at ended
  · cases ended
  · exact follow_not_finished ended

variable [PyNumber ν]

/-- An attempt that showed no text and handed over nothing. -/
def Attempt.Silent (writers : PyWriters ν) (shim : ProviderShim)
    (attempt : Attempt (StreamedBody ν)) : Prop :=
  match attempt.exchange with
  | .answered body => Reading.SilentEvents writers shim .init body.events
  | _ => True

namespace StreamingLoop

theorem tryAttempt_again (again : loop.tryAttempt writers shim attempt = .inl next) :
    next.sendsLeft < loop.sendsLeft ∧ 0 < next.sendsLeft ∧ next.emittedAny = false ∧
      (attempt.Silent writers shim → next.collected = loop.collected) ∧
      (loop.collected.Touched ∨ ¬attempt.Silent writers shim → next.collected.Touched) := by
  rw [tryAttempt] at again
  rw [Attempt.Silent]
  split_ifs at again
  cases exchange : attempt.exchange with
  | aborted =>
    simp only [exchange] at again
    cases again
  | connectionFailed =>
    simp only [exchange] at again
    obtain ⟨fewer, left, emitted, same⟩ := connectionFailed_again again
    refine ⟨fewer, left, emitted, fun _ => same, fun touches => ?_⟩
    exact same ▸ touches.resolve_right (not_not_intro trivial)
  | refused status bodyBroken =>
    simp only [exchange] at again
    cases bodyBroken with
    | true =>
      obtain ⟨fewer, left, emitted, same⟩ := connectionFailed_again again
      refine ⟨by simp only at fewer; omega, left, emitted, fun _ => same, fun touches => ?_⟩
      exact same ▸ touches.resolve_right (not_not_intro trivial)
    | false =>
      obtain ⟨retries, rfl⟩ := follow_again again
      obtain ⟨left, emitted⟩ :=
        Attempt.retryOrRaiseHttpError_retry retries
      refine ⟨by simp only; omega, left, emitted, fun _ => rfl, fun touches => ?_⟩
      exact touches.resolve_right (not_not_intro trivial)
  | answered body =>
    simp only [exchange] at again
    split at again
    · cases again
    · cases again
    · rename_i reading read
      split_ifs at again
      obtain ⟨fewer, left, emitted, same⟩ :=
        connectionFailed_again again
      obtain ⟨kept, touched⟩ := Reading.readEvents_silent read rfl
      refine ⟨fewer, left, emitted, fun silent => ?_, fun touches => ?_⟩
      · exact same.trans (kept silent)
      · rw [same]
        rcases touches with before | notSilent
        · exact Reading.readEvents_touched read before
        · exact touched notSilent

theorem tryAttempt_finished {other : StreamingLoop ν}
    (ended : loop.tryAttempt writers shim attempt = .inr (.finished finishReason collected))
    (emitted : other.emittedAny = loop.emittedAny) (same : other.collected = loop.collected) :
    other.tryAttempt writers shim attempt = .inr (.finished finishReason collected) := by
  rw [tryAttempt] at ended ⊢
  split at ended
  · cases ended
  · rename_i goesOn
    rw [if_neg goesOn]
    cases exchange : attempt.exchange with
    | aborted =>
      simp only [exchange] at ended
      cases ended
    | connectionFailed =>
      simp only [exchange] at ended
      exact absurd ended connectionFailed_not_finished
    | refused status bodyBroken =>
      simp only [exchange] at ended
      split at ended
      · exact absurd ended connectionFailed_not_finished
      · exact absurd ended follow_not_finished
    | answered body =>
      simp only [exchange, emitted, same] at ended ⊢
      split at ended
      · cases ended
      · cases ended
      · split at ended
        · exact absurd ended connectionFailed_not_finished
        · rename_i unbroken
          rw [if_neg unbroken]
          exact ended

end StreamingLoop

namespace ChatClient

def abandonedAttempts (client : ChatClient ν) (attempts : List (Attempt (StreamedBody ν))) :
    List (Attempt (StreamedBody ν)) :=
  abandoned (StreamingLoop.tryAttempt client.writers client.shim) .start attempts

def requestsSent (client : ChatClient ν) (attempts : List (Attempt (StreamedBody ν))) : ℕ :=
  (client.abandonedAttempts attempts ++
    (client.runStreamingLoop attempts).toList.map fun run => run.2.1).countP Attempt.sends

/-- The answer, with the texts shown, is that of the last attempt alone, and
nothing of the others was shown or has stayed in the message. -/
def FromLastAttempt (client : ChatClient ν)
    (attempts : List (Attempt (StreamedBody ν))) (answer : Answer ν) : Prop :=
  ∃ before last ending, client.runStreamingLoop attempts = some (before, last, ending) ∧
      before.collected = .start ∧
      client.runStreamingLoop [last] = some (.start, last, ending) ∧
      client.requestStreaming [last] = some (.response answer)

theorem abandonedAttempts_length_le (client : ChatClient ν)
    (attempts : List (Attempt (StreamedBody ν))) :
    (client.abandonedAttempts attempts).length ≤ 2 := by
  apply abandoned_length_le fun loop : StreamingLoop ν =>
    (loop.sendsLeft - 1).toNat
  intro loop attempt next again
  obtain ⟨fewer, left, -⟩ := StreamingLoop.tryAttempt_again again
  omega

theorem requestsSent_le (client : ChatClient ν) (attempts : List (Attempt (StreamedBody ν))) :
    client.requestsSent attempts ≤ retryMaxAttempts := by
  have few := client.abandonedAttempts_length_le attempts
  have last : ((client.runStreamingLoop attempts).toList.map fun run => run.2.1).length ≤ 1 := by
    cases client.runStreamingLoop attempts with
    | none => exact Nat.zero_le 1
    | some run => exact Nat.le_refl 1
  apply Nat.le_trans List.countP_le_length
  rw [List.length_append, retryMaxAttempts]
  omega

theorem collected_start_iff (ran : client.runStreamingLoop attempts = some (before, last, ending)) :
    before.collected = .start ↔ ∀ attempt ∈ client.abandonedAttempts attempts,
        attempt.Silent client.writers client.shim := by
  apply fresh_iff_of_attemptAll (fun loop => loop.collected = .start)
    (fun loop => loop.collected.Touched) _ _ _ _ rfl ran
  · intro loop fresh
    rw [fresh]
    exact start_not_touched
  · intro loop attempt next fresh again silent
    obtain ⟨_, _, _, kept, _⟩ := StreamingLoop.tryAttempt_again again
    exact (kept silent).trans fresh
  · intro loop attempt next _ again notSilent
    obtain ⟨_, _, _, _, touches⟩ := StreamingLoop.tryAttempt_again again
    exact touches (.inr notSilent)
  · intro loop attempt next touched again
    obtain ⟨_, _, _, _, touches⟩ := StreamingLoop.tryAttempt_again again
    exact touches (.inl touched)

theorem emittedAny_of_ran (ran : client.runStreamingLoop attempts = some (before, last, ending)) :
    before.emittedAny = false := by
  apply attemptAll_invariant (fun loop => loop.emittedAny = false) _ rfl ran
  intro loop attempt next _ again
  exact (StreamingLoop.tryAttempt_again again).2.2.1

/-- **Retries.** A call sends at most three requests, and it answers with the
last attempt alone exactly when every abandoned attempt was silent. -/
theorem response_fromLastAttempt (client : ChatClient ν)
    (attempts : List (Attempt (StreamedBody ν))) :
    client.requestsSent attempts ≤ retryMaxAttempts ∧
      ∀ answer, client.requestStreaming attempts = some (.response answer) →
        (client.FromLastAttempt attempts answer ↔ ∀ attempt ∈ client.abandonedAttempts attempts,
            attempt.Silent client.writers client.shim) := by
  refine ⟨client.requestsSent_le attempts, fun answer returned => ?_⟩
  obtain ⟨⟨before, last, ending⟩, ran, ends⟩ :=
    Option.map_eq_some_iff.mp returned
  rw [← collected_start_iff ran]
  constructor
  · rintro ⟨before', last', ending', ran', nothingLeft, -, -⟩
    rw [ran] at ran'
    cases ran'
    exact nothingLeft
  · intro nothingLeft
    have alone : client.runStreamingLoop [last] = some (.start, last, ending) := by
      apply attemptAll_singleton
      have made := attempt_of_attemptAll ran
      cases ending with
      | stopped collected =>
        simp only [endStreaming] at ends
        split at ends <;> cases ends
      | raised failure => cases ends
      | finished finishReason collected =>
        exact StreamingLoop.tryAttempt_finished made (emittedAny_of_ran ran).symm nothingLeft.symm
    refine ⟨before, last, ending, ran, nothingLeft, alone, ?_⟩
    rw [requestStreaming, alone]
    exact congrArg some ends

/-- A client of a service compatible with OpenAI, whose answers here need no
reader. -/
def plainClient : ChatClient ℤ where
  shim := .base
  requestedModel := "gpt".toList
  toolCallParser := none
  writers := ⟨fun _ => [], fun _ => []⟩
  readers := ⟨fun _ => false, fun _ => none, fun _ => none, fun _ => none, fun _ => none⟩

def chunkOf (choices : List (Json ℤ)) : StreamEvent ℤ :=
  ⟨false, .json (.obj [("choices".toList, .arr choices)])⟩

def callChunk (id name arguments : String) : StreamEvent ℤ :=
  chunkOf [.obj [("delta".toList, .obj [("tool_calls".toList, .arr [.obj [
    ("index".toList, .num 0), ("id".toList, .text id),
    ("type".toList, .text "function"),
    ("function".toList, .obj [("name".toList, .text name),
      ("arguments".toList, .text arguments)])]])])]]

def responseOf (events : List (StreamEvent ℤ)) (broken : Bool) : Attempt (StreamedBody ℤ) :=
  ⟨false, .answered ⟨events, broken⟩, false, false, false⟩

def wholeCall : Attempt (StreamedBody ℤ) :=
  responseOf [callChunk "call_2" "lookup" "\x7b\x7d", ⟨false, .done⟩] false

def brokenEarly : Attempt (StreamedBody ℤ) := responseOf [chunkOf []] true

def brokenCall : Attempt (StreamedBody ℤ) :=
  responseOf [callChunk "call_1" "delete" "\x7b\"all\": "] true

theorem response_fromLastAttempt_brokenEarly :
    ∃ answer, plainClient.requestStreaming [brokenEarly, wholeCall] = some (.response answer) ∧
      plainClient.FromLastAttempt [brokenEarly, wholeCall] answer := by
  refine ⟨_, rfl, ?_⟩
  apply ((response_fromLastAttempt plainClient _).2 _ rfl).mpr
  intro attempt member
  cases List.mem_singleton.mp member
  exact trivial

/-- The tool call that was cut off is merged with the one of the next attempt:
its id, its name and its arguments. -/
theorem response_mixed : ∃ answer alone,
      plainClient.requestStreaming [brokenCall, wholeCall] = some (.response answer) ∧
        plainClient.requestStreaming [wholeCall] = some (.response alone) ∧
        callTriples answer.toolCalls = [(.text "call_1call_2",
          .text "deletelookup", .text "\x7b\"all\": \x7b\x7d")] ∧
        callTriples alone.toolCalls = [(.text "call_2", .text "lookup", .text "\x7b\x7d")] ∧
        ¬plainClient.FromLastAttempt [brokenCall, wholeCall] answer := by
  refine ⟨_, _, rfl, rfl, rfl, rfl, ?_⟩
  rintro ⟨before, last, ending, ran, nothingLeft, -, -⟩
  cases ran
  cases nothingLeft

end ChatClient

end WriterAgent.Framework
