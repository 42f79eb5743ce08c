import WriterAgent.Chatbot.ToolLoopState
import WriterAgent.Foundations.Runs

/-!
# Runs of the tool loop

The pending tools are a queue: responses add to its back, and every answer to
`NEXT_TOOL` starts at most the call at its front.  A stopped loop starts none.
-/

namespace WriterAgent.Chatbot

open PyText List Option

def Effect.spawnedCall : Effect → Option ToolCall
  | .spawnToolWorker call _ _ => some call
  | _ => none

def ToolLoopEvent.deliveredCalls (event : ToolLoopEvent) : List ToolCall :=
  match event.kind with
  | .streamDone =>
    (responseToolCalls (objectDictOrEmpty (event.data.get "response" (.dict [])))).map
        pendingToolCallFields
  | _ => []

def ToolLoopState.queue (state : ToolLoopState) : List ToolCall :=
  state.pendingTools.map pendingToolCallFields

def spawnedCalls (effects : List Effect) : List ToolCall :=
  effects.filterMap Effect.spawnedCall

/-- What an effect asks of the model: a further round, or the final stream. -/
def Effect.request : Effect → Option (Option ℤ)
  | .spawnLLMWorker roundNum => some (some roundNum)
  | .spawnFinalStream => some none
  | _ => none

def requests (effects : List Effect) : List (Option ℤ) :=
  effects.filterMap Effect.request

@[simp] theorem spawnedCalls_nil : spawnedCalls [] = [] := rfl

@[simp] theorem spawnedCalls_append (front back : List Effect) :
    spawnedCalls (front ++ back) = spawnedCalls front ++ spawnedCalls back :=
  filterMap_append

@[simp] theorem spawnedCalls_cons (effect : Effect) (rest : List Effect) :
    spawnedCalls (effect :: rest) = effect.spawnedCall.toList ++ spawnedCalls rest := by
  cases spawned : effect.spawnedCall with
  | none | some call => simp [spawnedCalls, spawned]

theorem spawnedCalls_when (condition : Prop) [Decidable condition]
    {effect : Effect} (silent : effect.spawnedCall = none) :
    spawnedCalls (if condition then [effect] else []) = [] := by
  split
  · rw [spawnedCalls_cons, silent]
    rfl
  · rfl

/-- What an answer does to the queue and to the stop flag. -/
inductive QueueStep (state next : ToolLoopState) (effects : List Effect)
    (delivered : List ToolCall) : Prop where
  /-- No worker starts; what is delivered goes to the back. -/
  | idle (silent : spawnedCalls effects = []) (queue : next.queue = state.queue ++ delivered)
      (stopped : state.isStopped = true → next.isStopped = true)
  /-- The worker of the first pending call starts. -/
  | starts (call : ToolCall) (running : state.isStopped = false) (nothing : delivered = [])
      (spawned : spawnedCalls effects = [call])
      (queue : state.queue = call :: next.queue)

section

variable {fmt : Formatting} {state next : ToolLoopState} {effects : List Effect} {data : Fields}

theorem closingEffects_silent {response : Fields} {closing : List Effect}
    (closes : closingEffects fmt state response = some closing) :
    spawnedCalls closing = [] ∧ requests closing = [] := by
  unfold closingEffects at closes
  simp only at closes
  split_ifs at closes
  · rw [map_eq_some_iff] at closes
    obtain ⟨replay, _, rfl⟩ := closes
    exact ⟨rfl, rfl⟩
  · cases closes
    exact ⟨rfl, rfl⟩
  · cases closes
    exact ⟨rfl, rfl⟩
  · cases closes
    exact ⟨rfl, rfl⟩

theorem finalMessage_silent {message : List Effect} (found : finalMessage fmt data = some message) :
    spawnedCalls message = [] ∧ requests message = [] := by
  unfold finalMessage at found
  simp only at found
  split at found
  · obtain ⟨replay, _, rfl⟩ := map_eq_some_iff.mp found
    exact ⟨rfl, rfl⟩
  · cases found
    exact ⟨rfl, rfl⟩

theorem missedReplacement_silent {funcName funcArgsStr note : Value}
    {resultData : Fields} {params : List Effect}
    (found : missedReplacement fmt funcName funcArgsStr resultData note =
      some params) : spawnedCalls params = [] ∧ requests params = [] := by
  unfold missedReplacement at found
  split at found
  · obtain ⟨display, _, rfl⟩ := map_eq_some_iff.mp found
    exact ⟨rfl, rfl⟩
  · cases found
    exact ⟨rfl, rfl⟩

theorem onStreamDone_step (answer : onStreamDone fmt state data = some (next, effects)) :
    QueueStep state next effects (ToolLoopEvent.deliveredCalls ⟨.streamDone, data⟩) := by
  unfold onStreamDone at answer
  cases found : data.get "response" (.dict []) with
  | dict response =>
    have delivered : ToolLoopEvent.deliveredCalls ⟨.streamDone, data⟩ =
        (responseToolCalls response).map pendingToolCallFields := by
      simp only [ToolLoopEvent.deliveredCalls, found, objectDictOrEmpty]
    simp only [found] at answer
    split at answer
    · rename_i none
      rw [List.isEmpty_iff] at none
      obtain ⟨closing, closes, same⟩ := bind_eq_some_iff.mp answer
      cases same
      refine .idle ?_ ?_ id
      · simp only [spawnedCalls_append, spawnedCalls_cons, (closingEffects_silent closes).1]
        rw [spawnedCalls_when _ rfl]
        rfl
      · simp [delivered, none, ToolLoopState.queue]
    · obtain ⟨replay, _, same⟩ := bind_eq_some_iff.mp answer
      cases same
      refine .idle ?_ ?_ id
      · simp only [spawnedCalls_append, spawnedCalls_cons]
        rw [spawnedCalls_when _ rfl, spawnedCalls_when _ rfl]
        rfl
      · simp [delivered, ToolLoopState.queue]
  | none | bool | int | str | list | other => simp [found] at answer

theorem advanceRound_step (state : ToolLoopState) :
    QueueStep state (advanceRound state).1 (advanceRound state).2 [] := by
  have sending : spawnedCalls (if state.isStopped then []
      else [Effect.toolLoopUI "status" "Sending results to AI...".toList]) = [] := by
    split <;> rfl
  unfold advanceRound
  simp only
  split
  · refine .idle ?_ (append_nil _).symm id
    rw [spawnedCalls_append, sending]
    rfl
  · refine .idle ?_ (append_nil _).symm id
    rw [spawnedCalls_append, sending]
    rfl

theorem advanceRound_answer (answer : some (advanceRound state) = some (next, effects)) :
    QueueStep state next effects [] := by
  have step := advanceRound_step state
  rw [some.inj answer] at step
  exact step

theorem onNextTool_step (answer : onNextTool fmt state = some (next, effects)) :
    QueueStep state next effects [] := by
  unfold onNextTool at answer
  split at answer
  · exact advanceRound_answer answer
  · rename_i tool rest pending
    split at answer
    · exact advanceRound_answer answer
    · rename_i running
      cases answer
      refine .starts (pendingToolCallFields tool) (by simpa using running)
        rfl rfl ?_
      simp [ToolLoopState.queue, pending]

theorem onFinalDone_step (answer : onFinalDone fmt state data = some (next, effects)) :
    QueueStep state next effects [] := by
  obtain ⟨message, found, same⟩ := bind_eq_some_iff.mp answer
  cases same
  refine .idle ?_ (append_nil _).symm id
  rw [spawnedCalls_append, (finalMessage_silent found).1]
  rfl

theorem onToolResult_step (answer : onToolResult fmt state data = some (next, effects)) :
    QueueStep state next effects [] := by
  obtain ⟨chatText, _, answer⟩ := bind_eq_some_iff.mp answer
  obtain ⟨params, found, same⟩ := bind_eq_some_iff.mp answer
  cases same
  refine .idle ?_ (append_nil _).symm id
  simp only [spawnedCalls_append, spawnedCalls_cons, (missedReplacement_silent found).1]
  rw [spawnedCalls_when _ rfl]
  rfl

theorem nextState_step {event : ToolLoopEvent}
    (answer : nextState fmt state event = some (next, effects)) :
    QueueStep state next effects event.deliveredCalls := by
  obtain ⟨kind, data⟩ := event
  cases kind with
  | stopRequested =>
    cases answer
    exact .idle rfl (append_nil _).symm fun _ => rfl
  | streamDone => exact onStreamDone_step answer
  | nextTool => exact onNextTool_step answer
  | toolResult => exact onToolResult_step answer
  | finalDone => exact onFinalDone_step answer
  | error =>
    cases answer
    exact .idle rfl (append_nil _).symm id

def ToolLoopState.roundsLeft (state : ToolLoopState) : List ℤ :=
  (List.range (state.maxRounds - (state.roundNum + 1)).toNat).map fun k : ℕ => state.roundNum + 1 + k

/-- What an answer takes from the rounds that are left. -/
inductive RoundStep (state next : ToolLoopState) : List (Option ℤ) → Prop where
  | quiet (rounds : next.roundsLeft = state.roundsLeft) : RoundStep state next []
  | asks {roundNum : ℤ} (rounds : state.roundsLeft = roundNum :: next.roundsLeft)
      (waited : state.isStopped = false → state.pendingTools = []) :
      RoundStep state next [some roundNum]
  | closes (spent : state.roundsLeft = []) (stays : next.roundsLeft = [])
      (waited : state.isStopped = false → state.pendingTools = []) :
      RoundStep state next [none]

theorem advanceRound_rounds (waited : state.isStopped = false → state.pendingTools = []) :
    RoundStep state (advanceRound state).1 (requests (advanceRound state).2) := by
  have sending : ∀ more, requests ((if state.isStopped then []
      else [Effect.toolLoopUI "status" "Sending results to AI...".toList]) ++ more) =
        requests more := by
    intro more
    split <;> rfl
  unfold advanceRound
  simp only
  by_cases spent : state.roundNum + 1 ≥ state.maxRounds
  · rw [if_pos spent, sending]
    refine .closes ?_ ?_ waited
    · rw [ToolLoopState.roundsLeft, Int.toNat_of_nonpos (by omega)]
      rfl
    · rw [ToolLoopState.roundsLeft, Int.toNat_of_nonpos (by simp only; omega)]
      rfl
  · rw [if_neg spent, sending]
    refine .asks ?_ waited
    obtain ⟨more, left⟩ : ∃ more : ℕ, state.maxRounds = state.roundNum + 1 + 1 + more :=
      ⟨(state.maxRounds - (state.roundNum + 1 + 1)).toNat, by omega⟩
    have before : (state.maxRounds - (state.roundNum + 1)).toNat = more + 1 := by omega
    have after : (state.maxRounds - (state.roundNum + 1 + 1)).toNat = more := by omega
    simp only [ToolLoopState.roundsLeft, before, after, range_succ_eq_map, map_cons, List.map_map]
    refine congrArg₂ cons (by simp) (map_congr_left fun k _ => ?_)
    simp only [Function.comp_apply]
    omega

theorem onStreamDone_rounds (answer : onStreamDone fmt state data = some (next, effects)) :
    RoundStep state next (requests effects) := by
  unfold onStreamDone at answer
  cases found : data.get "response" (.dict []) with
  | dict response =>
    simp only [found] at answer
    split at answer
    · obtain ⟨closing, closes, same⟩ := bind_eq_some_iff.mp answer
      cases same
      have silent := (closingEffects_silent closes).2
      unfold requests at silent ⊢
      simp only [filterMap_append, filterMap_cons, Effect.request, silent]
      split_ifs <;> exact .quiet rfl
    · obtain ⟨replay, _, same⟩ := bind_eq_some_iff.mp answer
      cases same
      simp only [requests, filterMap_append, filterMap_cons, Effect.request]
      split_ifs <;> exact .quiet rfl
  | none | bool | int | str | list | other => simp [found] at answer

theorem nextState_rounds {event : ToolLoopEvent}
    (answer : nextState fmt state event = some (next, effects)) :
    RoundStep state next (requests effects) := by
  obtain ⟨kind, data⟩ := event
  cases kind with
  | stopRequested | error =>
    cases answer
    exact .quiet rfl
  | streamDone => exact onStreamDone_rounds answer
  | nextTool =>
    simp only [nextState, onNextTool] at answer
    split at answer
    · rename_i empty
      obtain ⟨rfl, rfl⟩ := Prod.mk.inj (some.inj answer)
      exact advanceRound_rounds fun _ => empty
    · split at answer
      · rename_i stopped
        obtain ⟨rfl, rfl⟩ := Prod.mk.inj (some.inj answer)
        exact advanceRound_rounds fun running => absurd (running.symm.trans stopped) Bool.false_ne_true
      · cases answer
        exact .quiet rfl
  | toolResult =>
    obtain ⟨chatText, _, answer⟩ := bind_eq_some_iff.mp answer
    obtain ⟨params, found, same⟩ := bind_eq_some_iff.mp answer
    cases same
    have silent := (missedReplacement_silent found).2
    unfold requests at silent ⊢
    simp only [filterMap_append, filterMap_cons, Effect.request, silent]
    split_ifs <;> exact .quiet rfl
  | finalDone =>
    obtain ⟨message, found, same⟩ := bind_eq_some_iff.mp answer
    cases same
    have silent := (finalMessage_silent found).2
    unfold requests at silent ⊢
    simp only [filterMap_append, filterMap_cons, Effect.request, silent]
    exact .quiet rfl

end

theorem nextState_queue (fmt : Formatting) (state : ToolLoopState)
    (event : ToolLoopEvent) (next : ToolLoopState) (effects : List Effect)
    (answer : nextState fmt state event = some (next, effects)) :
    spawnedCalls effects ++ next.queue = state.queue ++ event.deliveredCalls := by
  cases nextState_step answer with
  | idle silent queue stopped => rw [silent, queue, nil_append]
  | starts call running nothing spawned queue =>
    rw [spawned, queue, nothing, append_nil, singleton_append]

theorem nextState_stopped (fmt : Formatting) (state : ToolLoopState) (event : ToolLoopEvent)
    (next : ToolLoopState) (effects : List Effect) (stopped : state.isStopped = true)
    (answer : nextState fmt state event = some (next, effects)) :
    next.isStopped = true ∧ ∀ effect ∈ effects, effect.spawnedCall = none := by
  cases nextState_step answer with
  | idle silent queue stays => exact ⟨stays stopped, filterMap_eq_nil_iff.mp silent⟩
  | starts call running nothing spawned queue =>
    rw [stopped] at running
    cases running

abbrev toolLoopRun (fmt : Formatting) (state : ToolLoopState) (events : List ToolLoopEvent) :
    History ToolLoopState ToolLoopEvent Effect :=
  drive (nextState fmt) state events

/-- **Rounds.** The requests of a run are further rounds, one after another
from the round at its start and below the limit, and then only final streams,
once no round is left. -/
theorem requests_in_budget (fmt : Formatting) (state : ToolLoopState)
    (events : List ToolLoopEvent) :
    let run := toolLoopRun fmt state events
    ∃ asked closings, requests run.effects = asked.map some ++ List.replicate closings none ∧
      asked ++ run.state.roundsLeft = state.roundsLeft ∧
      (0 < closings → run.state.roundsLeft = []) := by
  intro run
  induction events generalizing state with
  | nil => exact ⟨[], 0, rfl, rfl, fun some => absurd some (lt_irrefl 0)⟩
  | cons event rest ih =>
    cases answer : nextState fmt state event with
    | none =>
      simp only [run, drive, answer]
      exact ⟨[], 0, rfl, rfl, fun some => absurd some (lt_irrefl 0)⟩
    | some result =>
      obtain ⟨next, effects⟩ := result
      obtain ⟨asked, closings, whole, rounds, spent⟩ := ih next
      have step := nextState_rounds answer
      simp only [run, drive, answer]
      rw [requests, filterMap_append, ← requests, ← requests, whole]
      generalize requests effects = first at step
      cases step with
      | quiet same => exact ⟨asked, closings, rfl, rounds.trans same, spent⟩
      | @asks roundNum takes waited =>
        refine ⟨roundNum :: asked, closings, rfl, ?_, spent⟩
        rw [takes, cons_append, rounds]
      | closes none stays waited =>
        rw [stays, append_eq_nil_iff] at rounds
        obtain ⟨rfl, spentNow⟩ := rounds
        exact ⟨[], closings + 1, rfl, by rw [none, spentNow]; rfl, fun _ => spentNow⟩

end WriterAgent.Chatbot
