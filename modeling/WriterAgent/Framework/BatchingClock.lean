import Mathlib.Algebra.Order.Field.Rat
import Mathlib.Data.NNRat.Defs
import Mathlib.Tactic.Linarith
import WriterAgent.Framework.BatchingStreamQueue

/-!
# The clock of the batcher

The one timer of a `BatchingStreamQueue` is armed by the first delta of a
buffer, for `batch_interval` from then on.
-/

namespace WriterAgent.Framework

open PyText BatchingStreamQueue Option

/-- The batcher with its clock.  Every fragment is kept with its arrival, and
`deadline` is that of the armed timer. -/
structure TimedQueue (β : Type*) where
  interval : ℚ
  now : ℚ
  raw : List (StreamItem β)
  contentBuf : List (ℚ × Text)
  thinkingBuf : List (ℚ × Text)
  deadline : Option ℚ

namespace TimedQueue

variable {β : Type*}

def init (interval now : ℚ) (raw : List (StreamItem β)) : TimedQueue β :=
  ⟨interval, now, raw, [], [], none⟩

def wait (q : TimedQueue β) (delay : ℚ≥0) : TimedQueue β :=
  { q with now := q.now + delay }

def cancelTimer (q : TimedQueue β) : TimedQueue β :=
  { q with deadline := none }

/-- `_schedule_timer`: the new timer takes the place of an armed one. -/
def scheduleTimer (q : TimedQueue β) : TimedQueue β :=
  { q.cancelTimer with deadline := some (q.now + q.interval) }

def rawPut (q : TimedQueue β) (item : StreamItem β) : TimedQueue β :=
  { q with raw := q.raw ++ [item] }

def emitContent (q : TimedQueue β) : TimedQueue β :=
  if q.contentBuf.isEmpty then q
  else
    { q.rawPut (.chunk (some (q.contentBuf.map Prod.snd).flatten)) with contentBuf := [] }

def emitThinking (q : TimedQueue β) : TimedQueue β :=
  if q.thinkingBuf.isEmpty then q
  else
    { q.rawPut (.thinking (some (q.thinkingBuf.map Prod.snd).flatten)) with
      thinkingBuf := [] }

/-- `_emit_pending_locked` under the lock. -/
def flush (q : TimedQueue β) : TimedQueue β :=
  q.emitContent.emitThinking.cancelTimer

def buffer (q : TimedQueue β) : Display → List (ℚ × Text)
  | .content => q.contentBuf
  | .thinking => q.thinkingBuf

/-- `append` on the buffer of a kind. -/
def append (q : TimedQueue β) (fragment : ℚ × Text) : Display → TimedQueue β
  | .content => { q with contentBuf := q.contentBuf ++ [fragment] }
  | .thinking => { q with thinkingBuf := q.thinkingBuf ++ [fragment] }

/-- The branch of `put` for a display item. -/
def putDelta (q : TimedQueue β) (kind : Display) (data : Option Text) : TimedQueue β :=
  let isFirst := (q.buffer kind).isEmpty
  let q := q.append (q.now, data.getD []) kind
  if isFirst then q.scheduleTimer else q

/-- `put` at the present time. -/
def put (q : TimedQueue β) (item : StreamItem β) (late : ℕ) : TimedQueue β :=
  match item with
  | .chunk data => q.putDelta .content data
  | .thinking data => q.putDelta .thinking data
  | .boundary item => (flush^[late] q.flush).rawPut (.boundary item)

def call (q : TimedQueue β) : Call β → TimedQueue β
  | .put item late => q.put item late
  | .flush => q.flush
  | .timerFlush => q.flush

def step (q : TimedQueue β) (timed : ℚ≥0 × Call β) : TimedQueue β :=
  (q.wait timed.1).call timed.2

def fragments (q : TimedQueue β) : List (ℚ × Text) :=
  q.contentBuf ++ q.thinkingBuf

/-- While anything waits a timer is armed, and its deadline comes at most one
interval after the arrival of each fragment. -/
def Prompt (q : TimedQueue β) : Prop :=
  q.fragments ≠ [] → ∃ deadline, q.deadline = some deadline ∧
    ∀ fragment ∈ q.fragments, deadline ≤ fragment.1 + q.interval

def deltaOf : Call β → Option Display
  | .put (.chunk _) _ => some .content
  | .put (.thinking _) _ => some .thinking
  | _ => none

/-- A call leaves the batcher prompt, and a delta does not move the deadline of
what waits already. -/
def Latency (q : TimedQueue β) (timed : ℚ≥0 × Call β) : Prop :=
  (q.step timed).Prompt ∧
    (deltaOf timed.2 ≠ none → q.fragments ≠ [] → (q.step timed).deadline = q.deadline)

/-- A delta that starts its buffer finds nothing waiting in the other one, or
only what has come in the same instant. -/
def Steady (q : TimedQueue β) (timed : ℚ≥0 × Call β) : Prop :=
  ∀ kind, deltaOf timed.2 = some kind → q.buffer kind = [] →
    ∀ fragment ∈ q.fragments, fragment.1 = q.now + timed.1

structure OnTime (q : TimedQueue β) : Prop where
  past : ∀ fragment ∈ q.fragments, fragment.1 ≤ q.now
  armed : q.fragments ≠ [] → ∃ oldest ∈ q.fragments, q.deadline = some (oldest.1 + q.interval) ∧
      ∀ fragment ∈ q.fragments, oldest.1 ≤ fragment.1

theorem OnTime.prompt {q : TimedQueue β} (onTime : q.OnTime) : q.Prompt := by
  intro waiting
  obtain ⟨oldest, _, isArmed, first⟩ := onTime.armed waiting
  refine ⟨_, isArmed, ?_⟩
  intro fragment member
  have := first fragment member
  linarith

theorem onTime_of_empty {q : TimedQueue β} (empty : q.fragments = []) : q.OnTime :=
  ⟨by simp [empty], fun waiting => absurd empty waiting⟩

theorem fragments_flush (q : TimedQueue β) : q.flush.fragments = [] := by
  obtain ⟨interval, now, raw, content, thinking, deadline⟩ := q
  cases content with
  | nil =>
    cases thinking with
    | nil | cons => rfl
  | cons fragment rest =>
    cases thinking with
    | nil | cons => rfl

theorem fragments_iterate_flush (q : TimedQueue β) (late : ℕ) :
    (flush^[late] q.flush).fragments = [] := by
  cases late with
  | zero => exact fragments_flush q
  | succ late =>
    rw [Function.iterate_succ_apply']
    exact fragments_flush _

theorem fragments_boundary (q : TimedQueue β) (item : β) (late : ℕ) :
    (q.put (.boundary item) late).fragments = [] :=
  fragments_iterate_flush q late

theorem fragments_call {q : TimedQueue β} {call : Call β} (noDelta : deltaOf call = none) :
    (q.call call).fragments = [] := by
  cases call with
  | flush | timerFlush => exact fragments_flush q
  | put item late =>
    cases item with
    | chunk | thinking => cases noDelta
    | boundary item => exact fragments_boundary q item late

theorem buffer_subset (q : TimedQueue β) (kind : Display) :
    ∀ fragment ∈ q.buffer kind, fragment ∈ q.fragments := by
  intro fragment member
  cases kind with
  | content => exact List.mem_append_left _ member
  | thinking => exact List.mem_append_right _ member

/-- What a delta does: its fragment waits with the others, and a buffer it
starts arms the timer anew. -/
structure Delta (q : TimedQueue β) (kind : Display) (after : TimedQueue β) : Prop where
  interval : after.interval = q.interval
  now : after.now = q.now
  fragments : ∃ text, ∀ fragment,
    fragment ∈ after.fragments ↔ fragment ∈ q.fragments ∨ fragment = (q.now, text)
  deadline : after.deadline =
    if q.buffer kind = [] then some (q.now + q.interval) else q.deadline

theorem putDelta_spec (q : TimedQueue β) (kind : Display) (data : Option Text) :
    Delta q kind (q.putDelta kind data) := by
  have member : ∀ fragment, fragment ∈ (q.append (q.now, data.getD []) kind).fragments ↔
      fragment ∈ q.fragments ∨ fragment = (q.now, data.getD []) := by
    intro fragment
    cases kind with
    | content | thinking =>
      simp only [append, TimedQueue.fragments, List.mem_append, List.mem_singleton]
      tauto
  by_cases starts : q.buffer kind = []
  · have put : q.putDelta kind data = (q.append (q.now, data.getD []) kind).scheduleTimer := by
      simp [putDelta, starts]
    rw [put]
    cases kind with
    | content | thinking => exact ⟨rfl, rfl, ⟨_, member⟩, (if_pos starts).symm⟩
  · have put : q.putDelta kind data = q.append (q.now, data.getD []) kind := by
      simp [putDelta, starts]
    rw [put]
    cases kind with
    | content | thinking => exact ⟨rfl, rfl, ⟨_, member⟩, (if_neg starts).symm⟩

theorem call_delta {q : TimedQueue β} {call : Call β} {kind : Display}
    (isDelta : deltaOf call = some kind) : Delta q kind (q.call call) := by
  cases call with
  | flush | timerFlush => cases isDelta
  | put item late =>
    cases item with
    | chunk data =>
      obtain rfl := some.inj isDelta
      exact putDelta_spec q .content data
    | thinking data =>
      obtain rfl := some.inj isDelta
      exact putDelta_spec q .thinking data
    | boundary item => cases isDelta

variable {q after : TimedQueue β} {kind : Display}

theorem OnTime.wait (onTime : q.OnTime) (delay : ℚ≥0) : (q.wait delay).OnTime where
  past := fun fragment member => le_trans (onTime.past fragment member)
    (le_add_of_nonneg_right delay.2)
  armed := onTime.armed

theorem OnTime.delta (onTime : q.OnTime) (delta : Delta q kind after)
    (steady : q.buffer kind = [] → ∀ fragment ∈ q.fragments, fragment.1 = q.now) :
    after.OnTime ∧ (q.fragments ≠ [] → after.deadline = q.deadline) := by
  obtain ⟨text, member⟩ := delta.fragments
  have past : ∀ fragment ∈ after.fragments, fragment.1 ≤ after.now := by
    intro fragment waits
    rw [delta.now]
    rcases (member fragment).1 waits with old | rfl
    · exact onTime.past fragment old
    · exact le_refl _
  have newest : (q.now, text) ∈ after.fragments := (member _).2 (Or.inr rfl)
  by_cases starts : q.buffer kind = []
  · have isArmed : after.deadline = some (q.now + q.interval) := by
      rw [delta.deadline, if_pos starts]
    have same := steady starts
    refine ⟨⟨past, fun _ => ⟨_, newest, by rw [isArmed, delta.interval], ?_⟩⟩, ?_⟩
    · intro fragment waits
      rcases (member fragment).1 waits with old | rfl
      · exact le_of_eq (same fragment old).symm
      · exact le_refl _
    · intro waiting
      obtain ⟨oldest, inside, before, _⟩ := onTime.armed waiting
      rw [isArmed, before, same oldest inside]
  · have kept : after.deadline = q.deadline := by rw [delta.deadline, if_neg starts]
    have waiting : q.fragments ≠ [] := by
      intro empty
      obtain ⟨fragment, first⟩ := List.exists_mem_of_ne_nil _ starts
      have inside := buffer_subset q kind fragment first
      rw [empty] at inside
      exact List.not_mem_nil inside
    refine ⟨⟨past, fun _ => ?_⟩, fun _ => kept⟩
    obtain ⟨oldest, inside, before, first⟩ := onTime.armed waiting
    refine ⟨oldest, (member oldest).2 (Or.inl inside), by rw [kept, before, delta.interval], ?_⟩
    intro fragment waits
    rcases (member fragment).1 waits with old | rfl
    · exact first fragment old
    · exact onTime.past oldest inside

theorem Delta.late (delta : Delta q kind after) (starts : q.buffer kind = [])
    {fragment : ℚ × Text} (waits : fragment ∈ q.fragments) (older : fragment.1 < q.now) :
    ¬ after.Prompt := by
  intro prompt
  obtain ⟨text, member⟩ := delta.fragments
  have stays : fragment ∈ after.fragments := (member fragment).2 (Or.inl waits)
  obtain ⟨deadline, isArmed, bound⟩ := prompt (List.ne_nil_of_mem stays)
  have moved := delta.deadline
  rw [if_pos starts, isArmed] at moved
  have early := bound fragment stays
  rw [some.inj moved, delta.interval] at early
  linarith

theorem latency_iff (onTime : q.OnTime) (timed : ℚ≥0 × Call β) :
    Latency q timed ↔ Steady q timed := by
  obtain ⟨delay, call⟩ := timed
  have waited := onTime.wait delay
  cases isDelta : deltaOf call with
  | none =>
    have empty : (q.step (delay, call)).fragments = [] := fragments_call isDelta
    refine iff_of_true ⟨(onTime_of_empty empty).prompt, ?_⟩ ?_
    · intro some
      exact absurd isDelta some
    · intro kind isSome
      rw [isDelta] at isSome
      cases isSome
  | some kind =>
    have delta : Delta (q.wait delay) kind (q.step (delay, call)) := call_delta isDelta
    constructor
    · intro latency other isOther starts fragment waits
      have same : other = kind := some.inj (isOther.symm.trans isDelta)
      subst same
      by_contra differs
      have older : fragment.1 < (q.wait delay).now :=
        lt_of_le_of_ne (waited.past fragment waits) differs
      exact delta.late starts waits older latency.1
    · intro steady
      have kept := waited.delta delta (steady kind isDelta)
      exact ⟨kept.1.prompt, fun _ => kept.2⟩

theorem OnTime.step (onTime : q.OnTime) (timed : ℚ≥0 × Call β) (steady : Steady q timed) :
    (q.step timed).OnTime := by
  obtain ⟨delay, call⟩ := timed
  cases isDelta : deltaOf call with
  | none => exact onTime_of_empty (fragments_call isDelta)
  | some kind => exact ((onTime.wait delay).delta (call_delta isDelta) (steady kind isDelta)).1

/-- **Latency.** In a run from an empty batcher every state is prompt and no
delta moves the deadline of what waits, exactly when every delta that starts
its buffer finds nothing older waiting in the other one. -/
theorem latency_run_iff (interval now : ℚ) (raw : List (StreamItem β)) (run : List (ℚ≥0 × Call β)) :
    Along step Latency (init interval now raw) run ↔
      Along step Steady (init interval now raw) run :=
  Along.iff_of_invariant OnTime
    (fun _ timed onTime latency => onTime.step timed ((latency_iff onTime timed).1 latency))
    (fun _ timed onTime => latency_iff onTime timed)
    (onTime_of_empty rfl)

/-- A tenth of a second after a content, the first thought replaces its timer:
the content then waits for more than the interval. -/
theorem thinking_moves_deadline :
    ¬ Along step Latency (init (1 / 4) 0 ([] : List (StreamItem Unit)))
      [(0, .put (.chunk (some ['a'])) 0), (1 / 10, .put (.thinking (some ['b'])) 0)] := by
  rintro ⟨-, ⟨prompt, -⟩, -⟩
  obtain ⟨deadline, isArmed, bound⟩ := prompt (by decide +kernel)
  have moved : some deadline = some (7 / 20 : ℚ) := by
    rw [← isArmed]
    decide +kernel
  have early : deadline ≤ 0 + 1 / 4 := bound (0, ['a']) (by decide +kernel)
  rw [some.inj moved] at early
  norm_num at early

end TimedQueue

end WriterAgent.Framework
