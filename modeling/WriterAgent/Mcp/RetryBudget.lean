import Mathlib.Algebra.Order.Field.Basic
import WriterAgent.Mcp.TunnelState

/-!
# The retry budget of the tunnel

Between two events that reset the counter of the tunnel, its machine schedules
at most `max_retries` timers, numbered from one, and gives up only after the
last of them.
-/

namespace WriterAgent.Mcp

open PyText List

def TunnelEventKind.resets : TunnelEventKind → Bool
  | .startRequested => true
  | .urlAcquired => true
  | .stopRequested => true
  | _ => false

def AsksNonnegative (event : TunnelEvent) : Prop :=
  event.kind = .startRequested → 0 ≤ eventInt event.data "max_retries" 0

def IsDrop (event : TunnelEvent) : Prop :=
  event.kind = .processExited ∧ (eventGet event.data "auth_error" .none).truthy = false

structure RetryTimer where
  delaySeconds : ℚ
  attempt : ℕ
  maxRetries : ℤ
  deriving DecidableEq

def retryTimer? : TunnelEffect → Option RetryTimer
  | .scheduleRetryTimer delaySeconds attempt maxRetries => some ⟨delaySeconds, attempt, maxRetries⟩
  | _ => none

def retryTimers (effects : List TunnelEffect) : List RetryTimer :=
  effects.filterMap retryTimer?

/-- The timer of the attempt after `retryCount` others. -/
def plannedTimer (state : TunnelState) (retryCount : ℕ) : RetryTimer where
  delaySeconds := min (state.backoffInitial * state.backoffFactor ^ retryCount) state.maxBackoff
  attempt := retryCount + 1
  maxRetries := state.maxRetries

theorem retryTimers_append (front back : List TunnelEffect) :
    retryTimers (front ++ back) = retryTimers front ++ retryTimers back :=
  filterMap_append

variable {state : TunnelState} {data : List (Text × Datum)}
  {event : TunnelEvent} {stretch : List TunnelEvent}

theorem runEvents_append (lower : Text → Text) (state : TunnelState)
    (front back : List TunnelEvent) :
    (runEvents lower state (front ++ back)).1 =
      (runEvents lower (runEvents lower state front).1 back).1 := by
  induction front generalizing state with
  | nil => rfl
  | cons event rest ih => exact ih (nextState lower state event).1

/-- The fields of a state that no event changes. -/
def SameBackoff (before after : TunnelState) : Prop :=
  after.backoffInitial = before.backoffInitial ∧ after.backoffFactor = before.backoffFactor ∧
    after.maxBackoff = before.maxBackoff

theorem SameBackoff.trans {first second third : TunnelState}
    (early : SameBackoff first second) (late : SameBackoff second third) :
    SameBackoff first third :=
  ⟨late.1.trans early.1, late.2.1.trans early.2.1, late.2.2.trans early.2.2⟩

/-- A step that plans no retry, or plans the next one within the budget. -/
def Backs (state : TunnelState) (answer : TunnelState × List TunnelEffect) : Prop :=
  SameBackoff state answer.1 ∧ answer.1.maxRetries = state.maxRetries ∧
    ((retryTimers answer.2 = [] ∧ answer.1.retryCount = state.retryCount) ∨
      ((state.retryCount : ℤ) < state.maxRetries ∧
        retryTimers answer.2 = [plannedTimer state state.retryCount] ∧
        answer.1.retryCount = state.retryCount + 1))

theorem processExited_cases (state : TunnelState) (data : List (Text × Datum)) :
    Backs state (processExited state data) := by
  unfold processExited
  dsimp only
  split_ifs
  · exact ⟨⟨rfl, rfl, rfl⟩, rfl, .inl ⟨rfl, rfl⟩⟩
  · exact ⟨⟨rfl, rfl, rfl⟩, rfl, .inl ⟨rfl, rfl⟩⟩
  · rename_i remain
    exact ⟨⟨rfl, rfl, rfl⟩, rfl, .inr ⟨remain, rfl, rfl⟩⟩
  · exact ⟨⟨rfl, rfl, rfl⟩, rfl, .inl ⟨rfl, rfl⟩⟩

theorem processExited_failed (noAuthError : (eventGet data "auth_error" .none).truthy = false)
    (failed : (processExited state data).1.status = .failed) :
    state.maxRetries ≤ state.retryCount := by
  by_contra remain
  simp only [not_le] at remain
  unfold processExited at failed
  dsimp only at failed
  rw [noAuthError] at failed
  cases desired : state.desiredRunning with
  | false => simp [desired] at failed
  | true => simp [desired, remain] at failed

theorem nextState_quiet (lower : Text → Text) (state : TunnelState)
    (quiet : event.kind.resets = false) :
    Backs state (nextState lower state event) := by
  cases event with
  | mk kind data =>
    cases kind with
    | startRequested | urlAcquired | stopRequested => cases quiet
    | processStarted => exact ⟨⟨rfl, rfl, rfl⟩, rfl, .inl ⟨rfl, rfl⟩⟩
    | processExited => exact processExited_cases state data
    | retryTimerExpired =>
      cases desired : state.desiredRunning with
      | false | true =>
        simp only [nextState, desired]
        exact ⟨⟨rfl, rfl, rfl⟩, rfl, .inl ⟨rfl, rfl⟩⟩

theorem eventInt_nonneg {key : String} {fallback : ℤ}
    (asked : 0 ≤ eventInt data key 0) (nonneg : 0 ≤ fallback) :
    0 ≤ eventInt data key fallback := by
  unfold eventInt eventGet at asked ⊢
  cases found : PyDict.lookup key.toList data with
  | none => exact nonneg
  | some value =>
    rw [found] at asked
    cases value with
    | none | other => exact nonneg
    | bool | int => exact asked
    | str raw =>
      simp only [Option.getD_some] at asked ⊢
      split
      · exact nonneg
      · rename_i some
        rw [if_neg some] at asked
        cases number : intOfText (strip raw) with
        | none => exact nonneg
        | some n => simpa [number] using asked

theorem nextState_reset (lower : Text → Text) (reset : event.kind.resets = true)
    (asks : AsksNonnegative event) (nonneg : 0 ≤ state.maxRetries) :
    let next := (nextState lower state event).1
    SameBackoff state next ∧ 0 ≤ next.maxRetries ∧ next.retryCount = 0 := by
  cases event with
  | mk kind data =>
    cases kind with
    | startRequested => exact ⟨⟨rfl, rfl, rfl⟩, eventInt_nonneg (asks rfl) nonneg, rfl⟩
    | urlAcquired | stopRequested => exact ⟨⟨rfl, rfl, rfl⟩, nonneg, rfl⟩
    | processStarted | processExited | retryTimerExpired => cases reset

theorem runEvents_nonneg (lower : Text → Text) {events : List TunnelEvent}
    (asks : ∀ event ∈ events, AsksNonnegative event) (nonneg : 0 ≤ state.maxRetries) :
    SameBackoff state (runEvents lower state events).1 ∧
      0 ≤ (runEvents lower state events).1.maxRetries := by
  induction events generalizing state with
  | nil => exact ⟨⟨rfl, rfl, rfl⟩, nonneg⟩
  | cons event rest ih =>
    have later := fun event member =>
      asks event (mem_cons_of_mem _ member)
    cases reset : event.kind.resets with
    | true =>
      obtain ⟨same, kept, _⟩ := nextState_reset lower reset (asks event mem_cons_self) nonneg
      obtain ⟨sameLater, keptLater⟩ := ih later kept
      exact ⟨same.trans sameLater, keptLater⟩
    | false =>
      obtain ⟨same, kept, _⟩ := nextState_quiet lower state reset
      obtain ⟨sameLater, keptLater⟩ := ih later (kept ▸ nonneg)
      exact ⟨same.trans sameLater, keptLater⟩

theorem plannedTimer_congr {before after : TunnelState} (same : SameBackoff before after)
    (sameMax : after.maxRetries = before.maxRetries) :
    plannedTimer after = plannedTimer before := by
  funext retryCount
  simp [plannedTimer, same.1, same.2.1, same.2.2, sameMax]

/-- **Stretch.** Without a reset, the timers of a run carry on the count. -/
theorem runEvents_stretch (lower : Text → Text)
    (quiet : ∀ event ∈ stretch, event.kind.resets = false)
    (within : (state.retryCount : ℤ) ≤ state.maxRetries) :
    ∃ k : ℕ, retryTimers (runEvents lower state stretch).2 =
          (List.range' state.retryCount k).map (plannedTimer state) ∧
        (runEvents lower state stretch).1.retryCount = state.retryCount + k ∧
        (runEvents lower state stretch).1.maxRetries = state.maxRetries ∧
        ((state.retryCount + k : ℕ) : ℤ) ≤ state.maxRetries := by
  induction stretch generalizing state with
  | nil => exact ⟨0, rfl, rfl, rfl, within⟩
  | cons event rest ih =>
    have later := fun event member =>
      quiet event (mem_cons_of_mem _ member)
    obtain ⟨same, sameMax, step⟩ :=
      nextState_quiet lower state (quiet event mem_cons_self)
    have planned := plannedTimer_congr same sameMax
    rw [runEvents]
    dsimp only
    rw [retryTimers_append]
    rcases step with ⟨noTimer, sameCount⟩ | ⟨remain, timer, counted⟩
    · obtain ⟨k, timers, count, max, bound⟩ :=
        ih later (by rw [sameCount, sameMax]; exact within)
      refine ⟨k, ?_, ?_, max.trans sameMax, ?_⟩
      · rw [noTimer, timers, sameCount, planned, nil_append]
      · rw [count, sameCount]
      · rwa [sameCount, sameMax] at bound
    · obtain ⟨k, timers, count, max, bound⟩ :=
        ih later (by rw [counted]; omega)
      refine ⟨k + 1, ?_, ?_, max.trans sameMax, ?_⟩
      · rw [timer, timers, counted, planned]
        rfl
      · omega
      · omega

/-- What the budget of a stretch promises: its timers, in order, the counter
after them, and how many there are when a drop gives up. -/
structure WithinBudget (lower : Text → Text) (initial start : TunnelState)
    (stretch : List TunnelEvent) : Prop where
  timers : ∃ k : ℕ, (k : ℤ) ≤ start.maxRetries ∧
    retryTimers (runEvents lower start stretch).2 = (List.range k).map fun i =>
        ⟨min (initial.backoffInitial * initial.backoffFactor ^ i)
          initial.maxBackoff, i + 1, start.maxRetries⟩
  nondecreasing : 0 ≤ initial.backoffInitial → 1 ≤ initial.backoffFactor →
    ((retryTimers (runEvents lower start stretch).2).map RetryTimer.delaySeconds).Pairwise (· ≤ ·)
  counter : ((runEvents lower start stretch).1.retryCount : ℤ) ≤
    (runEvents lower start stretch).1.maxRetries
  failure : ∀ exit, IsDrop exit →
    (nextState lower (runEvents lower start stretch).1 exit).1.status = .failed →
    ((retryTimers (runEvents lower start stretch).2).length : ℤ) = start.maxRetries

theorem delays_nondecreasing {initial factor cap : ℚ} (nonneg : 0 ≤ initial)
    (grows : 1 ≤ factor) (k : ℕ) :
    ((List.range k).map fun i => min (initial * factor ^ i) cap).Pairwise (· ≤ ·) := by
  rw [pairwise_map]
  refine pairwise_le_range.imp fun {i j} before => ?_
  apply min_le_min_right
  exact mul_le_mul_of_nonneg_left (pow_le_pow_right₀ grows before) nonneg

theorem withinBudget_of_reset (lower : Text → Text) {initial start : TunnelState}
    (same : SameBackoff initial start) (nonneg : 0 ≤ start.maxRetries)
    (atZero : start.retryCount = 0) (quiet : ∀ event ∈ stretch, event.kind.resets = false) :
    WithinBudget lower initial start stretch := by
  obtain ⟨k, timers, count, max, bound⟩ :=
    runEvents_stretch lower quiet (by rw [atZero]; exact nonneg)
  rw [atZero, ← range_eq_range'] at timers
  rw [atZero, Nat.zero_add] at count bound
  have planned : plannedTimer start = fun i =>
      ⟨min (initial.backoffInitial * initial.backoffFactor ^ i)
        initial.maxBackoff, i + 1, start.maxRetries⟩ := by
    funext i
    simp [plannedTimer, same.1, same.2.1, same.2.2]
  rw [planned] at timers
  refine ⟨⟨k, bound, timers⟩, fun nonneg grows => ?_, ?_, ?_⟩
  · rw [timers, map_map]
    exact delays_nondecreasing nonneg grows k
  · rw [count, max]
    exact bound
  · rintro ⟨kind, data⟩ ⟨isExit, noAuthError⟩ failed
    subst isExit
    have exhausted := processExited_failed noAuthError failed
    rw [timers, length_map, length_range]
    omega

/-- **Retry budget.** From the initial state, with any backoff, every stretch
of a run that begins where the run does or behind a reset, and has no reset in
it, stays within its budget. -/
theorem retry_budget (lower : Text → Text) (backoffInitial backoffFactor
    maxBackoff : ℚ) (before stretch : List TunnelEvent)
    (asks : ∀ event ∈ before, AsksNonnegative event)
    (opens : before = [] ∨ ∃ earlier reset, before = earlier ++ [reset] ∧ reset.kind.resets = true)
    (quiet : ∀ event ∈ stretch, event.kind.resets = false) :
    let initial : TunnelState :=
      { backoffInitial := backoffInitial, backoffFactor := backoffFactor,
        maxBackoff := maxBackoff }
    WithinBudget lower initial (runEvents lower initial before).1 stretch := by
  intro initial
  have nonneg : 0 ≤ initial.maxRetries := Int.le.intro 5 rfl
  rcases opens with rfl | ⟨earlier, reset, rfl, isReset⟩
  · exact withinBudget_of_reset lower ⟨rfl, rfl, rfl⟩ nonneg rfl quiet
  · have asksEarlier : ∀ event ∈ earlier, AsksNonnegative event :=
      fun event member => asks event (mem_append_left _ member)
    obtain ⟨same, kept⟩ := runEvents_nonneg lower asksEarlier nonneg
    obtain ⟨sameThen, nonnegThen, atZero⟩ := nextState_reset lower isReset
      (asks reset (by simp)) kept
    rw [runEvents_append]
    exact withinBudget_of_reset lower (same.trans sameThen) nonnegThen atZero quiet

/-- A start, two drops and the timer between them. -/
theorem retry_budget_two_drops : WithinBudget (fun s => s) {}
      (runEvents (fun s => s) {} [⟨.startRequested, []⟩]).1
      [⟨.processExited, []⟩, ⟨.retryTimerExpired, []⟩, ⟨.processExited, []⟩] :=
  retry_budget (fun s => s) 1 2 30 [⟨.startRequested, []⟩] _ (by
      intro event member
      rw [mem_singleton.mp member]
      intro _
      decide)
    (.inr ⟨[], _, rfl, rfl⟩) (by decide)

end WriterAgent.Mcp
