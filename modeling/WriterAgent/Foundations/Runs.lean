import Mathlib.Data.List.Basic
import Mathlib.Order.Basic

/-!
# Runs of a state machine

A machine has states and actions, and a run is a list of actions taken one
after another.
-/

namespace WriterAgent

open List

variable {σ α ε : Type*}

def Along (step : σ → α → σ) (condition : σ → α → Prop) : σ → List α → Prop
  | _, [] => True
  | state, action :: rest => condition state action ∧ Along step condition (step state action) rest

instance Along.decidable (step : σ → α → σ) (condition : σ → α → Prop)
    [each : ∀ state action, Decidable (condition state action)] (state : σ) :
    ∀ run, Decidable (Along step condition state run)
  | [] => .isTrue trivial
  | action :: rest => @instDecidableAnd _ _ (each state action)
      (Along.decidable step condition (step state action) rest)

variable {state final : σ} {run : List α} {step : σ → α → σ} {condition allowed safe : σ → α → Prop}

section

variable (invariant : σ → Prop)
  (kept : ∀ state action, invariant state → allowed state action → invariant (step state action))

include invariant kept

/-- **Invariant rule.** If allowed steps keep the invariant and are safe in
the states it holds in, then a run of allowed steps is a run of safe steps. -/
theorem Along.of_invariant (isSafe : ∀ state action, invariant state → allowed state action →
      safe state action) (holds : invariant state) (along : Along step allowed state run) :
    Along step safe state run := by
  induction run generalizing state with
  | nil => trivial
  | cons action rest ih =>
    obtain ⟨first, later⟩ := along
    exact ⟨isSafe state action holds first, ih (kept state action holds first) later⟩

theorem Along.foldl_invariant (holds : invariant state)
    (along : Along step allowed state run) : invariant (run.foldl step state) := by
  induction run generalizing state with
  | nil => exact holds
  | cons action rest ih =>
    obtain ⟨first, later⟩ := along
    exact ih (kept state action holds first) later

end

theorem Along.and {first second : σ → α → Prop} (along : Along step first state run)
    (along' : Along step second state run) :
    Along step (fun state action => first state action ∧ second state action) state run := by
  induction run generalizing state with
  | nil => trivial
  | cons action rest ih => exact ⟨⟨along.1, along'.1⟩, ih along.2 along'.2⟩

theorem Along.append_iff {front back : List α} :
    Along step condition state (front ++ back) ↔ Along step condition state front ∧
        Along step condition (front.foldl step state) back := by
  induction front generalizing state with
  | nil => exact (true_and _).to_iff.symm
  | cons action rest ih => simp only [cons_append, Along, foldl_cons, ih, and_assoc]

/-- **Exact conditions.** If in the states of an invariant a step is safe just
when it is allowed, and safe steps keep the invariant, then the runs of safe
steps are the runs of allowed steps. -/
theorem Along.iff_of_invariant (invariant : σ → Prop)
    (kept : ∀ state action, invariant state → safe state action →
      invariant (step state action)) (same : ∀ state action, invariant state →
      (safe state action ↔ allowed state action)) (holds : invariant state) :
    Along step safe state run ↔ Along step allowed state run := by
  constructor
  · exact Along.of_invariant invariant kept
      (fun state action isKept => (same state action isKept).mp) holds
  · exact Along.of_invariant invariant (fun state action isKept isAllowed =>
        kept state action isKept ((same state action isKept).mpr isAllowed))
      (fun state action isKept => (same state action isKept).mpr) holds

def answers {β : Type*} (step : σ → α → σ × β) : σ → List α → List β
  | _, [] => []
  | state, action :: rest => (step state action).2 :: answers step (step state action).1 rest

/-- **Simulation rule.** If related states give the same answer to an action
and are related after it, then the machines answer every run alike. -/
theorem answers_eq_of_simulation {τ γ β : Type*} {step : σ → α → σ × β}
    {other : τ → γ → τ × β} (reads : γ → α) (related : σ → τ → Prop)
    (each : ∀ state twin action, related state twin →
      (step state (reads action)).2 = (other twin action).2 ∧
        related (step state (reads action)).1 (other twin action).1) {twin : τ}
    (relate : related state twin) (run : List γ) :
    answers step state (run.map reads) = answers other twin run := by
  induction run generalizing state twin with
  | nil => rfl
  | cons action rest ih =>
    obtain ⟨same, later⟩ := each state twin action relate
    rw [map_cons, answers, answers, same, ih later]

/-- A run of possible steps, each under a condition, from one state to
another. -/
def Reaches (step : σ → α → Option σ) (condition : σ → α → Prop) : σ → List α → σ → Prop
  | state, [], final => state = final
  | state, action :: rest, final => condition state action ∧
      ∃ next, step state action = some next ∧ Reaches step condition next rest final

/-- The state that a run ends in, when each step is allowed and possible. -/
def follow (step : σ → α → Option σ) (condition : σ → α → Prop)
    [∀ state action, Decidable (condition state action)] :
    σ → List α → Option σ
  | state, [] => some state
  | state, action :: rest =>
    if condition state action then
      (step state action).bind fun next => follow step condition next rest
    else none

theorem Reaches.of_follow {step : σ → α → Option σ}
    [∀ state action, Decidable (condition state action)]
    (followed : follow step condition state run = some final) :
    Reaches step condition state run final := by
  induction run generalizing state with
  | nil => exact Option.some.inj followed
  | cons action rest ih =>
    rw [follow] at followed
    split_ifs at followed with allowed
    obtain ⟨next, taken, later⟩ := Option.bind_eq_some_iff.mp followed
    exact ⟨allowed, next, taken, ih later⟩

theorem Reaches.invariant {step : σ → α → Option σ} (invariant : σ → Prop)
    (kept : ∀ state action next, invariant state → condition state action →
      step state action = some next → invariant next) (holds : invariant state)
    (reaches : Reaches step condition state run final) : invariant final := by
  induction run generalizing state with
  | nil =>
    cases reaches
    exact holds
  | cons action rest ih =>
    obtain ⟨allowed, next, taken, later⟩ := reaches
    exact ih (kept state action next holds allowed taken) later

/-- **Termination rule.** A run of steps that lower a measure is no longer
than the measure. -/
theorem Reaches.length_le {step : σ → α → Option σ} (measure : σ → ℕ)
    (lowers : ∀ state action next, condition state action →
      step state action = some next → measure next < measure state)
    (reaches : Reaches step condition state run final) : run.length ≤ measure state := by
  induction run generalizing state with
  | nil => exact Nat.zero_le _
  | cons action rest ih =>
    obtain ⟨allowed, next, taken, later⟩ := reaches
    have lower := lowers state action next allowed taken
    have short := ih later
    rw [length_cons]
    omega

theorem Reaches.exists_stuck {step : σ → α → Option σ} (measure : σ → ℕ)
    (lowers : ∀ state action next, condition state action →
      step state action = some next → measure next < measure state) (state : σ) :
    ∃ run final, Reaches step condition state run final ∧
      ∀ action, condition final action → step final action = none := by
  induction bound : measure state using Nat.strongRecOn generalizing state with
  | ind n ih =>
    by_cases stuck : ∀ action, condition state action → step state action = none
    · exact ⟨[], state, rfl, stuck⟩
    · push Not at stuck
      obtain ⟨action, allowed, possible⟩ := stuck
      obtain ⟨next, taken⟩ := Option.ne_none_iff_exists'.mp possible
      have lower := lowers state action next allowed taken
      obtain ⟨run, final, reaches, isStuck⟩ :=
        ih (measure next) (bound ▸ lower) next rfl
      exact ⟨action :: run, final, ⟨allowed, next, taken, reaches⟩, isStuck⟩

/-- What a machine has done: the events it answered, the effects of its
answers and the state after the last one. -/
structure History (σ α ε : Type*) where
  state : σ
  effects : List ε
  handled : List α

def drive (step : σ → α → Option (σ × List ε)) : σ → List α → History σ α ε
  | state, [] => ⟨state, [], []⟩
  | state, event :: rest =>
    match step state event with
    | none => ⟨state, [], []⟩
    | some (next, effects) =>
      let later := drive step next rest
      ⟨later.state, effects ++ later.effects, event :: later.handled⟩

section Machine

variable {step : σ → α → Option (σ × List ε)} {β : Type*}

/-- **Queue rule.** If every answer passes on what it takes from the front of
the queue and adds what the event brings to its back, then a run passes on
everything in order. -/
theorem drive_queue (queue : σ → List β) (brings : α → List β) (passes : ε → Option β)
    (each : ∀ state event next effects, step state event = some (next, effects) →
      effects.filterMap passes ++ queue next = queue state ++ brings event)
    (state : σ) (events : List α) :
    (drive step state events).effects.filterMap passes ++ queue (drive step state events).state =
      queue state ++ (drive step state events).handled.flatMap brings := by
  induction events generalizing state with
  | nil => simp [drive]
  | cons event rest ih =>
    cases answer : step state event with
    | none => simp [drive, answer]
    | some result =>
      obtain ⟨next, effects⟩ := result
      have first := each state event next effects answer
      have later := ih next
      simp only [drive, answer, filterMap_append, flatMap_cons, append_assoc]
      rw [later, ← append_assoc, first, append_assoc]

/-- **Latch rule.** If a latched state stays latched and its answers are
quiet, then so it is along every run from it. -/
theorem drive_latched (latched : σ → Prop) (quiet : ε → Prop)
    (each : ∀ state event next effects, latched state → step state event = some (next, effects) →
      latched next ∧ ∀ effect ∈ effects, quiet effect) (start : latched state)
    (events : List α) :
    latched (drive step state events).state ∧
      ∀ effect ∈ (drive step state events).effects, quiet effect := by
  induction events generalizing state with
  | nil => exact ⟨start, fun effect member => nomatch member⟩
  | cons event rest ih =>
    cases answer : step state event with
    | none =>
      simp only [drive, answer]
      exact ⟨start, fun effect member => nomatch member⟩
    | some result =>
      obtain ⟨next, effects⟩ := result
      obtain ⟨kept, silent⟩ := each state event next effects start answer
      obtain ⟨stays, later⟩ := ih kept
      simp only [drive, answer]
      refine ⟨stays, fun effect member => ?_⟩
      rcases mem_append.mp member with here | after
      · exact silent effect here
      · exact later effect after

theorem drive_append_latched (latched : σ → Prop) (quiet : ε → Prop)
    (each : ∀ state event next effects, latched state → step state event = some (next, effects) →
      latched next ∧ ∀ effect ∈ effects, quiet effect)
    (state : σ) (before after : List α)
    (reached : latched (drive step state before).state) :
    latched (drive step state (before ++ after)).state ∧
      ∃ more, (drive step state (before ++ after)).effects =
          (drive step state before).effects ++ more ∧
        ∀ effect ∈ more, quiet effect := by
  induction before generalizing state with
  | nil =>
    obtain ⟨stays, silent⟩ := drive_latched latched quiet each reached after
    exact ⟨stays, _, rfl, silent⟩
  | cons event rest ih =>
    cases answer : step state event with
    | none =>
      simp only [drive, answer, cons_append] at reached ⊢
      exact ⟨reached, [], rfl, fun effect member => nomatch member⟩
    | some result =>
      obtain ⟨next, effects⟩ := result
      simp only [drive, answer] at reached
      obtain ⟨stays, more, whole, silent⟩ := ih next reached
      simp only [drive, answer, cons_append, whole, append_assoc]
      exact ⟨stays, more, rfl, silent⟩

end Machine

end WriterAgent
