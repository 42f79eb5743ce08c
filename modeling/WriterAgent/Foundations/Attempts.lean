import Mathlib.Data.List.Basic

/-!
# Attempts that are repeated

A loop makes one attempt after another.  An attempt either ends the loop or is
abandoned, and then the loop goes on from a new state.
-/

namespace WriterAgent

variable {σ α ω : Type*}

/-- Attempts are made until one ends: the state in which the last one began,
the last attempt and how it ended.  Without an end, the loop still goes on. -/
def attemptAll (attempt : σ → α → σ ⊕ ω) : σ → List α → Option (σ × α × ω)
  | _, [] => none
  | state, action :: rest =>
    match attempt state action with
    | .inl next => attemptAll attempt next rest
    | .inr ending => some (state, action, ending)

def abandoned (attempt : σ → α → σ ⊕ ω) : σ → List α → List α
  | _, [] => []
  | state, action :: rest =>
    match attempt state action with
    | .inl next => action :: abandoned attempt next rest
    | .inr _ => []

variable {attempt : σ → α → σ ⊕ ω} {state final : σ} {actions : List α} {last : α} {ending : ω}

theorem attempt_of_attemptAll
    (ended : attemptAll attempt state actions = some (final, last, ending)) :
    attempt final last = .inr ending := by
  induction actions generalizing state with
  | nil => cases ended
  | cons action rest ih =>
    cases made : attempt state action with
    | inl next =>
      apply @ih next
      simpa only [attemptAll, made] using ended
    | inr _ =>
      simp only [attemptAll, made, Option.some.injEq, Prod.mk.injEq] at ended
      obtain ⟨rfl, rfl, rfl⟩ := ended
      exact made

theorem attemptAll_singleton (made : attempt state last = .inr ending) :
    attemptAll attempt state [last] = some (state, last, ending) := by
  simp only [attemptAll, made]

theorem attemptAll_invariant (invariant : σ → Prop) (kept : ∀ state action next, invariant state →
      attempt state action = .inl next → invariant next)
    (holds : invariant state)
    (ended : attemptAll attempt state actions = some (final, last, ending)) :
    invariant final := by
  induction actions generalizing state with
  | nil => cases ended
  | cons action rest ih =>
    cases made : attempt state action with
    | inl next =>
      apply ih (kept state action next holds made)
      simpa only [attemptAll, made] using ended
    | inr _ =>
      simp only [attemptAll, made, Option.some.injEq, Prod.mk.injEq] at ended
      obtain ⟨rfl, -, -⟩ := ended
      exact holds

/-- **Budget rule.** If every abandoned attempt uses up some of a budget, it
bounds how many are abandoned. -/
theorem abandoned_length_le (budget : σ → ℕ)
    (lowers : ∀ state action next, attempt state action = .inl next → budget next < budget state) :
    (abandoned attempt state actions).length ≤ budget state := by
  induction actions generalizing state with
  | nil => exact Nat.zero_le _
  | cons action rest ih =>
    cases made : attempt state action with
    | inl next =>
      have lower := lowers state action next made
      have later := @ih next
      simp only [abandoned, made, List.length_cons]
      omega
    | inr _ =>
      simp only [abandoned, made, List.length_nil]
      exact Nat.zero_le _

/-- **Fresh start rule.** If a clean attempt keeps the state fresh, any other
one makes it dirty, and what is dirty stays so, then the last attempt begins
fresh exactly when every abandoned attempt is clean. -/
theorem fresh_iff_of_attemptAll (fresh dirty : σ → Prop) {clean : α → Prop}
    (apart : ∀ state, fresh state → ¬dirty state)
    (ofClean : ∀ state action next, fresh state →
      attempt state action = .inl next → clean action → fresh next)
    (ofUnclean : ∀ state action next, fresh state →
      attempt state action = .inl next → ¬clean action → dirty next)
    (stays : ∀ state action next, dirty state → attempt state action = .inl next → dirty next)
    (isFresh : fresh state)
    (ended : attemptAll attempt state actions = some (final, last, ending)) :
    fresh final ↔ ∀ action ∈ abandoned attempt state actions, clean action := by
  induction actions generalizing state with
  | nil => cases ended
  | cons action rest ih =>
    cases made : attempt state action with
    | inl next =>
      have later : attemptAll attempt next rest = some (final, last, ending) := by
        simpa only [attemptAll, made] using ended
      simp only [abandoned, made, List.forall_mem_cons]
      by_cases isClean : clean action
      · rw [ih (ofClean state action next isFresh made isClean) later]
        exact (and_iff_right isClean).symm
      · have endsDirty : dirty final := by
          apply attemptAll_invariant dirty stays _ later
          exact ofUnclean state action next isFresh made isClean
        constructor
        · intro endsFresh
          exact absurd endsDirty (apart final endsFresh)
        · intro allClean
          exact absurd allClean.1 isClean
    | inr _ =>
      simp only [attemptAll, made, Option.some.injEq, Prod.mk.injEq] at ended
      obtain ⟨rfl, -, -⟩ := ended
      simp only [abandoned, made, List.not_mem_nil, false_imp_iff, implies_true, iff_true]
      exact isFresh

end WriterAgent
