import Mathlib.Data.List.Basic

/-!
# Maximal runs

A run is an interval of indices on which a property holds.  A maximal one can
be extended on neither side.
-/

namespace MaximalRuns

/-- The property holds from `first` to `last`, and on neither side of them. -/
structure MaximalRun (P : ℕ → Prop) (first last : ℕ) : Prop where
  ordered : first ≤ last
  holds : ∀ i, first ≤ i → i ≤ last → P i
  start : ∀ before, before + 1 = first → ¬ P before
  stop : ¬ P (last + 1)

variable {P : ℕ → Prop} {first last first' last' i : ℕ}

section

variable (run : MaximalRun P first last) (other : MaximalRun P first' last')

include run other

private theorem MaximalRun.first_le (below : i ≤ last) (inside' : first' ≤ i) :
    first' ≤ first := by
  by_contra behind
  obtain ⟨before, isBefore⟩ : ∃ before, before + 1 = first' := ⟨first' - 1, by omega⟩
  exact other.start before isBefore (run.holds before (by omega) (by omega))

private theorem MaximalRun.last_le (inside : first ≤ i) (below' : i ≤ last') : last ≤ last' := by
  by_contra behind
  exact other.stop (run.holds (last' + 1) (by omega) (by omega))

theorem MaximalRun.eq_of_share (inside : first ≤ i ∧ i ≤ last)
    (inside' : first' ≤ i ∧ i ≤ last') : first = first' ∧ last = last' := by
  have down := run.first_le other inside.2 inside'.1
  have up := other.first_le run inside'.2 inside.1
  have forward := run.last_le other inside.1 inside'.2
  have back := other.last_le run inside'.1 inside.2
  omega

end

theorem exists_first (here : P i) : ∃ first ≤ i, (∀ j, first ≤ j → j ≤ i → P j) ∧
      ∀ before, before + 1 = first → ¬ P before := by
  induction i with
  | zero =>
    refine ⟨0, Nat.le_refl 0, ?_, fun before isBefore => by omega⟩
    intro j _ below
    rw [Nat.le_zero.1 below]
    exact here
  | succ i induction =>
    by_cases previous : P i
    · obtain ⟨first, below, holds, start⟩ := induction previous
      refine ⟨first, by omega, ?_, start⟩
      intro j behind inside
      by_cases last : j = i + 1
      · rw [last]
        exact here
      · exact holds j behind (by omega)
    · refine ⟨i + 1, Nat.le_refl _, ?_, ?_⟩
      · intro j behind inside
        rw [Nat.le_antisymm inside behind]
        exact here
      · intro before isBefore
        rw [Nat.succ.inj isBefore]
        exact previous

theorem exists_last {n : ℕ} (bound : ∀ j, P j → j < n) (here : P i) :
    ∃ last, i ≤ last ∧ (∀ j, i ≤ j → j ≤ last → P j) ∧ ¬ P (last + 1) := by
  obtain ⟨room, isRoom⟩ : ∃ room, i + room = n :=
    ⟨n - i, by have := bound i here; omega⟩
  induction room generalizing i with
  | zero =>
    have below := bound i here
    omega
  | succ room induction =>
    by_cases next : P (i + 1)
    · obtain ⟨last, behind, holds, stop⟩ := induction next (by omega)
      refine ⟨last, by omega, ?_, stop⟩
      intro j inside below
      by_cases first : j = i
      · rw [first]
        exact here
      · exact holds j (by omega) below
    · refine ⟨i, Nat.le_refl i, ?_, next⟩
      intro j inside below
      rw [Nat.le_antisymm below inside]
      exact here

theorem exists_maximalRun {n : ℕ} (bound : ∀ j, P j → j < n) (here : P i) :
    ∃ first last, (first ≤ i ∧ i ≤ last) ∧ MaximalRun P first last := by
  obtain ⟨first, below, before, start⟩ := exists_first here
  obtain ⟨last, behind, after, stop⟩ := exists_last bound here
  refine ⟨first, last, ⟨below, behind⟩, by omega, ?_, start, stop⟩
  intro j inside inside'
  by_cases early : j ≤ i
  · exact before j inside early
  · exact after j (by omega) inside'

/-- The property holds from `first` to before `stop`, and not before it. -/
structure OpenRun (P : ℕ → Prop) (first stop : ℕ) : Prop where
  ordered : first < stop
  holds : ∀ i, first ≤ i → i < stop → P i
  start : ∀ before, before + 1 = first → ¬ P before

theorem exists_openRun (here : P i) : ∃ first, OpenRun P first (i + 1) := by
  obtain ⟨first, below, holds, start⟩ := exists_first here
  exact ⟨first, by omega, fun j inside below => holds j inside (by omega), start⟩

theorem maximalRun_iff_openRun :
    MaximalRun P first last ↔ OpenRun P first (last + 1) ∧ ¬ P (last + 1) := by
  constructor
  · intro run
    exact ⟨⟨Nat.lt_succ_of_le run.ordered,
      fun i inside below => run.holds i inside (by omega), run.start⟩, run.stop⟩
  · intro ⟨run, stop⟩
    exact ⟨Nat.le_of_lt_succ run.ordered,
      fun i inside below => run.holds i inside (by omega), run.start, stop⟩

theorem openRun_succ_iff : OpenRun P first (i + 1) ↔
      P i ∧ (OpenRun P first i ∨ first = i ∧ ∀ other, ¬ OpenRun P other i) := by
  constructor
  · intro run
    refine ⟨run.holds i (Nat.le_of_lt_succ run.ordered) (Nat.lt_succ_self i), ?_⟩
    by_cases here : first = i
    · refine Or.inr ⟨here, ?_⟩
      intro other isOpen
      have positive := isOpen.ordered
      obtain ⟨before, isBefore⟩ : ∃ before, before + 1 = first := ⟨first - 1, by omega⟩
      exact run.start before isBefore (isOpen.holds before (by omega) (by omega))
    · have earlier := run.ordered
      exact Or.inl ⟨by omega, fun j inside below => run.holds j inside (by omega), run.start⟩
  · intro ⟨here, goesOn⟩
    rcases goesOn with run | ⟨rfl, fresh⟩
    · refine ⟨Nat.lt_succ_of_lt run.ordered, ?_, run.start⟩
      intro j inside below
      by_cases last : j = i
      · rw [last]
        exact here
      · exact run.holds j inside (by omega)
    · refine ⟨Nat.lt_succ_self _, ?_, ?_⟩
      · intro j inside below
        rw [Nat.le_antisymm (Nat.le_of_lt_succ below) inside]
        exact here
      · intro before isBefore previous
        obtain ⟨other, isOpen⟩ := exists_openRun previous
        rw [isBefore] at isOpen
        exact fresh other isOpen

theorem OpenRun.eq_of_stop {stop : ℕ} (run : OpenRun P first stop)
    (other : OpenRun P first' stop) : first = first' := by
  have below := run.ordered
  have below' := other.ordered
  by_contra differs
  by_cases earlier : first < first'
  · obtain ⟨before, isBefore⟩ : ∃ before, before + 1 = first' := ⟨first' - 1, by omega⟩
    exact other.start before isBefore (run.holds before (by omega) (by omega))
  · obtain ⟨before, isBefore⟩ : ∃ before, before + 1 = first := ⟨first - 1, by omega⟩
    exact run.start before isBefore (other.holds before (by omega) (by omega))

theorem getElem?_takeWhile {α : Type*} {p : α → Bool} {items : List α} :
    (∀ i < (items.takeWhile p).length, ∃ a, items[i]? = some a ∧ p a = true) ∧
      ∀ a, items[(items.takeWhile p).length]? = some a → p a = false := by
  induction items with
  | nil => simp
  | cons head rest induction =>
    cases holds : p head with
    | false => simp [holds]
    | true =>
      rw [List.takeWhile_cons_of_pos holds]
      constructor
      · intro i below
        cases i with
        | zero => exact ⟨head, rfl, holds⟩
        | succ i => exact induction.1 i (Nat.lt_of_succ_lt_succ below)
      · exact induction.2

end MaximalRuns
