import Mathlib.Data.List.Basic
import Mathlib.Data.List.Nodup
import Mathlib.Logic.Function.Basic

/-!
# Occurrences of the items of a list

Every item is paired with the number of its equals that stand before it, the
counts being carried along the list as a running tally.
-/

namespace Occurrences

open List

variable {α β : Type*} [DecidableEq α]

/-- The tally after one more `a`. -/
def advance (tally : α → ℕ) (a : α) : α → ℕ :=
  Function.update tally a (tally a + 1)

/-- Every item with the number the tally holds for it when it comes. -/
def numbered (tally : α → ℕ) : List α → List (α × ℕ)
  | [] => []
  | a :: rest => (a, tally a) :: numbered (advance tally a) rest

variable {items : List α} {a : α}

@[simp] theorem length_numbered (tally : α → ℕ) (items : List α) :
    (numbered tally items).length = items.length := by
  induction items generalizing tally with
  | nil => rfl
  | cons a rest induction => simp [numbered, induction]

theorem getElem?_numbered_of_notMem {tally : α → ℕ} {i : ℕ}
    (here : items[i]? = some a) (first : a ∉ items.take i) :
    (numbered tally items)[i]? = some (a, tally a) := by
  induction items generalizing tally i with
  | nil => simp at here
  | cons head rest induction =>
    cases i with
    | zero =>
      have same : head = a := by simpa using here
      simp [numbered, same]
    | succ i =>
      rw [take_succ_cons, mem_cons, not_or] at first
      rw [numbered, List.getElem?_cons_succ,
        induction (by simpa using here) first.2, advance,
        Function.update_of_ne first.1]

section Counts

variable [BEq α] [LawfulBEq α]

theorem mem_numbered {tally : α → ℕ} {number : ℕ} : (a, number) ∈ numbered tally items ↔
      tally a ≤ number ∧ number < tally a + items.count a := by
  induction items generalizing tally with
  | nil =>
    simp only [numbered, not_mem_nil, count_nil, false_iff]
    omega
  | cons head rest induction =>
    rw [numbered, mem_cons, induction, Prod.mk.injEq]
    by_cases same : a = head
    · subst same
      rw [count_cons_self, advance, Function.update_self]
      constructor
      · intro here
        rcases here with ⟨-, equal⟩ | ⟨lower, upper⟩ <;> omega
      · intro here
        by_cases first : number = tally a
        · exact Or.inl ⟨rfl, first⟩
        · exact Or.inr (by omega)
    · rw [count_cons_of_ne (Ne.symm same), advance]
      simp [same]

theorem nodup_numbered (tally : α → ℕ) (items : List α) : (numbered tally items).Nodup := by
  induction items generalizing tally with
  | nil => exact nodup_nil
  | cons a rest induction =>
    refine nodup_cons.2 ⟨?_, induction _⟩
    intro member
    have later := (mem_numbered.1 member).1
    rw [advance, Function.update_self] at later
    omega

theorem nodup_map_numbered {name : α × ℕ → β} : ((numbered (fun _ => 0) items).map name).Nodup ↔
      ∀ a b m n, m < items.count a → n < items.count b →
        name (a, m) = name (b, n) → a = b ∧ m = n := by
  rw [nodup_map_iff_inj_on (nodup_numbered _ items)]
  constructor
  · intro distinct a b m n below belowOther same
    exact Prod.mk.injEq .. ▸ distinct (a, m) (mem_numbered.2 ⟨Nat.zero_le m, by omega⟩) (b, n)
      (mem_numbered.2 ⟨Nat.zero_le n, by omega⟩) same
  · intro distinct x member y memberOther same
    obtain ⟨a, m⟩ := x
    obtain ⟨b, n⟩ := y
    have below := (mem_numbered.1 member).2
    have belowOther := (mem_numbered.1 memberOther).2
    obtain ⟨rfl, rfl⟩ := distinct a b m n (by omega) (by omega) same
    rfl

end Counts

end Occurrences
