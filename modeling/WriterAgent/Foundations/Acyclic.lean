import Mathlib.Logic.Relation
import Mathlib.Order.Cover
import Mathlib.Order.Basic

/-!
# Acyclic relations

Dependency graphs are relations without cycles.  A relation that is changed
by adding edges stays acyclic when no cycle can pass through a new edge.
-/

universe u v

/-- No element reaches itself. -/
def Acyclic {α : Type u} (r : α → α → Prop) : Prop :=
  ∀ a, ¬ Relation.TransGen r a a

namespace Acyclic

variable {α : Type u} {β : Type v} {old new r : α → α → Prop}

theorem mono (acyclic : Acyclic old) (included : ∀ a b, new a b → old a b) : Acyclic new := by
  intro a cycle
  exact acyclic a (Relation.TransGen.mono included a a cycle)

theorem of_rank [Preorder β] (rank : α → β)
    (lowers : ∀ a b, r a b → rank b < rank a) : Acyclic r := by
  intro a cycle
  have path : ∀ {b}, Relation.TransGen r a b → rank b < rank a := by
    intro b reached
    induction reached with
    | single edge => exact lowers _ _ edge
    | tail _ edge ih => exact (lowers _ _ edge).trans ih
  exact lt_irrefl _ (path cycle)

theorem of_cycle_edges (acyclic : Acyclic old)
    (known : ∀ a b, new a b → Relation.ReflTransGen new b a → old a b) :
    Acyclic new := by
  have path : ∀ {a b}, Relation.TransGen new a b →
      Relation.ReflTransGen new b a → Relation.TransGen old a b := by
    intro a b reached back
    induction reached with
    | single edge => exact .single (known _ _ edge back)
    | @tail c d reached edge ih =>
      have toStart : Relation.ReflTransGen new c a :=
        Relation.ReflTransGen.head edge back
      have toMiddle : Relation.ReflTransGen new d c :=
        back.trans reached.to_reflTransGen
      exact (ih toStart).tail (known _ _ edge toMiddle)
  intro a cycle
  exact acyclic a (path cycle .refl)

section Cover

variable [LinearOrder α]

theorem le_of_path {low high : α} (cover : low ⋖ high) (climbs : ∀ a b, r a b → a < b → a ⋖ b)
    (missing : ¬ r low high) {a b : α} (start : a ≤ low) (path : Relation.ReflTransGen r a b) :
    b ≤ low := by
  induction path with
  | refl => exact start
  | @tail c d _ edge ih =>
    by_contra above
    have climb : c ⋖ d := by
      apply climbs c d edge
      exact ih.trans_lt (not_le.mp above)
    have same : c = low := by
      apply le_antisymm ih
      by_contra below
      exact climb.2 (not_le.mp below) (not_le.mp above)
    subst same
    have top : d = high := by
      apply le_antisymm
      · by_contra higher
        exact climb.2 cover.1 (not_le.mp higher)
      · by_contra under
        exact cover.2 climb.1 (not_le.mp under)
    subst top
    exact missing edge

/-- **Attaching.** New edges that go from an element to the one below it, each
only where the reverse edge is missing, close no cycle as long as upward edges
climb one step at a time. -/
theorem attach (acyclic : Acyclic old) (edges : ∀ a b, new a b → old a b ∨ (b ⋖ a ∧ ¬ new b a))
    (climbs : ∀ a b, new a b → a < b → a ⋖ b) : Acyclic new := by
  apply acyclic.of_cycle_edges
  intro a b edge back
  rcases edges a b edge with before | ⟨cover, missing⟩
  · exact before
  · exact absurd (le_of_path cover climbs missing le_rfl back) (not_le.mpr cover.1)

end Cover

end Acyclic
