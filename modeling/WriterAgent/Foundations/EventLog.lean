import Mathlib.Data.List.Basic

/-!
# Event logs

A log grows at its end.  What is stated of every event of a log, of the events
before it or of the events since it, is kept one appended event at a time.
-/

namespace EventLog

open List

variable {ε : Type*}
variable {log front back : List ε} {event last : ε}

theorem snoc_eq_split : log ++ [last] = front ++ event :: back ↔
      (back = [] ∧ log = front ∧ last = event) ∨
        ∃ body, back = body ++ [last] ∧ log = front ++ event :: body := by
  constructor
  · intro split
    rcases eq_nil_or_concat back with rfl | ⟨body, final, rfl⟩
    · obtain ⟨same, isLast⟩ := append_inj' split rfl
      exact Or.inl ⟨rfl, same, singleton_inj.mp isLast⟩
    · rw [concat_eq_append, ← cons_append, ← append_assoc]
        at split
      obtain ⟨same, isLast⟩ := append_inj' split rfl
      cases isLast
      exact Or.inr ⟨body, concat_eq_append, same⟩
  · rintro (⟨rfl, rfl, rfl⟩ | ⟨body, rfl, rfl⟩)
    · rfl
    · simp

theorem split_of_append {more since : List ε}
    (split : log ++ more = front ++ event :: since) (old : event ∉ more) :
    ∃ body, since = body ++ more ∧ log = front ++ event :: body := by
  rcases append_eq_append_iff.mp split with
    ⟨rest, rfl, isMore⟩ | ⟨rest, isLog, isSince⟩
  · exact absurd (isMore ▸ mem_append_right _ mem_cons_self) old
  · cases rest with
    | nil =>
      rw [nil_append] at isSince
      exact absurd (isSince ▸ mem_cons_self) old
    | cons first body =>
      cases isSince
      exact ⟨body, rfl, isLog⟩

/-- A statement about every event and the events before it. -/
def Everywhere (property : List ε → ε → Prop) (log : List ε) : Prop :=
  ∀ front event back, log = front ++ event :: back → property front event

/-- A statement about every event, the events before it and the events
since. -/
def Since (property : List ε → ε → List ε → Prop) (log : List ε) : Prop :=
  ∀ front event back, log = front ++ event :: back → property front event back

theorem everywhere_nil {property : List ε → ε → Prop} : Everywhere property [] := by
  intro front event back split
  exact absurd split.symm (append_ne_nil_of_right_ne_nil _ nofun)

theorem since_nil {property : List ε → ε → List ε → Prop} : Since property [] := by
  intro front event back split
  exact absurd split.symm (append_ne_nil_of_right_ne_nil _ nofun)

theorem Everywhere.snoc {property : List ε → ε → Prop} {log : List ε}
    {last : ε} (everywhere : Everywhere property log)
    (now : property log last) : Everywhere property (log ++ [last]) := by
  intro front event back split
  rcases snoc_eq_split.mp split with ⟨rfl, rfl, rfl⟩ | ⟨body, rfl, same⟩
  · exact now
  · exact everywhere front event body same

theorem Since.mono {before after : List ε → ε → List ε → Prop} (since : Since before log)
    (weaker : ∀ front event back, before front event back →
      after front event back) : Since after log :=
  fun front event back split =>
    weaker front event back (since front event back split)

theorem Since.snoc {before after : List ε → ε → List ε → Prop}
    {log : List ε} {last : ε} (since : Since before log)
    (later : ∀ front event back, log = front ++ event :: back →
      before front event back → after front event (back ++ [last]))
    (now : after log last []) : Since after (log ++ [last]) := by
  intro front event back split
  rcases snoc_eq_split.mp split with ⟨rfl, rfl, rfl⟩ | ⟨body, rfl, same⟩
  · exact now
  · exact later front event body same (since front event body same)

/-- A statement about every two events: the events before the first, the first,
the events between them and the second. -/
def Pairs (property : List ε → ε → List ε → ε → Prop) (log : List ε) : Prop :=
  Everywhere (fun before last =>
    Since (fun front event between => property front event between last) before) log

theorem Pairs.holds {property : List ε → ε → List ε → ε → Prop} (pairs : Pairs property log)
    {middle : List ε} (split : log = front ++ event :: (middle ++ last :: back)) :
    property front event middle last := by
  refine pairs (front ++ event :: middle) last back ?_ front event middle rfl
  rw [split, append_assoc, cons_append]

theorem Pairs.snoc {property : List ε → ε → List ε → ε → Prop} {log : List ε}
    {last : ε} (pairs : Pairs property log)
    (now : Since (fun front event between => property front event between last)
      log) : Pairs property (log ++ [last]) :=
  Everywhere.snoc pairs now

end EventLog
