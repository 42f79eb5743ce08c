import WriterAgent.Foundations.Text

/-!
# Undo managers

A manager keeps contexts, open ones inside of each other and closed ones that can
be undone.  A context is undone as one: what it has recorded is taken back to the
state in which it was entered.  A locked manager records nothing.
-/

namespace WriterAgent

open PyText

/-- A context, or an action of its own. -/
structure UndoContext (σ : Type*) where
  title : Text
  before : σ
  touched : Bool
  deriving DecidableEq, Repr

/-- The open contexts, the innermost one first, and the closed ones, the newest
one first. -/
structure UndoManager (σ : Type*) where
  opened : List (UndoContext σ)
  done : List (UndoContext σ)
  locked : Bool
  deriving DecidableEq, Repr

namespace UndoManager

variable {σ : Type*}

/-- `enterUndoContext`; a locked manager ignores it. -/
def enterUndoContext (manager : UndoManager σ) (title : Text) (state : σ) : UndoManager σ :=
  if manager.locked then manager
  else { manager with opened := ⟨title, state, false⟩ :: manager.opened }

/-- An action is recorded in the innermost open context; with none open, it can
be undone on its own. -/
def record (manager : UndoManager σ) (title : Text) (before : σ) : UndoManager σ :=
  if manager.locked then manager
  else
    match manager.opened with
    | [] => { manager with done := ⟨title, before, true⟩ :: manager.done }
    | context :: outer => { manager with opened := { context with touched := true } :: outer }

def lockIf (manager : UndoManager σ) (stuck : Bool) : UndoManager σ :=
  { manager with locked := manager.locked || stuck }

/-- `leaveUndoContext`, with no answer where it raises.  An empty context
disappears, and one inside of another is an action of that one. -/
def leaveUndoContext (manager : UndoManager σ) : Option (UndoManager σ) :=
  if manager.locked then some manager
  else
    match manager.opened with
    | [] => none
    | [context] => some { manager with
        opened := []
        done := if context.touched then context :: manager.done
          else manager.done }
    | context :: outer :: rest => some { manager with
        opened :=
          { outer with touched := outer.touched || context.touched } :: rest }

def getAllUndoActionTitles (manager : UndoManager σ) : List Text :=
  manager.done.map (·.title)

/-- `undo`, with the state that it returns to. -/
def undo (manager : UndoManager σ) : Option (σ × UndoManager σ) :=
  if manager.locked || !manager.opened.isEmpty then none
  else
    match manager.done with
    | [] => none
    | context :: rest => some (context.before, { manager with done := rest })

theorem opened_of_undo {manager rest : UndoManager σ} {state : σ}
    (undone : manager.undo = some (state, rest)) :
    manager.opened = [] ∧ rest.opened = [] := by
  rw [undo] at undone
  split_ifs at undone with ready
  have closed : manager.opened = [] := by
    rw [Bool.or_eq_true, not_or, Bool.not_eq_true', Bool.not_eq_false, List.isEmpty_iff] at ready
    exact ready.2
  split at undone
  · cases undone
  · cases undone
    exact ⟨closed, closed⟩

/-- A context guards what has happened since it was entered: it is the only one
that is open, and it has recorded something, unless the manager is locked or
things are as they were. -/
structure Guards (manager base : UndoManager σ) (title : Text) (start : σ)
    (asBefore : Prop) : Prop where
  done : manager.done = base.done
  opened : ∃ touched, manager.opened = [⟨title, start, touched⟩] ∧
    (manager.locked = false → touched = false → asBefore)

variable {manager base : UndoManager σ} {title : Text} {start : σ} {asBefore : Prop}

theorem guards_enterUndoContext (noneOpen : manager.opened = [])
    (unlocked : manager.locked = false) (holds : asBefore) :
    (manager.enterUndoContext title start).Guards manager title start
      asBefore := by
  rw [enterUndoContext, unlocked, if_neg Bool.false_ne_true]
  exact ⟨rfl, false, by simp only [noneOpen], fun _ _ => holds⟩

theorem Guards.record (guards : manager.Guards base title start asBefore)
    (actionTitle : Text) (before : σ) (later : Prop) :
    (manager.record actionTitle before).Guards base title start later := by
  obtain ⟨touched, opened, -⟩ := guards.opened
  cases locked : manager.locked with
  | true =>
    rw [UndoManager.record, if_pos locked]
    refine ⟨guards.done, touched, opened, fun unlocked => ?_⟩
    rw [locked] at unlocked
    cases unlocked
  | false =>
    rw [UndoManager.record, locked, opened]
    exact ⟨guards.done, true, rfl, nofun⟩

section

variable (guards : manager.Guards base title start asBefore)

include guards

theorem Guards.lockIf (stuck : Bool) : (manager.lockIf stuck).Guards base title start asBefore := by
  obtain ⟨touched, opened, same⟩ := guards.opened
  refine ⟨guards.done, touched, opened, fun unlocked => same ?_⟩
  exact (Bool.or_eq_false_iff.mp unlocked).1

theorem Guards.imp {later : Prop} (keeps : asBefore → later) :
    manager.Guards base title start later := by
  obtain ⟨touched, opened, same⟩ := guards.opened
  exact ⟨guards.done, touched, opened, fun unlocked untouched => keeps (same unlocked untouched)⟩

/-- **Leaving.** Behind a context that is left, its title is on top and undoing
returns to the state at its start, or things are as they were. -/
theorem Guards.left (unique : title ∉ base.getAllUndoActionTitles) {left : UndoManager σ}
    (leaves : manager.leaveUndoContext = some left) (closed : left.opened = []) :
    (left.getAllUndoActionTitles.head? = some title ∧
        ∀ state rest, left.undo = some (state, rest) → state = start) ∨
      left.getAllUndoActionTitles.head? ≠ some title ∧ asBefore := by
  obtain ⟨touched, opened, same⟩ := guards.opened
  cases locked : manager.locked with
  | true =>
    rw [leaveUndoContext, if_pos locked, Option.some.injEq] at leaves
    rw [← leaves, opened] at closed
    cases closed
  | false =>
    rw [leaveUndoContext, locked, if_neg Bool.false_ne_true, opened] at leaves
    simp only [Option.some.injEq] at leaves
    subst leaves
    cases touched with
    | true =>
      left
      refine ⟨rfl, fun state rest undone => ?_⟩
      have onTop : some (start, { manager with opened := [] }) = some (state, rest) := by
        rw [← undone, locked]
        rfl
      cases onTop
      rfl
    | false =>
      right
      refine ⟨fun onTop => unique ?_, same locked rfl⟩
      rw [guards.done] at onTop
      exact List.mem_of_head? onTop

end

end UndoManager

end WriterAgent
