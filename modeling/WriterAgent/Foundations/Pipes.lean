import Mathlib.Data.List.Basic

/-!
# Pipes that deliver in pieces

A reader that waits for a pipe finds in each turn that a piece is ready, that
nothing has come yet, or that its time is over.  A pipe is the list of what
its reader will find; behind the last turn stands the end of the stream.
-/

namespace Pipes

/-- What a reader that waits finds.  A piece is never empty, and of a quiet
turn the reader can ask whether the writer still lives. -/
inductive Turn (α : Type*) where
  | piece (first : α) (more : List α)
  | quiet (alive : Bool)
  | expired
  deriving DecidableEq, Repr

abbrev Pipe (α : Type*) := List (Turn α)

variable {α : Type*}

def Turn.items : Turn α → List α
  | .piece first more => first :: more
  | .quiet _ => []
  | .expired => []

def delivered (pipe : Pipe α) : List α := pipe.flatMap Turn.items

@[simp] theorem delivered_nil : delivered ([] : Pipe α) = [] := rfl

@[simp] theorem delivered_cons (turn : Turn α) (pipe : Pipe α) :
    delivered (turn :: pipe) = turn.items ++ delivered pipe := rfl

def behind : List α → Pipe α → Pipe α
  | [], pipe => pipe
  | first :: more, pipe => .piece first more :: pipe

@[simp] theorem delivered_behind (left : List α) (pipe : Pipe α) :
    delivered (behind left pipe) = left ++ delivered pipe := by
  cases left with
  | nil | cons => rfl

/-- No turn is too late, and the writer lives while nothing comes. -/
def InTime (pipe : Pipe α) : Prop :=
  ∀ turn ∈ pipe, turn ≠ .expired ∧ turn ≠ .quiet false

theorem InTime.of_cons {turn : Turn α} {pipe : Pipe α} (inTime : InTime (turn :: pipe)) :
    InTime pipe :=
  fun other member => inTime other (List.mem_cons_of_mem _ member)

theorem InTime.behind {pipe : Pipe α} (inTime : InTime pipe) (left : List α) :
    InTime (behind left pipe) := by
  cases left with
  | nil => exact inTime
  | cons first more =>
    intro turn member
    rcases List.mem_cons.1 member with rfl | later
    · exact ⟨by simp, by simp⟩
    · exact inTime turn later

/-- A pipe that delivers these items, in whatever pieces. -/
structure Delivers (pipe : Pipe α) (items : List α) : Prop where
  inTime : InTime pipe
  items : delivered pipe = items

end Pipes
