import Mathlib.Data.List.Basic

/-!
# Segments of a marked stream

A stream of pieces carries text of several kinds, cut in any way, and marks
between the texts.  Joining adjacent texts of one kind forgets the cuts and
nothing else.
-/

namespace WriterAgent

/-- A piece of text of one kind, or a mark. -/
inductive Piece (κ α β : Type*) where
  | text (kind : κ) (content : List α)
  | mark (m : β)
  deriving DecidableEq, Repr

namespace Piece

variable {κ α β : Type*}

/-- The single characters of a piece with their kind, or its mark. -/
def cellsOf : Piece κ α β → List ((κ × α) ⊕ β)
  | .text kind content => content.map fun a => .inl (kind, a)
  | .mark m => [.inr m]

def cells (pieces : List (Piece κ α β)) : List ((κ × α) ⊕ β) :=
  pieces.flatMap cellsOf

@[simp] theorem cellsOf_text_nil (kind : κ) : cellsOf (.text kind [] : Piece κ α β) = [] := rfl

@[simp] theorem cellsOf_mark (m : β) : cellsOf (.mark m : Piece κ α β) = [.inr m] := rfl

theorem cellsOf_text_append (kind : κ) (front back : List α) :
    cellsOf (.text kind (front ++ back) : Piece κ α β) =
      cellsOf (.text kind front) ++ cellsOf (.text kind back) := by
  simp [cellsOf]

@[simp] theorem cells_nil : cells ([] : List (Piece κ α β)) = [] := rfl

@[simp] theorem cells_cons (piece : Piece κ α β) (rest : List (Piece κ α β)) :
    cells (piece :: rest) = cellsOf piece ++ cells rest := rfl

@[simp] theorem cells_append (front back : List (Piece κ α β)) :
    cells (front ++ back) = cells front ++ cells back := by
  simp [cells]

variable [DecidableEq κ]

def pushText (kind : κ) (content : List α) : List (Piece κ α β) → List (Piece κ α β)
  | .text kind' more :: rest =>
    if content.isEmpty then .text kind' more :: rest
    else if kind = kind' then .text kind (content ++ more) :: rest
    else .text kind content :: .text kind' more :: rest
  | segments => if content.isEmpty then segments else .text kind content :: segments

/-- The pieces with adjacent texts of one kind joined and empty texts
dropped. -/
def joined : List (Piece κ α β) → List (Piece κ α β)
  | [] => []
  | .text kind content :: rest => pushText kind content (joined rest)
  | .mark m :: rest => .mark m :: joined rest

theorem pushText_nil (kind : κ) (segments : List (Piece κ α β)) :
    pushText kind [] segments = segments := by
  cases segments with
  | nil => rfl
  | cons piece rest =>
    cases piece with
    | text | mark => rfl

theorem pushText_append (kind : κ) (front back : List α) (segments : List (Piece κ α β)) :
    pushText kind (front ++ back) segments =
      pushText kind front (pushText kind back segments) := by
  cases back with
  | nil => rw [pushText_nil, List.append_nil]
  | cons a back =>
    cases front with
    | nil => rw [pushText_nil, List.nil_append]
    | cons b front =>
      cases segments with
      | nil => simp [pushText]
      | cons piece rest =>
        cases piece with
        | mark m => simp [pushText]
        | text kind' more => by_cases same : kind = kind' <;> simp [pushText, same]

theorem cells_pushText (kind : κ) (content : List α) (segments : List (Piece κ α β)) :
    cells (pushText kind content segments) = cellsOf (.text kind content) ++ cells segments := by
  cases content with
  | nil => rw [pushText_nil, cellsOf_text_nil, List.nil_append]
  | cons a content =>
    cases segments with
    | nil => rfl
    | cons piece rest =>
      cases piece with
      | mark m => rfl
      | text kind' more =>
        by_cases same : kind = kind'
        · subst same
          simp [pushText, cellsOf]
        · simp [pushText, same]

theorem cells_joined (pieces : List (Piece κ α β)) : cells (joined pieces) = cells pieces := by
  induction pieces with
  | nil => rfl
  | cons piece rest ih =>
    cases piece with
    | text kind content => rw [joined, cells_pushText, ih, cells_cons]
    | mark m => rw [joined, cells_cons, cells_cons, ih]

def segmentsOf : List ((κ × α) ⊕ β) → List (Piece κ α β)
  | [] => []
  | .inl (kind, a) :: rest => pushText kind [a] (segmentsOf rest)
  | .inr m :: rest => .mark m :: segmentsOf rest

theorem segmentsOf_text (kind : κ) (content : List α) (rest : List ((κ × α) ⊕ β)) :
    segmentsOf (cellsOf (.text kind content) ++ rest) =
      pushText kind content (segmentsOf rest) := by
  induction content with
  | nil => rw [pushText_nil, cellsOf_text_nil, List.nil_append]
  | cons a content ih =>
    calc segmentsOf (cellsOf (.text kind (a :: content)) ++ rest) = pushText kind [a]
            (segmentsOf (cellsOf (.text kind content) ++ rest)) := rfl
      _ = pushText kind (a :: content) (segmentsOf rest) := by
            rw [ih, ← pushText_append, List.singleton_append]

theorem joined_eq_segmentsOf (pieces : List (Piece κ α β)) :
    joined pieces = segmentsOf (cells pieces) := by
  induction pieces with
  | nil => rfl
  | cons piece rest ih =>
    cases piece with
    | text kind content => rw [joined, cells_cons, segmentsOf_text, ih]
    | mark m => rw [joined, ih]; rfl

/-- **Joining law.** Streams join alike exactly when their cells agree. -/
theorem joined_eq_iff {left right : List (Piece κ α β)} :
    joined left = joined right ↔ cells left = cells right := by
  constructor
  · intro same
    rw [← cells_joined left, same, cells_joined]
  · intro same
    rw [joined_eq_segmentsOf, same, ← joined_eq_segmentsOf]

end Piece

end WriterAgent
