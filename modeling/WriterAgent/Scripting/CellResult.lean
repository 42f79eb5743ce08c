import WriterAgent.Foundations.Dict
import WriterAgent.Foundations.Text

/-!
# A cell's result is its own

`plugin/scripting/venv/venv_sandbox.py`: what a cell of a shared session sends
back.  Names are bound to references to objects, and a cell does with them, with
the objects and with the open figures what the interpreter makes of its code.
-/

namespace WriterAgent.Scripting

open PyText

/-- How the code of a cell ends.  `assigned` is not in the code: the code has
assigned the name `result`. -/
inductive CodeOutput (ω ρ : Type) where
  | done (world : ω) (state : PyDict Text ρ) (output : ρ) (logs : Text) (assigned : Bool)
  | interpreterError (world : ω) (state : PyDict Text ρ) (message logs : Text)
  | raised (world : ω) (state : PyDict Text ρ) (message : Text)

def resultName : Text := "result".toList

/-- What the interpreter makes of the code of a cell.  Without an assignment to
`result` the name keeps its object, or is deleted. -/
structure CellProgram (ω ρ : Type) where
  run : ω → PyDict Text ρ → CodeOutput ω ρ
  unassigned : ∀ world state world' state' output logs,
    run world state = .done world' state' output logs false →
      state'.get? resultName = state.get? resultName ∨ state'.get? resultName = none

/-- `serialize_result` and the figures of matplotlib.  `serialize` gives the
message if it raises; `figures` gives the payload of the open ones with its note
on stdout, none if nothing is open or matplotlib is missing. -/
structure Egress (ω ρ π : Type) where
  serialize : ω → ρ → Except Text π
  holdsImages : π → Bool
  figures : ω → Option (π × Text)
  closeAll : ω → ω

inductive CellResponse (π : Type) where
  | ok (result : π) (stdout : Text)
  | error (message : Text) (traceback : Bool) (stdout : Text)

def CellResponse.result? {π : Type} : CellResponse π → Option π
  | .ok result _ => some result
  | .error .. => none

/-- `LocalPythonExecutor` of a session, with the objects of its process. -/
structure SessionExecutor (ω ρ : Type) where
  world : ω
  state : PyDict Text ρ

variable {ω ρ π : Type}

/-- What is sent back for an object: its serialisation, unless figures are open
and it holds no image. -/
def Egress.payload (egress : Egress ω ρ π) (world : ω) (object : ρ) :
    Except Text (ω × π × Text) := do
  let serialized ← egress.serialize world object
  if egress.holdsImages serialized then
    return (egress.closeAll world, serialized, [])
  else match egress.figures world with
    | some (captured, note) => return (egress.closeAll world, captured, note)
    | none => return (world, serialized, [])

def Egress.sent (egress : Egress ω ρ π) (world : ω) (object : ρ) : Option π :=
  (egress.payload world object).toOption.map fun sent => sent.2.1

def restorePriorResult (state : PyDict Text ρ) : Option ρ → PyDict Text ρ
  | none => state.pop resultName
  | some prior => state.set resultName prior

/-- `current is not _RESULT_MISSING and current is not prior_result`. -/
def chosenResult [DecidableEq ρ] (prior current : Option ρ) (output : ρ) : ρ :=
  match current with
  | some object => if current = prior then output else object
  | none => output

def runOnExecutor [DecidableEq ρ] (egress : Egress ω ρ π)
    (executor : SessionExecutor ω ρ) (cell : CellProgram ω ρ) :
    SessionExecutor ω ρ × CellResponse π :=
  let prior := executor.state.get? resultName
  match cell.run executor.world executor.state with
  | .done world state output logs _ =>
    let result := chosenResult prior (state.get? resultName) output
    match egress.payload world result with
    | .ok (world', payload, note) => (⟨world', state⟩, .ok payload (logs ++ note))
    | .error message => (⟨world, restorePriorResult state prior⟩, .error message true [])
  | .interpreterError world state message logs =>
    (⟨world, restorePriorResult state prior⟩, .error message false logs)
  | .raised world state message => (⟨world, restorePriorResult state prior⟩, .error message true [])

def afterCells [DecidableEq ρ] (egress : Egress ω ρ π)
    (executor : SessionExecutor ω ρ) (history : List (CellProgram ω ρ)) :
    SessionExecutor ω ρ :=
  history.foldl (fun executor cell => (runOnExecutor egress executor cell).1) executor

/-- What the cell itself asks to be sent back: the final value of `result` if it
has assigned the name, else the value of its last expression. -/
def CellProgram.ownPayload (cell : CellProgram ω ρ) (egress : Egress ω ρ π)
    (executor : SessionExecutor ω ρ) : Option π :=
  match cell.run executor.world executor.state with
  | .done world state output _ assigned =>
    egress.sent world (if assigned then (state.get? resultName).getD output else output)
  | _ => none

/-- The cell leaves `result` bound to the object it was bound to, although it
has assigned the name, and its last expression is sent as something else. -/
def CellProgram.RebindsSame (cell : CellProgram ω ρ) (egress : Egress ω ρ π)
    (executor : SessionExecutor ω ρ) : Prop :=
  ∃ world state output logs object, cell.run executor.world executor.state =
        .done world state output logs true ∧
      executor.state.get? resultName = some object ∧
      state.get? resultName = some object ∧
      egress.sent world output ≠ egress.sent world object

/-- The cell asks for the same whatever ran before it. -/
def CellProgram.ReadsNothing (cell : CellProgram ω ρ) (egress : Egress ω ρ π) : Prop :=
  ∀ executor executor' : SessionExecutor ω ρ,
    cell.ownPayload egress executor = cell.ownPayload egress executor'

theorem get?_restorePriorResult (state : PyDict Text ρ) (prior : Option ρ) :
    (restorePriorResult state prior).get? resultName = prior := by
  cases prior <;> simp [restorePriorResult]

section

variable [DecidableEq ρ] {egress : Egress ω ρ π}
  {executor : SessionExecutor ω ρ} {cell : CellProgram ω ρ}

theorem result?_runOnExecutor (egress : Egress ω ρ π)
    (executor : SessionExecutor ω ρ) (cell : CellProgram ω ρ) :
    (runOnExecutor egress executor cell).2.result? =
      match cell.run executor.world executor.state with
      | .done world state output _ _ =>
        egress.sent world (chosenResult (executor.state.get? resultName)
          (state.get? resultName) output)
      | _ => none := by
  unfold runOnExecutor
  cases cell.run executor.world executor.state with
  | done world state output logs assigned =>
    dsimp only [Egress.sent]
    cases egress.payload world (chosenResult (executor.state.get? resultName)
      (state.get? resultName) output) <;> rfl
  | interpreterError | raised => rfl

theorem result?_eq_own_iff : (runOnExecutor egress executor cell).2.result? =
        cell.ownPayload egress executor ↔ ¬ cell.RebindsSame egress executor := by
  rw [result?_runOnExecutor, CellProgram.ownPayload, CellProgram.RebindsSame]
  cases ran : cell.run executor.world executor.state with
  | done world state output logs assigned =>
    cases assigned with
    | false =>
      have chosen : chosenResult (executor.state.get? resultName)
          (state.get? resultName) output = output := by
        rcases cell.unassigned _ _ _ _ _ _ ran with same | deleted
        · rw [same]
          cases executor.state.get? resultName <;> simp [chosenResult]
        · rw [deleted]
          rfl
      simp [chosen]
    | true =>
      cases current : state.get? resultName with
      | none => simp [chosenResult, current]
      | some object =>
        by_cases same : executor.state.get? resultName = some object
        · simp [chosenResult, same, current]
        · simp [chosenResult, same, current, Ne.symm same]
  | interpreterError | raised => simp

/-- A failing cell leaves `result` as it was. -/
theorem get?_result_of_failed (failed : (runOnExecutor egress executor cell).2.result? = none) :
    (runOnExecutor egress executor cell).1.state.get? resultName =
      executor.state.get? resultName := by
  unfold runOnExecutor at failed ⊢
  cases ran : cell.run executor.world executor.state with
  | done world state output logs assigned =>
    rw [ran] at failed
    dsimp only at failed ⊢
    cases sent : egress.payload world (chosenResult
        (executor.state.get? resultName) (state.get? resultName) output) with
    | ok =>
      rw [sent] at failed
      cases failed
    | error => exact get?_restorePriorResult state _
  | interpreterError _ state | raised _ state => exact get?_restorePriorResult state _

end

/-- `result = 5`, then the expression `7`; equal numbers are one object. -/
def fiveThenSeven : CellProgram Unit ℕ where
  run world state := .done world (state.set resultName 5) 7 [] true
  unassigned := by
    intro _ _ _ _ _ _ same
    cases same

def plainEgress : Egress Unit ℕ ℕ where
  serialize _ object := .ok object
  holdsImages _ := false
  figures _ := none
  closeAll world := world

end WriterAgent.Scripting
