import WriterAgent.Foundations.Dict
import WriterAgent.Foundations.Text

/-!
# Spilling a result grid

`plugin/calc/python/function.py`: a formula that returns a grid writes it into
its neighbour cells.  The check for empty neighbours runs during evaluation,
the write later from a timer, and a registry remembers the written cells.
-/

namespace WriterAgent.Calc.Python

open PyText

/-- The alternatives of `_PY_FORMULA_CODE_REGEX`, in order. -/
def pyFunctionNames : List Text :=
  ["GETPYTHON".toList, "GETPY".toList, "PYTHON".toList, "PY".toList]

/-- The quoted code after the opening quote, unescaped.  A doubled quote that
leaves no closing quote is taken apart again. -/
def quotedCode : Text → Option Text
  | [] => none
  | '"' :: '"' :: rest =>
    match quotedCode rest with
    | some code => some ('"' :: code)
    | none => some []
  | '"' :: _ => some []
  | c :: rest => (quotedCode rest).map (c :: ·)

/-- A call with quoted code at the start of a text.  A prefix before the
function name does not change what is captured. -/
def codeOfCall (s : Text) : Option Text :=
  pyFunctionNames.findSome? fun name =>
    if upper (s.take name.length) = name then
      match lstripBy isSpace (s.drop name.length) with
      | '(' :: rest =>
        match lstripBy isSpace rest with
        | '"' :: rest => quotedCode rest
        | _ => none
      | _ => none
    else none

/-- `extract_code_from_py_formula`: the first call in the formula. -/
def extractCodeFromPyFormula : Text → Option Text
  | [] => none
  | c :: rest =>
    match codeOfCall (c :: rest) with
    | some code => some code
    | none => extractCodeFromPyFormula rest

def crlfToLf : Text → Text
  | '\r' :: '\n' :: rest => '\n' :: crlfToLf rest
  | c :: rest => c :: crlfToLf rest
  | [] => []

def mentionsPy (formula : Text) : Bool :=
  decide ("PYTHON".toList <:+: formula) || decide ("PY".toList <:+: formula)

def isMatchingPyFormula (formula code : Text) : Bool :=
  if formula.isEmpty || code.isEmpty then false
  else if !mentionsPy (upper formula) then false
  else
    match extractCodeFromPyFormula formula with
    | none => false
    | some extracted => extracted == code || strip (crlfToLf extracted) == strip (crlfToLf code)

abbrev Coord := Nat × Nat

scoped instance : LawfulBEq Coord := inferInstance

/-- The cell contents of a spreadsheet and the values of a result grid: the
content of an empty cell, `getFormula()`, and the content a cell has after a
grid value was coerced and written. -/
structure CellModel (κ ρ : Type) where
  empty : κ
  getFormula : κ → Text
  spillValue : ρ → κ

/-- The key of `SPILL_REGISTRY`. -/
structure SpillKey where
  docUrl : Text
  sheetName : Text
  origin : Coord
deriving DecidableEq

abbrev SpillRegistry := PyDict SpillKey (List Coord)

/-- `SPILL_REGISTRY.get(key, [])`. -/
def spillsOf (registry : SpillRegistry) (key : SpillKey) : List Coord :=
  (registry.get? key).getD []

abbrev Cells (κ : Type) := Text → Coord → κ

section Grid

variable {ρ : Type}

/-- `max(len(row) for row in grid)`. -/
def numCols (grid : List (List ρ)) : Nat :=
  (grid.map List.length).foldl max 0

def spillTargets (origin : Coord) (grid : List (List ρ)) : List Coord :=
  (List.range grid.length).flatMap fun r =>
    (List.range (numCols grid)).filterMap fun c =>
      if (r, c) = (0, 0) then none else some (origin.1 + r, origin.2 + c)

end Grid

section Operations

variable {κ ρ : Type} (model : CellModel κ ρ)

/-- The coerced value at an offset; short rows are padded with nothing. -/
def gridValue (grid : List (List ρ)) (r c : Nat) : κ :=
  match (grid[r]?).bind (·[c]?) with
  | some value => model.spillValue value
  | none => model.empty

def clearSpills (origin : Coord) (spills : List Coord) (sheet : Coord → κ) : Coord → κ :=
  fun coord =>
    if coord ∈ spills ∧ coord ≠ origin then model.empty else sheet coord

/-- The two block writes: the first row without the formula's cell, and the
remaining rows. -/
def writeGrid (origin : Coord) (grid : List (List ρ)) (sheet : Coord → κ) : Coord → κ :=
  fun coord =>
    if (1 < numCols grid ∧ coord.1 = origin.1 ∧ origin.2 + 1 ≤ coord.2 ∧
          coord.2 ≤ origin.2 + numCols grid - 1) ∨
        (1 < grid.length ∧ origin.1 + 1 ≤ coord.1 ∧
          coord.1 ≤ origin.1 + grid.length - 1 ∧ origin.2 ≤ coord.2 ∧
          coord.2 ≤ origin.2 + numCols grid - 1) then
      gridValue model grid (coord.1 - origin.1) (coord.2 - origin.2)
    else sheet coord

def setSheet (cells : Cells κ) (name : Text) (sheet : Coord → κ) : Cells κ :=
  fun other => if other = name then sheet else cells other

/-- A scheduled `perform_deferred_spill`. -/
structure PendingSpill (ρ : Type) where
  key : SpillKey
  grid : List (List ρ)
  code : Text

/-- A cell that an operation clears or overwrites for an origin, and what it
held at that moment. -/
structure Touch (κ : Type) where
  key : SpillKey
  coord : Coord
  before : κ

/-- What an operation leaves: cells and registry, whether the registry is
saved, the cells it touched, and the area it wrote. -/
structure SpillOutcome (κ : Type) where
  cells : Cells κ
  registry : SpillRegistry
  saves : Bool
  touched : List (Touch κ)
  written : List Coord

/-- The last test of `_prepare_auto_spill`: every neighbour is in bounds, and
empty or spilled by the same origin before. -/
def spillIsFree [DecidableEq κ] (sheet : Coord → κ) (previous : List Coord)
    (targets : List Coord) : Bool :=
  targets.all fun coord =>
    decide (coord.1 < 1048576 ∧ coord.2 < 1024 ∧ (coord ∈ previous ∨ sheet coord = model.empty))

/-- `perform_deferred_spill` on a document with the given URL. -/
def performDeferredSpill (url : Text) (cells : Cells κ)
    (registry : SpillRegistry) (spill : PendingSpill ρ) : SpillOutcome κ :=
  let key := spill.key
  let sheet := cells key.sheetName
  if url ≠ key.docUrl then ⟨cells, registry, false, [], []⟩
  else if !spill.code.isEmpty && !isMatchingPyFormula
      (model.getFormula (sheet key.origin)) spill.code then
    ⟨cells, registry, false, [], []⟩
  else
    let previous := spillsOf registry key
    let cleared := clearSpills model key.origin previous sheet
    let clears := (previous.filter (· ≠ key.origin)).map fun coord =>
      ⟨key, coord, sheet coord⟩
    if spill.grid.length = 0 ∨ numCols spill.grid = 0 then
      ⟨setSheet cells key.sheetName cleared, registry.set key [], true, clears, []⟩
    else
      let targets := spillTargets key.origin spill.grid
      ⟨setSheet cells key.sheetName (writeGrid model key.origin spill.grid cleared),
        registry.set key targets, true,
        clears ++ targets.map fun coord => ⟨key, coord, cleared coord⟩,
        targets⟩

/-- The loop variables of `CalcSpillModifyListener.modified`. -/
structure CleanUp (κ : Type) where
  sheet : Coord → κ
  toRemove : List SpillKey
  touched : List (Touch κ)

/-- One registry entry: an origin that holds no Python formula any more loses
its spilled cells. -/
def cleanUpEntry (url sheetName : Text) (state : CleanUp κ)
    (entry : SpillKey × List Coord) : CleanUp κ :=
  let (key, spills) := entry
  if key.docUrl = url ∧ key.sheetName = sheetName then
    let formula := model.getFormula (state.sheet key.origin)
    if formula.isEmpty || !mentionsPy formula then
      ⟨clearSpills model key.origin spills state.sheet, state.toRemove ++ [key],
        state.touched ++ (spills.filter (· ≠ key.origin)).map fun coord =>
          ⟨key, coord, state.sheet coord⟩⟩
    else state
  else state

/-- `CalcSpillModifyListener.modified` for one sheet. -/
def cleanUpOrphans (url sheetName : Text) (cells : Cells κ)
    (registry : SpillRegistry) : SpillOutcome κ :=
  let state := registry.entries.foldl (cleanUpEntry model url sheetName) ⟨cells sheetName, [], []⟩
  ⟨setSheet cells sheetName state.sheet, registry.filterKeys (· ∉ state.toRemove),
    !state.toRemove.isEmpty, state.touched, []⟩

end Operations

/-- Contents as texts; `getFormula()` of a text is the text. -/
def textCells : CellModel Text Text := ⟨[], id, id⟩

/-- A sheet that holds `=PY("x")` in A1. -/
def columnSheet : Cells Text := fun _ coord =>
  if coord = (0, 0) then "=PY(\"x\")".toList else []

end WriterAgent.Calc.Python
