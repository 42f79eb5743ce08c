import WriterAgent.Calc.AddressText
import WriterAgent.Calc.Python.FormulaEdit
import WriterAgent.Calc.SpreadsheetImport.Graph

/-!
# Ingesting a sheet

Each cell of the used range is classified by its data and formula entry; the
formulas get their precedents, and the model its dependency order.
-/

namespace WriterAgent.Calc.SpreadsheetImport

open PyText Python

/-- A letter as `re.IGNORECASE` compares it. -/
def foldCase (c : Char) : Char :=
  match c.toNat with
  | 0x130 => 'i'
  | 0x131 => 'i'
  | 0x17F => 's'
  | 0x212A => 'k'
  | _ => c.toLower

def afterCall (name : Text) (s : Text) : Option Text :=
  if (s.take name.length).map foldCase = name.map foldCase then
    match (s.drop name.length).dropWhile isSpace with
    | '(' :: rest => some rest
    | _ => none
  else none

def afterEquals (s : Text) : Option (Text × Text) :=
  match s with
  | '=' :: rest => some ('=' :: rest.takeWhile isSpace, rest.dropWhile isSpace)
  | _ => none

def rewriteCollaboraAddinPrefix (formula : Text) : Text :=
  let service := "ORG.COLLABORAOFFICE.SHEET.ADDIN.PYTHONCOMPUTEFUNCTIONS.".toList
  match afterEquals (normalizeFormulaString formula) with
  | none => formula
  | some (equals, rest) =>
    match afterCall (service ++ "GETPYTHON".toList) rest with
    | some body => equals ++ "PYTHON(".toList ++ body
    | none =>
      match afterCall (service ++ "GETPY".toList) rest with
      | some body => equals ++ "PY(".toList ++ body
      | none => formula

/-- The names of `_ADDIN_PY_PREFIX_RE`. -/
def addinNames : List Text :=
  ["ORG.EXTENSION.WRITERAGENT.PYTHONFUNCTION.PYTHON".toList,
    "ORG.EXTENSION.WRITERAGENT.PYTHONFUNCTION.PY".toList,
    "ORG.EXTENSION.LIBREPY.PYTHONFUNCTION.PYTHON".toList,
    "ORG.EXTENSION.LIBREPY.PYTHONFUNCTION.PY".toList]

def canonicalizePyFormulaForParse (formula : Text) : Text :=
  let raw := rewriteCollaboraAddinPrefix (normalizeFormulaString formula)
  match (afterEquals raw).bind fun (_, rest) => addinNames.findSome? (afterCall · rest) with
  | some body => "=PYTHON(".toList ++ body
  | none => raw

def extractPythonCodeLoose (formula : Text) : Option Text :=
  match parsePythonFormula formula with
  | some parts => some parts.code
  | none =>
    let raw := normalizeFormulaString formula
    match pyCallOpenEnd raw true with
    | none => none
    | some innerStart =>
      let inner := raw.drop innerStart
      if inner.getLast? ≠ some ')' then none
      else
        let body := strip inner.dropLast
        if body.head? = some '"' then (parseQuotedString body).map Prod.fst
        else parseUnquotedCodeArg body

def cellLooksPythonLike (formula : Text) : Bool :=
  (parsePythonFormula formula).isSome || (extractPythonCodeLoose formula).isSome

def isPyFormulaText (formula : Text) : Bool :=
  cellLooksPythonLike (canonicalizePyFormulaForParse formula)

/-- `_PROMPT_HEAD_RE`. -/
def isPromptHead (formula : Text) : Bool :=
  ((afterEquals formula).bind fun (_, rest) => afterCall "PROMPT".toList rest).isSome

def calcErrorStrings : List Text :=
  ["#NULL!".toList, "#DIV/0!".toList, "#VALUE!".toList, "#REF!".toList, "#NAME?".toList,
    "#NUM!".toList, "#N/A".toList, "#ERROR!".toList]

def isCalcErrorDisplay : Option CellValue → Option Text
  | some (.text s) =>
    let text := upper (strip s)
    if text ∈ calcErrorStrings then some text else none
  | _ => none

def isBraced (s : Text) : Bool := s.head? == some '\x7b' && s.getLast? == some '\x7d'

/-- `classify_cell`: type, value, formula and error code. -/
def classifyCell (rawVal : Option CellValue) (rawFormula : Text) :
    CellType × Option CellValue × Option Text × Option Text :=
  if rawFormula.head? = some '=' ∨ isBraced rawFormula then
    if isBraced rawFormula then (.arrayFormula, rawVal, some rawFormula, none)
    else if isPyFormulaText rawFormula then (.pyFormula, rawVal, some rawFormula, none)
    else if isPromptHead (normalizeFormulaString rawFormula) then
      (.prompt, rawVal, some rawFormula, none)
    else
      match isCalcErrorDisplay rawVal with
      | some code => (.error, rawVal, some rawFormula, some code)
      | none => (.formula, rawVal, some rawFormula, none)
  else
    match rawVal with
    | some (.number x) => (.constant, some (.number x), none, none)
    | some (.text []) => (.empty, none, none, none)
    | some (.text s) => (.constant, some (.text s), none, none)
    | none => (.empty, none, none, none)

def formatUsedRange (startCol startRow endCol endRow : ℕ) : Text :=
  let start := formatAddress startCol startRow
  let stop := formatAddress endCol endRow
  if start = stop then start else start ++ ':' :: stop

def cellRecord (address : Text) (rawVal : Option CellValue) (rawFormula : Text) : CellRecord :=
  let (type, value, formula, errorCode) := classifyCell rawVal rawFormula
  ⟨address, type, value, formula, none, [], errorCode⟩

def gridRecords (startCol startRow : ℕ) (dataArray : List (List (Option CellValue)))
    (formulaArray : List (List Text)) : List CellRecord :=
  ((dataArray.zip formulaArray).zipIdx startRow).flatMap fun ((dataRow, formulaRow), row) =>
    ((dataRow.zip formulaRow).zipIdx startCol).map fun ((rawVal, rawFormula), col) =>
      cellRecord (formatAddress col row) rawVal rawFormula

/-- The precedents of a formula: its references in the sheet, without the cell
itself. -/
def withPrecedents (scope : List Text) (cell : CellRecord) : CellRecord :=
  match cell.formula with
  | none => cell
  | some formula =>
    if formula = [] then cell
    else
      let refs := (extractCellRefs formula).filter fun r => r ≠ cell.address
      { cell with precedents := filterRefsToScope refs scope }

/-- What the passes raise. -/
inductive ImportFailure where
  | valueError (message : Text)
  | keyError (key : Text)
  | assertionError
deriving DecidableEq, Repr

/-- `ingest_from_arrays`.  A grid of rows without a cell has no last column; it
is not told apart from a grid of one column here. -/
def ingestFromArrays (sheetName : Text) (startCol startRow : ℕ)
    (dataArray : List (List (Option CellValue))) (formulaArray : List (List Text)) :
    Except ImportFailure SheetModel :=
  if dataArray.length ≠ formulaArray.length then
    .error (.valueError "data_array and formula_array row counts differ".toList)
  else if dataArray = [] then
    .ok (attachGraphToModel ⟨sheetName, formatAddress startCol startRow, PyDict.empty, [], []⟩)
  else
    let endRow := startRow + dataArray.length - 1
    let endCol := startCol + ((dataArray.map List.length).max?.getD 0) - 1
    match (dataArray.zip formulaArray).findIdx? fun (dataRow, formulaRow) =>
        formulaRow.length ≠ dataRow.length with
    | some rowIdx =>
      .error (.valueError ("row ".toList ++ (toString rowIdx).toList ++
        ": data and formula column counts differ".toList))
    | none =>
      let cells := PyDict.ofPairs ((gridRecords startCol startRow dataArray formulaArray).map
        fun record => (record.address, record))
      .ok (attachGraphToModel ⟨sheetName, formatUsedRange startCol startRow endCol endRow,
          cells.mapValues (withPrecedents cells.keys), [], []⟩)

end WriterAgent.Calc.SpreadsheetImport
