import WriterAgent.Calc.SpreadsheetImport.Preserve
import WriterAgent.Calc.SpreadsheetImport.Vectorize

/-!
# The converting pass

Formula cells are translated to PY formulas where the translator takes them;
everything else is as in the preserve pass, and the report lists what became of
each cell.
-/

namespace WriterAgent.Calc.SpreadsheetImport

open PyText

structure TranslationResult where
  ok : Bool
  code : Option Text
  dataRanges : Option (List Text)
  reason : Option Text

structure TodoCell where
  address : Text
  reason : Text
deriving DecidableEq

structure ConversionReport where
  converted : List Text
  skipped : List TodoCell
  normalizedPy : List Text
  passThrough : List Text

/-- The formula translator: whether a formula has a function node, if it parses;
its translation; the PY formula of code and ranges; and the PY formulas of a
vector group from its first translation, if that one can be vectorized. -/
structure Translator where
  hasFunctionNode : Text → Option Bool
  translateFormula : Text → Text → TranslationResult
  emitPyFormula : Text → List Text → Text → Text
  vectorFormula : TranslationResult → Text → Text → Text → Option (ℕ → Text)

variable (translator : Translator)

/-- What became of a cell. -/
inductive Outcome where
  | kept
  | normalizedPy
  | passThrough (reason : Option Text)
  | converted
deriving DecidableEq

def vectorFormulas (model : SheetModel) : List (Text × Text) :=
  (detectVectorizedColumns model).entries.flatMap fun (firstAddr, group) =>
    match (model.cells.get? firstAddr).bind CellRecord.formula with
    | some (c :: rest) =>
      if translator.hasFunctionNode (c :: rest) = some false then []
      else
        match translator.vectorFormula (translator.translateFormula (c :: rest) firstAddr)
            firstAddr (group.getLastD firstAddr) model.sheetName with
        | some formula => group.zipIdx.map fun (addr, idx) => (addr, formula idx)
        | none => []
    | _ => []

def convertCell (sheetName : Text) (circular : List Text) (pyByAddr : PyDict Text PyCellExtract)
    (handled : PyDict Text Text) (addr : Text) (record : CellRecord) : OutputCell × Outcome :=
  let same := outputCellFromRecord record pyByAddr
  match handled.get? addr with
  | some formula => (⟨addr, none, some formula, none⟩, .kept)
  | none =>
    match record.type with
    | .empty => (⟨addr, none, none, none⟩, .kept)
    | .constant => (same, .kept)
    | .pyFormula => (same, .normalizedPy)
    | .prompt => (same, .passThrough (some "PROMPT".toList))
    | .arrayFormula => (same, .passThrough (some "ARRAY_FORMULA".toList))
    | _ =>
      if addr ∈ circular then (same, .passThrough (some "CIRCULAR_REF".toList))
      else
        match record.formula with
        | some (c :: rest) =>
          if translator.hasFunctionNode (c :: rest) = some false then
            (same, .passThrough none)
          else
            let translation := translator.translateFormula (c :: rest) addr
            match translation.ok, translation.code, translation.dataRanges with
            | true, some (d :: code), some dataRanges =>
              (⟨addr, none, some (translator.emitPyFormula (d :: code) dataRanges sheetName), none⟩,
                .converted)
            | _, _, _ =>
              (same, .passThrough (match translation.reason with
                | some (r :: reason) => some (r :: reason)
                | _ => some "UNSUPPORTED_FUNCTION".toList))
        | _ => (same, .kept)

/-- The report of the outcomes, after the cells of the vector groups. -/
def reportOf (vectorized : List Text) (outcomes : List (Text × Outcome)) : ConversionReport where
  converted := vectorized ++ (outcomes.filter fun item => item.2 = .converted).map Prod.fst
  skipped := outcomes.filterMap fun item =>
    match item.2 with
    | .passThrough (some reason) => some ⟨item.1, reason⟩
    | _ => none
  normalizedPy := (outcomes.filter fun item => item.2 = .normalizedPy).map Prod.fst
  passThrough := outcomes.filterMap fun item =>
    match item.2 with
    | .passThrough _ => some item.1
    | _ => none

def buildConvertedOutputModel (isAlnum : Char → Bool) (vectorize : Bool)
    (model : SheetModel) : Except ImportFailure (OutputSheetModel × ConversionReport) := do
  let pyExtracts ← extractPyCells isAlnum model
  let pyByAddr := extractsByAddr pyExtracts
  let vectorized := if vectorize then vectorFormulas translator model else []
  let handled := PyDict.ofPairs vectorized
  let converted := (sortTexts model.cells.keys).filterMap fun addr =>
    (model.cells.get? addr).map fun record =>
      (addr, convertCell translator model.sheetName model.circularGroups.flatten pyByAddr
        handled addr record)
  return (⟨model.sheetName, model.usedRange,
      PyDict.ofPairs (converted.map fun item => (item.1, item.2.1)), pyExtracts, []⟩,
    reportOf (vectorized.map Prod.fst) (converted.map fun item => (item.1, item.2.2)))

end WriterAgent.Calc.SpreadsheetImport
