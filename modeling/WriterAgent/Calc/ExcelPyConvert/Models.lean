import WriterAgent.Foundations.Dict
import WriterAgent.Foundations.Text

/-!
# Data of the Excel conversion

The records of `plugin/calc/excel_py_convert/models.py` that pass between the
parser of a workbook, the converter and the writers.
-/

namespace WriterAgent.Calc.ExcelPyConvert

open PyText

/-- The `headers=` argument of a reference. -/
inductive HeaderMode where
  | headersTrue
  | headersFalse
  | omitted
deriving Repr, DecidableEq

inductive DepRole where
  | data
  | ordering
deriving Repr, DecidableEq

/-- One normalised data binding after merging equal ranges. -/
structure BindingInfo where
  a1 : Text
  headerMode : HeaderMode := .omitted
  role : DepRole := .data
  originalIndices : List Nat := []
deriving Repr, DecidableEq

/-- One cell after conversion. -/
structure ConvertedCell where
  sheet : Text
  cell : Text
  originalCode : Text
  convertedCode : Text
  dataArgs : List Text := []
  orderingArgs : List Text := []
  excelDeps : List Text := []
  bindings : List BindingInfo := []
  dagFormula : Text := []
  excelFormula : Text := []
  issues : List Text := []
  sharedKernel : Bool := false
  snapshotDeps : List Text := []
  returnType : Int := 0
  converted : Bool := true
  arrayRef : Text := []
  scriptIndex : Int := -1
deriving Repr, DecidableEq

structure ConversionReport where
  cells : List ConvertedCell := []
deriving Repr, DecidableEq

end WriterAgent.Calc.ExcelPyConvert
