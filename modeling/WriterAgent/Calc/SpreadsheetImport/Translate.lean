import Mathlib.Data.NNRat.Defs
import WriterAgent.Foundations.FloatRepr

/-!
# Translating a formula to Python text

`plugin/calc/spreadsheet_import/translate.py`: the tree of a formula is
emitted as text.  Most constructs put parentheses around what they emit; some
function emitters do not.
-/

namespace WriterAgent.Calc.SpreadsheetImport

open PyText

inductive PrefixOp where
  | minus | plus

/-- Infix operators; text concatenation is left out. -/
inductive InfixOp where
  | add | sub | mul | div | pow | eq | ne | lt | gt | le | ge

/-- Functions of two arguments. -/
inductive BinaryFunction where
  | mod | power | quotient

inductive UnaryFunction where
  | abs | int | not

/-- Functions of any number of arguments. -/
inductive LogicalFunction where
  | and | or

mutual

/-- The tree of a formula, each function with the arguments it needs.  A
number literal is what `float` reads its text as before rounding. -/
inductive FormulaNode where
  | number (value : ℚ≥0)
  | range (address : Text)
  | signed (op : PrefixOp) (right : FormulaNode)
  | infixOp (op : InfixOp) (left right : FormulaNode)
  | binaryFunction (name : BinaryFunction) (first second : FormulaNode)
  | unaryFunction (name : UnaryFunction) (arg : FormulaNode)
  | ifFunction (test yes no : FormulaNode)
  | logicalFunction (name : LogicalFunction) (args : FormulaNodes)

inductive FormulaNodes where
  | nil
  | cons (head : FormulaNode) (rest : FormulaNodes)

end

def canonicalRange (address : Text) : Text := upper (removeChar '$' address)

def addRange (ranges : List Text) (address : Text) : List Text :=
  if canonicalRange address ∈ ranges then ranges
  else ranges ++ [canonicalRange address]

mutual

def walkRanges : FormulaNode → List Text → List Text
  | .number _, ranges => ranges
  | .range address, ranges => addRange ranges address
  | .signed _ right, ranges => walkRanges right ranges
  | .infixOp _ left right, ranges => walkRanges right (walkRanges left ranges)
  | .binaryFunction _ first second, ranges => walkRanges second (walkRanges first ranges)
  | .unaryFunction _ arg, ranges => walkRanges arg ranges
  | .ifFunction test yes no, ranges => walkRanges no (walkRanges yes (walkRanges test ranges))
  | .logicalFunction _ args, ranges => walkRangesAll args ranges

def walkRangesAll : FormulaNodes → List Text → List Text
  | .nil, ranges => ranges
  | .cons head rest, ranges => walkRangesAll rest (walkRanges head ranges)

end

def dataRanges (node : FormulaNode) : List Text := walkRanges node []

/-- `_CodegenState.ref_expr`, after all ranges were added. -/
def refExpr (ranges : List Text) (address : Text) : Text :=
  if ranges.length = 1 then "data".toList
  else "data[".toList ++ (natText (ranges.idxOf (canonicalRange address)) ++ "]".toList)

/-- `_emit_operand` on a number: `str(int(val))` for a small whole number,
else `str(val)`. -/
def emitOperand (value : ℚ≥0) : Text :=
  match Binary64.ofRat value with
  | .finite q => if q = ⌊q⌋ ∧ |q| < 10 ^ 15 then natText ⌊q⌋.toNat else Binary64.repr q
  | .infinite _ => "inf".toList
  | .nan => "nan".toList

/-- The operator between the operands in `_emit_operator`. -/
def InfixOp.text : InfixOp → Text
  | .add => " + ".toList
  | .sub => " - ".toList
  | .mul => " * ".toList
  | .div => " / ".toList
  | .pow => " ** ".toList
  | .eq => " == ".toList
  | .ne => " != ".toList
  | .lt => " < ".toList
  | .gt => " > ".toList
  | .le => " <= ".toList
  | .ge => " >= ".toList

/-- `_P1_FUNCTION_EMITTERS` of the functions of two arguments. -/
def BinaryFunction.emit (name : BinaryFunction) (first second : Text) : Text :=
  match name with
  | .mod => first ++ (" % ".toList ++ second)
  | .power => first ++ (" ** ".toList ++ second)
  | .quotient => first ++ (" // ".toList ++ second)

/-- `_P1_FUNCTION_EMITTERS` of the functions of one argument. -/
def UnaryFunction.emit (name : UnaryFunction) (arg : Text) : Text :=
  match name with
  | .abs => "np.abs(".toList ++ (arg ++ ")".toList)
  | .int => "np.floor(".toList ++ (arg ++ ")".toList)
  | .not => "(not ".toList ++ (arg ++ ")".toList)

def emitIf (test yes no : Text) : Text :=
  "(".toList ++ (yes ++ (" if ".toList ++ (test ++ (" else ".toList ++ (no ++ ")".toList)))))

/-- `_P1_FUNCTION_EMITTERS` of `AND` and `OR`, on the joined arguments. -/
def LogicalFunction.emit (name : LogicalFunction) (joined : Text) : Text :=
  match name with
  | .and => "all([".toList ++ (joined ++ "])".toList)
  | .or => "any([".toList ++ (joined ++ "])".toList)

mutual

def emitExpr (ranges : List Text) : FormulaNode → Text
  | .number value => emitOperand value
  | .range address => refExpr ranges address
  | .signed .minus right => "(-".toList ++ (emitExpr ranges right ++ ")".toList)
  | .signed .plus right => emitExpr ranges right
  | .infixOp op left right =>
    "(".toList ++ (emitExpr ranges left ++ (op.text ++ (emitExpr ranges right ++ ")".toList)))
  | .binaryFunction name first second => name.emit (emitExpr ranges first) (emitExpr ranges second)
  | .unaryFunction name arg => name.emit (emitExpr ranges arg)
  | .ifFunction test yes no =>
    emitIf (emitExpr ranges test) (emitExpr ranges yes) (emitExpr ranges no)
  | .logicalFunction name args => name.emit (emitExprs ranges args)

/-- `', '.join` of the emitted arguments. -/
def emitExprs (ranges : List Text) : FormulaNodes → Text
  | .nil => []
  | .cons head .nil => emitExpr ranges head
  | .cons head (.cons next rest) =>
    emitExpr ranges head ++ (", ".toList ++ emitExprs ranges (.cons next rest))

end

end WriterAgent.Calc.SpreadsheetImport
