import WriterAgent.Calc.ExcelPyConvert.Models
import WriterAgent.Calc.Python.RebuildCode
import WriterAgent.Foundations.DecimalDigit

/-!
# The script bank

Converted code that is too long for a formula string is parked on a bank sheet
at the address of its cell, and the formula refers to it.
-/

namespace WriterAgent.Calc.ExcelPyConvert

open PyText WriterAgent.Calc.Python

def codeSheetPrefix : Text := "py_code_".toList

def codeSheetMaxLen : Nat := 31

def codeSheetNoteCell : Text := "ZZ1".toList

def codeSheetNote : Text :=
  ("Python script bank (from Excel pythonScripts). " ++
    "Used only for scripts longer than 1000 characters (Calc formula string limit). " ++
    "Each cell here holds the Python for the =PY formula at the same address " ++
    "on the matching data sheet (e.g. H4 here \u2194 H4 on the source sheet). " ++
    "Enable shared-kernel session mode for multi-cell Excel scripts.").toList

def inlineCodeMaxChars : Nat := 1000

/-- `[^\w]+` at the start of the text. -/
def unsafeRun (isAlnum : Char → Bool) (_ : Option Char) (s : Text) : Option (Nat × Text) :=
  match s.takeWhile fun c => !isRegexWord isAlnum c with
  | [] => none
  | run => some (run.length, ['_'])

/-- `a or b` on texts. -/
def orElseText (s other : Text) : Text := if s.isEmpty then other else s

def codeSheetNameFor (isAlnum : Char → Bool) (sourceSheet : Text) : Text :=
  let raw := orElseText (strip (orElseText sourceSheet "Sheet1".toList)) "Sheet1".toList
  let replaced := substitute (unsafeRun isAlnum) none 0 raw
  let safe := orElseText (rstripBy (· == '_') (lstripBy (· == '_') replaced)) "Sheet".toList
  (codeSheetPrefix ++ safe).take codeSheetMaxLen

def dropDollar (s : Text) : Text := if s.head? == some '$' then s.drop 1 else s

/-- `^\$?([A-Za-z]+)\$?(\d+)$` with its two groups; the end of the pattern also
stands before a last newline. -/
def matchA1 (s : Text) : Option (Text × Text) :=
  let s := dropDollar s
  let letters := s.takeWhile isAsciiLetter
  let tail := dropDollar (s.dropWhile isAsciiLetter)
  let digits := tail.takeWhile isDecimal
  let rest := tail.dropWhile isDecimal
  if letters.isEmpty || digits.isEmpty || !(rest.isEmpty || rest == ['\n'])
    then none
  else some (letters, digits)

def afterChar (c : Char) (s : Text) : Text := (s.dropWhile (· != c)).drop 1

/-- `normalize_bank_a1`; an invalid address is an error. -/
def normalizeBankA1 (cell : Text) : Option Text :=
  let raw := strip (removeChar '$' cell)
  let raw := if raw.contains '!' then afterChar '!' raw else raw
  let left := raw.takeWhile (· != '.')
  let right := afterChar '.' raw
  let raw :=
    if raw.contains '.' && (matchA1 raw).isNone && !right.isEmpty &&
        (matchA1 right).isSome && (matchA1 left).isNone then right
    else raw
  (matchA1 raw).map fun (letters, digits) => upper letters ++ digits

def codeBankRef (isAlnum : Char → Bool) (sourceSheet cellA1 : Text)
    (excelBang : Bool) : Option Text :=
  (normalizeBankA1 cellA1).map fun a1 =>
    codeSheetNameFor isAlnum sourceSheet ++ (if excelBang then '!' else '.') :: a1

def shouldInlineCode (code : Text) : Bool := code.length ≤ inlineCodeMaxChars

def formulaForConvertedCell (isAlnum : Char → Bool) (cell : ConvertedCell)
    (separator : Text) (excelEscape useScriptBank : Bool) : Text :=
  let inlined := rebuildPythonFormulaWithData isAlnum cell.convertedCode
    cell.dataArgs separator excelEscape
  if useScriptBank && !cell.cell.isEmpty && !cell.sheet.isEmpty &&
      !shouldInlineCode cell.convertedCode then
    match codeBankRef isAlnum cell.sheet cell.cell (separator == [','] || excelEscape) with
    | some ref => rebuildPythonFormulaWithCodeRef ref cell.dataArgs separator
        (excelEscape || separator == [','])
    | none => inlined
  else inlined

abbrev Banks := PyDict Text (PyDict Text Text)

abbrev BankOwners := PyDict (Text × Text) Text

inductive BankWarning where
  | invalidAddress (address cell : Text)
  | collision (codeSheet a1 owner address : Text)
deriving Repr, DecidableEq

/-- The text of a warning, with Python's `repr` of a string. -/
def BankWarning.text (repr : Text → Text) : BankWarning → Text
  | .invalidAddress address cell => address ++ ": invalid bank A1 address: ".toList ++ repr cell
  | .collision codeSheet a1 owner address =>
    "script-bank collision at ".toList ++ codeSheet ++ '!' :: a1 ++
      ": ".toList ++ owner ++ " vs ".toList ++ address ++
      " (keeping first)".toList

/-- One cell of the loop of `collect_script_bank`. -/
def bankCell (isAlnum : Char → Bool)
    (state : Banks × BankOwners × List BankWarning) (cell : ConvertedCell) :
    Banks × BankOwners × List BankWarning :=
  let (banks, owners, warnings) := state
  let address := cell.sheet ++ '!' :: cell.cell
  if !cell.converted || cell.convertedCode.isEmpty || cell.cell.isEmpty ||
      cell.sheet.isEmpty || shouldInlineCode cell.convertedCode then state
  else
    match normalizeBankA1 cell.cell with
    | none => (banks, owners, warnings ++ [.invalidAddress address cell.cell])
    | some a1 =>
      let codeSheet := codeSheetNameFor isAlnum cell.sheet
      let bank := (banks.get? codeSheet).getD PyDict.empty
      match bank.get? a1 with
      | none =>
        (banks.set codeSheet (bank.set a1 cell.convertedCode),
          owners.set (codeSheet, a1) address, warnings)
      | some prev =>
        if prev = cell.convertedCode then state
        else
          let owner := (owners.get? (codeSheet, a1)).getD []
          (banks, owners, warnings ++ [.collision codeSheet a1 owner address])

def collectScriptBank (isAlnum : Char → Bool) (report : ConversionReport) :
    Banks × List BankWarning :=
  let (banks, _, warnings) :=
    report.cells.foldl (bankCell isAlnum) (PyDict.empty, PyDict.empty, [])
  (banks, warnings)

/-- A workbook as `_sheet_cell_map` reads it: by sheet title and address, the
formula and the string value of every cell. -/
abbrev SheetCells := PyDict Text (PyDict Text (Text × Text))

def writeBankCells (sheet : PyDict Text (Text × Text))
    (bank : List (Text × Text)) : PyDict Text (Text × Text) :=
  bank.foldl (fun sheet (a1, code) => sheet.set a1 ([], code)) sheet

/-- One bank of `write_script_bank_openpyxl`: its sheet is created where it
does not exist, gets the note, and then the scripts. -/
def writeBank (book : SheetCells) (entry : Text × PyDict Text Text) :
    SheetCells :=
  let (codeSheet, bank) := entry
  if bank.entries.isEmpty then book
  else
    let sheet := (book.get? codeSheet).getD PyDict.empty
    let noted := sheet.set codeSheetNoteCell ([], codeSheetNote)
    book.set codeSheet (writeBankCells noted bank.entries)

/-- `write_script_bank_openpyxl`.  The titles and addresses are distinct, so
the order in which they are written does not show in the cells. -/
def writeScriptBank (book : SheetCells) (banks : Banks) : SheetCells :=
  banks.entries.foldl writeBank book

/-- `BANK_REF_RE` with its two groups: a bank sheet, a dot or an exclamation
mark, and an address. -/
def matchBankRef (s : Text) : Option (Text × Text) :=
  let sheet := s.takeWhile fun c => c != '.' && c != '!'
  let address := (s.drop sheet.length).drop 1
  if upper (s.take codeSheetPrefix.length) == upper codeSheetPrefix &&
      codeSheetPrefix.length < sheet.length && (matchA1 address).isSome then
    some (sheet, address)
  else none

/-- `resolve_code_bank_ref`, with `str.lower` for the sheet titles. -/
def resolveCodeBankRef (lower : Text → Text) (code : Text)
    (sheetCells : SheetCells) : Option Text :=
  match matchBankRef (strip code) with
  | none => none
  | some (sheet, address) =>
    match normalizeBankA1 address with
    | none => none
    | some a1 =>
      let lowered := PyDict.ofPairs
        (sheetCells.entries.map fun (title, cells) => (lower title, cells))
      match (sheetCells.get? sheet).or (lowered.get? (lower sheet)) with
      | none => none
      | some cells =>
        let value := ((cells.get? a1).getD ([], [])).2
        if value.isEmpty then none else some value

end WriterAgent.Calc.ExcelPyConvert
