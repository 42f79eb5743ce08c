import WriterAgent.Calc.AddressUtils

/-!
# Parsing and rebuilding `=PY()` formulas

The formula string of a Python cell is taken apart into the text up to the
opening parenthesis, the decoded code argument and the raw remainder.  The
data arguments are read from the remainder by the two text-box helpers the
editor uses.
-/

namespace WriterAgent.Calc.Python

open PyText

/-- The registered spellings of the add-in function, longest first. -/
def callAliases : List Text :=
  ["ORG.EXTENSION.WRITERAGENT.PYTHONFUNCTION.PYTHON".toList,
    "ORG.EXTENSION.LIBREPY.PYTHONFUNCTION.PYTHON".toList,
    "ORG.EXTENSION.WRITERAGENT.PYTHONFUNCTION.PY".toList,
    "ORG.EXTENSION.LIBREPY.PYTHONFUNCTION.PY".toList,
    "PYTHON".toList,
    "PY".toList]

def maxAliasLength : Nat := 47

/-- The first alias that the text starts with, letter case ignored. -/
def matchedAlias (s : Text) : Option Text :=
  callAliases.find? fun name => name.isPrefixOf (upper (s.take maxAliasLength))

/-- `_py_call_open_end` after the optional equals sign: how many characters
the function name, white space and opening parenthesis take. -/
def callOpenLength (s : Text) : Option Nat :=
  match matchedAlias s with
  | none => none
  | some name =>
    let tail := s.drop name.length
    match tail.dropWhile isSpace with
    | '(' :: _ => some (name.length + (tail.takeWhile isSpace).length + 1)
    | _ => none

/-- The index after the opening `(` of a call, or `none`. -/
def pyCallOpenEnd (raw : Text) (requireEquals : Bool) : Option Nat :=
  if requireEquals then
    match raw with
    | '=' :: tail =>
      let spaces := (tail.takeWhile isSpace).length
      (callOpenLength (tail.dropWhile isSpace)).map (1 + spaces + ·)
    | _ => none
  else callOpenLength raw

/-- Decomposed `=PY(code; data…)`: the text through the opening parenthesis,
the decoded code argument, and the remainder such as `;A1:B10)` or `)`. -/
structure PythonFormulaParts where
  callPrefix : Text
  code : Text
  dataSuffix : Text
deriving Repr, DecidableEq

/-- The scan after the opening quote: the decoded string and the text after
the closing quote. -/
def parseQuotedTail : Text → Option (Text × Text)
  | [] => none
  | '"' :: '"' :: rest => (parseQuotedTail rest).map fun (code, after) => ('"' :: code, after)
  | '"' :: rest => some ([], rest)
  | c :: rest => (parseQuotedTail rest).map fun (code, after) => (c :: code, after)

/-- `_parse_quoted_string` at the start of a text. -/
def parseQuotedString (s : Text) : Option (Text × Text) :=
  match s with
  | '"' :: rest => parseQuotedTail rest
  | _ => none

def isDataSeparator (c : Char) : Bool := c == ';' || c == ','

/-- The characters before the first closing parenthesis or argument separator
outside every parenthesis opened since the start. -/
def unquotedCodeSpan : Nat → Text → Text
  | _, [] => []
  | depth, '(' :: rest => '(' :: unquotedCodeSpan (depth + 1) rest
  | 0, ')' :: _ => []
  | depth + 1, ')' :: rest => ')' :: unquotedCodeSpan depth rest
  | depth, c :: rest =>
    if isDataSeparator c && depth == 0 then []
    else c :: unquotedCodeSpan depth rest

def parseUnquotedCodeArg (innerBody : Text) : Option Text :=
  match strip innerBody with
  | [] => none
  | '"' :: _ => none
  | s => some (strip (unquotedCodeSpan 0 s))

def normalizeQuote (c : Char) : Char :=
  match c.toNat with
  | 0x201C => '"'
  | 0x201D => '"'
  | 0x2018 => '\''
  | 0x2019 => '\''
  | _ => c

/-- Array-formula braces around the whole text, removed with the white space
inside them. -/
def unbrace (raw : Text) : Text :=
  if raw.head? == some '\x7b' && raw.getLast? == some '\x7d' then
    strip (raw.dropLast.drop 1)
  else raw

def normalizeFormulaString (formula : Text) : Text :=
  let raw := unbrace ((strip formula).map normalizeQuote)
  if !raw.isEmpty && raw.head? != some '=' && (pyCallOpenEnd raw false).isSome then '=' :: raw
  else raw

def dataSuffixOf (rest : Text) : Option Text :=
  match rest with
  | [] => some [')']
  | c :: _ => if isDataSeparator c then some (rest ++ [')']) else none

def parsePythonFormula (formula : Text) : Option PythonFormulaParts :=
  let raw := normalizeFormulaString formula
  match pyCallOpenEnd raw true with
  | none => none
  | some innerStart =>
    let inner := raw.drop innerStart
    if inner.getLast? != some ')' then none
    else
      let innerBody := strip inner.dropLast
      match innerBody with
      | '"' :: _ =>
        match parseQuotedString innerBody with
        | none => none
        | some (code, after) =>
          (dataSuffixOf (strip after)).map (PythonFormulaParts.mk (raw.take innerStart) code)
      | _ =>
        match parseUnquotedCodeArg innerBody with
        | none => none
        | some code =>
          (dataSuffixOf (strip (innerBody.drop code.length))).map
            (PythonFormulaParts.mk (raw.take innerStart) code)

/-- `escape_code_for_excel_formula`: every double quote is doubled. -/
def escapeCodeForExcelFormula (code : Text) : Text :=
  code.flatMap fun c => if c == '"' then ['"', '"'] else [c]

/-- One round of the loop of `format_data_binding_display`. -/
def displayRound (s : Text) : Text :=
  rstripBy (· == ')') (lstripBy isDataSeparator (strip s))

/-- `format_data_binding_display`: rounds until the text stops changing.  A
round that changes the text shortens it, so the length bounds the rounds. -/
def displayLoop : Nat → Text → Text
  | 0, s => s
  | fuel + 1, s => if displayRound s = s then s else displayLoop fuel (displayRound s)

def formatDataBindingDisplay (dataSuffix : Text) : Text :=
  displayLoop (dataSuffix.length + 1) dataSuffix

/-- Editor brackets around the whole text, removed with the white space
inside them. -/
def unbracket (raw : Text) : Text :=
  if raw.head? == some '[' && raw.getLast? == some ']' then
    strip (raw.dropLast.drop 1)
  else raw

def parseDataBindingText (text : Text) : List Text :=
  let raw := strip text
  if raw.isEmpty then []
  else
    let parts := ((replaceChar ';' ',' (unbracket raw)).splitOn ',').map strip
    (parts.filter fun part => !part.isEmpty).filter fun part =>
      !part.contains '"'

def isAsciiWordStart (c : Char) : Bool := c == '_' || isAsciiLetter c

def isSheetIdentifier (s : Text) : Bool :=
  match s with
  | [] => false
  | first :: rest =>
    isAsciiWordStart first && rest.all fun c => isAsciiWordStart c || isAsciiDigit c

/-- Optional `$`, letters, optional `$`, a digit. -/
def isA1CellPrefix (s : Text) : Bool :=
  let start := if s.head? == some '$' then s.drop 1 else s
  let after := start.dropWhile isAsciiLetter
  let tail := if after.head? == some '$' then after.drop 1 else after
  !(start.takeWhile isAsciiLetter).isEmpty &&
    (match tail with | c :: _ => isAsciiDigit c | [] => false)

def sheetNeedsQuotes (sheet : Text) : Bool :=
  sheet.any isSpace || !isSheetIdentifier sheet

def isAnyQuote (c : Char) : Bool := c == '\'' || c == '"'

def quotePySheet (sheet rest : Text) : Text :=
  if sheetNeedsQuotes sheet then '\'' :: sheet ++ '\'' :: '.' :: rest
  else sheet ++ '.' :: rest

def formatPyDataRange (rangeAddr : Text) : Text :=
  let addr := removeChar '$' (strip rangeAddr)
  if addr.contains '!' then
    let sheet := (addr.takeWhile (· != '!'))
    let rest := (addr.dropWhile (· != '!')).drop 1
    quotePySheet (rstripBy isAnyQuote (lstripBy isAnyQuote sheet)) rest
  else if !addr.contains '.' then addr
  else
    let sheet := addr.takeWhile (· != '.')
    let rest := (addr.dropWhile (· != '.')).drop 1
    if sheet.isEmpty || rest.isEmpty || isA1CellPrefix sheet then addr
    else if sheetNeedsQuotes sheet then
      (if sheet.head? == some '\'' then sheet else '\'' :: sheet ++ ['\'']) ++ '.' :: rest
    else sheet ++ '.' :: rest

def maxCellRef : Nat := 256

def pyCodeArgIsCellRef (code : Text) : Bool :=
  let s := strip code
  if s.isEmpty || s.contains ':' || s.contains '\n' then false
  else
    let bare := strip (removeChar '$' (splitSheetPrefix s).2)
    !bare.isEmpty && isAscii bare && decide (bare.length ≤ maxCellRef) && (parseAddress bare).isSome

def pyFormulaHasUnquotedCodeRef (formula : Text) : Bool :=
  match parsePythonFormula formula with
  | none => false
  | some parts =>
    if !pyCodeArgIsCellRef parts.code then false
    else
      let raw := normalizeFormulaString formula
      match pyCallOpenEnd raw true with
      | none => false
      | some start =>
        let body := raw.drop start
        let body := if body.getLast? == some ')' then body.dropLast else body
        (strip body).head? != some '"'

example : parsePythonFormula "=py(\"a\"\"b\" ; A1, $C$5)".toList =
      some ⟨"=py(".toList, "a\"b".toList, "; A1, $C$5)".toList⟩ := by decide

end WriterAgent.Calc.Python
