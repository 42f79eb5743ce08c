import WriterAgent.Calc.ExcelPyConvert.Models
import WriterAgent.Foundations.DecimalDigit
import WriterAgent.Foundations.EditScript
import WriterAgent.Foundations.FloatRepr
import WriterAgent.Foundations.SourceLines
import WriterAgent.Foundations.TextScan
import Mathlib.Data.List.Sort

/-!
# Finding the direct `xl` calls of a script

A script of the workbook names its data by bare placeholders, which are no
Python.  They are replaced by names of the same length, the result is parsed,
and the positions of the calls are read in the script itself.
-/

namespace WriterAgent.Calc.ExcelPyConvert

open PyText

/-- The digits of `%Pn%`, or of `_Pn_`, at the start of a text, with the text
behind the token. -/
def placeholderAt (mark : Char) : Text → Option (Text × Text)
  | first :: letter :: rest =>
    if first == mark && (letter == 'P' || letter == 'p') then
      let digits := rest.takeWhile isDecimal
      match rest.dropWhile isDecimal with
      | last :: behind =>
        if !digits.isEmpty && last == mark then some (digits, behind)
        else none
      | [] => none
    else none
  | _ => none

/-- The number of a text that is one placeholder; the end of the pattern also
stands before a line feed. -/
def placeholderNumber (mark : Char) (s : Text) : Option Nat :=
  match placeholderAt mark s with
  | some (digits, rest) =>
    if rest.isEmpty || rest == ['\n'] then some (decimalsValue digits) else none
  | none => none

def tripleLength (quote : Char) : Text → Nat
  | a :: b :: c :: rest =>
    if a == quote && b == quote && c == quote then 3
    else tripleLength quote (b :: c :: rest) + 1
  | short => short.length

/-- The characters up to and with the next quote that is not escaped. -/
def plainLength (quote : Char) : Text → Nat
  | [] => 0
  | [_] => 1
  | c :: next :: rest =>
    if c == '\\' then plainLength quote rest + 2
    else if c == quote then 1
    else plainLength quote (next :: rest) + 1

/-- `_skip_string`, as the length of the string literal at the start. -/
def skipString : Text → Nat
  | [] => 0
  | quote :: rest =>
    match rest with
    | a :: b :: body =>
      if a == quote && b == quote then tripleLength quote body + 3
      else plainLength quote rest + 1
    | _ => plainLength quote rest + 1

/-- The part of a script that is copied whole or replaced at one place. -/
def placeholderStep (_ : Option Char) (s : Text) : Option (Nat × Text) :=
  match s with
  | [] => none
  | c :: _ =>
    if c == '\'' || c == '"' then
      some (skipString s, s.take (skipString s))
    else if c == '#' then
      let comment := s.takeWhile (· != '\n')
      some (comment.length, comment)
    else (placeholderAt '%' s).map fun found =>
      (found.1.length + 3, '_' :: 'P' :: found.1 ++ ['_'])

def normalizeExcelPlaceholders (src : Text) : Text :=
  substitute placeholderStep none 0 src

/-- An expression of the syntax tree, as far as it is looked at. -/
inductive AstValue where
  | name (id : Text)
  | text (value : Text)
  | boolean (value : Bool)
  | integer (value : Nat)
  | joinedStr
  | binOp
  | other
deriving Repr, DecidableEq

/-- A keyword argument; `**kwargs` has no name. -/
structure AstKeyword where
  arg : Option Text
  value : AstValue
deriving Repr, DecidableEq

/-- Line numbers from 1, columns in bytes of UTF-8. -/
structure AstPlace where
  lineno : Option Nat
  colOffset : Nat
  endLineno : Option Nat
  endColOffset : Option Nat
deriving Repr, DecidableEq

structure AstCall where
  func : AstValue
  args : List AstValue
  keywords : List AstKeyword
  place : AstPlace
deriving Repr, DecidableEq

/-- `value` is the subscripted expression and `valueId` the identity of its
node. -/
structure AstSubscript where
  value : AstValue
  valueId : Nat
  index : AstValue
  place : AstPlace
deriving Repr, DecidableEq

/-- A name and whether it is read there. -/
structure AstName where
  nodeId : Nat
  id : Text
  load : Bool
  place : AstPlace
deriving Repr, DecidableEq

/-- A node met by `ast.walk`, of the kinds that are looked at. -/
inductive AstNode where
  | call (node : AstCall)
  | subscript (node : AstSubscript)
  | name (node : AstName)
deriving Repr, DecidableEq

/-- What `ast.parse` reports of a script that is no Python. -/
structure SyntaxIssue where
  msg : Text
  lineno : Option Nat
  offset : Option Nat
deriving Repr, DecidableEq

def AstNode.call? : AstNode → Option AstCall
  | .call node => some node
  | _ => none

/-- `a or b` for a number that may be missing; zero counts as missing. -/
def orElseNat (n : Option Nat) (other : Nat) : Nat :=
  match n with
  | some (k + 1) => k + 1
  | _ => other

/-- `ast_source_offset`; a place outside the source is none. -/
def astSourceOffset (src : Text) (lineno col : Nat) : Option Nat :=
  let lines := splitLinesKeep src
  if lineno < 1 then none
  else
    match lines[lineno - 1]? with
    | none => none
    | some line =>
      if utf8Length line < col then none
      else some (((lines.take (lineno - 1)).map List.length).sum + charsWithin col line)

def AstPlace.span (src : Text) (place : AstPlace) (lineno : Nat) : Option (Nat × Nat) :=
  match astSourceOffset src lineno place.colOffset,
      astSourceOffset src (orElseNat place.endLineno lineno)
        (orElseNat place.endColOffset place.colOffset) with
  | some start, some stop => some (start, stop)
  | _, _ => none

/-- One `xl(...)` call of a script; a call without a placeholder is dynamic. -/
structure XlCall where
  start : Nat
  stop : Nat
  pNum : Option Nat
  headerMode : HeaderMode
  literal : Option Text := none
  dynamic : Bool := false
  raw : Text := []
deriving Repr, DecidableEq

def headersName : Text := "headers".toList

def literalHeaders : AstValue → Option HeaderMode
  | .boolean true => some .headersTrue
  | .boolean false => some .headersFalse
  | .name id =>
    if id == "True".toList then some .headersTrue
    else if id == "False".toList then some .headersFalse
    else none
  | _ => none

def AstKeyword.isHeaders (lower : Text → Text) (keyword : AstKeyword) : Bool :=
  keyword.arg.any fun arg => lower arg == headersName

/-- `_header_mode_from_keywords`; a value that is no literal is passed over. -/
def headerModeFromKeywords (lower : Text → Text) : List AstKeyword → HeaderMode
  | [] => .omitted
  | keyword :: rest =>
    if keyword.isHeaders lower then
      (literalHeaders keyword.value).getD (headerModeFromKeywords lower rest)
    else headerModeFromKeywords lower rest

/-- `_p_num_from_arg`: the placeholder, a literal without one, and whether the
reference is dynamic. -/
def pNumFromArg : AstValue → Option Nat × Option Text × Bool
  | .name id =>
    match placeholderNumber '_' id with
    | some p => (some p, none, false)
    | none => (none, none, true)
  | .text value =>
    match placeholderNumber '%' value with
    | some p => (some p, none, false)
    | none => (none, some value, true)
  | _ => (none, none, true)

def AstCall.pNum (node : AstCall) : Option Nat × Option Text × Bool :=
  match node.args with
  | [] => (none, none, true)
  | arg :: _ => pNumFromArg arg

def xlName : Text := "xl".toList

/-- A call of the name `xl`, not of an attribute. -/
def AstCall.isDirect (node : AstCall) : Bool := node.func == .name xlName

def directNodes (nodes : List AstNode) : List AstCall :=
  (nodes.filterMap AstNode.call?).filter AstCall.isDirect

def AstCall.span (src : Text) (node : AstCall) : Option (Nat × Nat) :=
  match node.place.lineno with
  | none => none
  | some lineno =>
    match node.place.span src lineno with
    | some (start, stop) => if stop ≤ start then none else some (start, stop)
    | none => none

def xlCallOf (lower : Text → Text) (src : Text) (node : AstCall) : Option XlCall :=
  (node.span src).map fun (start, stop) =>
    { start, stop, pNum := node.pNum.1,
      headerMode := headerModeFromKeywords lower node.keywords,
      literal := node.pNum.2.1, dynamic := node.pNum.2.2,
      raw := slice src start stop }

def unplacedIssue : Text := "xl() call without reliable source positions".toList

def placeIssue (src : Text) (node : AstCall) : Option Text :=
  if node.place.lineno.isSome && (node.span src).isNone then some unplacedIssue
  else none

def SyntaxIssue.text (issue : SyntaxIssue) : Text :=
  let loc := match issue.lineno with
    | some n => "line ".toList ++ natText n
    | none => "unknown line".toList
  let loc := match issue.offset with
    | some n => loc ++ ':' :: natText n
    | none => loc
  "Python syntax error at ".toList ++ loc ++ ": ".toList ++ issue.msg

/-- `ast.parse`, as the list of its walk. -/
abbrev AstParse := Text → Except SyntaxIssue (List AstNode)

def findXlCalls (lower : Text → Text) (parse : AstParse) (src : Text) : List XlCall × List Text :=
  if (strip src).isEmpty then ([], [])
  else
    match parse (normalizeExcelPlaceholders src) with
    | .error issue => ([], [issue.text])
    | .ok nodes =>
      (((directNodes nodes).filterMap (xlCallOf lower src)).insertionSort
          fun a b => a.start ≤ b.start,
        (directNodes nodes).filterMap (placeIssue src))

def placeholderToDataIndex (p : Nat) : Int := (p : Int) - 2

def xlBindingExpr (index : Nat) (mode : HeaderMode) : Text :=
  let token := "\"%P".toList ++ natText (index + 2) ++ "%\"".toList
  match mode with
  | .headersTrue => "xl(".toList ++ token ++ ",headers=True)".toList
  | .headersFalse => "xl(".toList ++ token ++ ",headers=False)".toList
  | .omitted => "xl(".toList ++ token ++ [')']

def HeaderMode.text : HeaderMode → Text
  | .headersTrue => "true".toList
  | .headersFalse => "false".toList
  | .omitted => "omit".toList

def dynamicIssue : Text :=
  "dynamic xl() reference (not a %Pn% placeholder)".toList

def invalidIssue (p : Nat) : Text :=
  "invalid placeholder %P".toList ++ natText p ++ ['%']

def missingDepIssue (p need have_ : Nat) : Text :=
  "%P".toList ++ natText p ++ "% has no matching formula dep (need ".toList ++
    natText need ++ " deps, have ".toList ++ natText have_ ++ [')']

def headersIssue (p : Nat) (first later : HeaderMode) : Text :=
  "conflicting headers mode for %P".toList ++ natText p ++ "%: ".toList ++
    first.text ++ " vs ".toList ++ later.text

/-- What the loop over the calls has gathered. -/
structure CallScan where
  issues : List Text
  used : List Nat := []
  headerModes : PyDict Nat HeaderMode := .empty

def scanCall (numDeps : Nat) (scan : CallScan) (call : XlCall) : CallScan :=
  match call.pNum with
  | none =>
    if call.dynamic then { scan with issues := scan.issues ++ [dynamicIssue] }
    else scan
  | some p =>
    let idx := placeholderToDataIndex p
    if idx < 0 then { scan with issues := scan.issues ++ [invalidIssue p] }
    else
      let idx := idx.toNat
      let issues :=
        if numDeps ≠ 0 ∧ numDeps ≤ idx then
          scan.issues ++ [missingDepIssue p (idx + 1) numDeps]
        else scan.issues
      let used := if scan.used.contains idx then scan.used else scan.used ++ [idx]
      match scan.headerModes.get? idx with
      | none => ⟨issues, used, scan.headerModes.set idx call.headerMode⟩
      | some first =>
        if first ≠ call.headerMode ∧ call.headerMode ≠ .omitted then
          ⟨issues ++ [headersIssue p first call.headerMode], used, scan.headerModes⟩
        else ⟨issues, used, scan.headerModes⟩

def callReplacement (indexMap : PyDict Nat Nat) (call : XlCall) : Option Text :=
  match call.pNum with
  | none => none
  | some p =>
    if placeholderToDataIndex p < 0 then none
    else
      let idx := (placeholderToDataIndex p).toNat
      some (xlBindingExpr ((indexMap.get? idx).getD idx) call.headerMode)

def rewriteCall (indexMap : PyDict Nat Nat) (code : Text) (call : XlCall) : Text :=
  match callReplacement indexMap call with
  | none => code
  | some text => replaceSpan code ⟨call.start, call.stop, text⟩

structure RewrittenCode where
  newCode : Text
  issues : List Text
  used : List Text
  headerModes : PyDict Nat HeaderMode

/-- `rewrite_excel_code`; without a map every index stays. -/
def rewriteExcelCode (lower : Text → Text) (parse : AstParse) (src : Text)
    (numDeps : Nat) (indexMap : PyDict Nat Nat) : RewrittenCode :=
  let (calls, findIssues) := findXlCalls lower parse src
  let scan := calls.foldl (scanCall numDeps) { issues := findIssues }
  { newCode := (calls.insertionSort fun a b => b.start ≤ a.start).foldl (rewriteCall indexMap) src
    issues := scan.issues
    used := (scan.used.insertionSort (· ≤ ·)).map natText
    headerModes := scan.headerModes }

end WriterAgent.Calc.ExcelPyConvert
