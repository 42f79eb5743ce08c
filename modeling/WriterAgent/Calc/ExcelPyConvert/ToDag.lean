import WriterAgent.Calc.ExcelPyConvert.ScriptBank
import WriterAgent.Calc.ExcelPyConvert.XlCalls

/-!
# Resolving the dependencies of a cell

A trailing argument of an Excel Python cell is a range, a table, or the anchor
of a spilled array.
-/

namespace WriterAgent.Calc.ExcelPyConvert

open PyText WriterAgent.Calc.Python

/-- What the string methods read from the Unicode tables. -/
structure StrTables where
  isAlnum : Char → Bool
  isAlpha : Char → Bool
  isDigit : Char → Bool
  upper : Text → Text
  lower : Text → Text
  repr : Text → Text

/-- One `_xlws.PY(scriptIndex, returnType, deps)` cell. -/
structure ExcelPyCell where
  sheet : Text
  cell : Text
  scriptIndex : Int
  returnType : Int
  deps : List Text := []
  arrayRef : Text := []
deriving Repr, DecidableEq

/-- The parsed workbook, as far as one cell's conversion reads it. -/
structure ExcelWorkbookModel where
  scripts : List Text := []
  tables : PyDict Text Text := .empty
  anchorSnapshots : PyDict Text Text := .empty

inductive ResolvedKind where
  | range
  | tableSnapshot
  | anchorSnapshot
  | unresolved
deriving Repr, DecidableEq

/-- One dependency after resolution. -/
structure ResolvedDep where
  original : Text
  a1 : Text
  kind : ResolvedKind
  note : Text := []
deriving Repr, DecidableEq

/-- `[A-Za-z]` in a pattern that ignores the case: besides the ASCII letters it
holds four more. -/
def isFoldedLetter (c : Char) : Bool :=
  isAsciiLetter c || c.toNat == 0x130 || c.toNat == 0x131 || c.toNat == 0x17F || c.toNat == 0x212A

/-- `$` also stands before a line feed at the end. -/
def atPatternEnd (s : Text) : Bool := s.isEmpty || s == ['\n']

/-- `.+` over a whole text: one line, not empty. -/
def isLineText (s : Text) : Bool := !s.isEmpty && !s.contains '\n'

/-- The group of `_ANCHOR_RE`. -/
def matchAnchor (raw : Text) : Option Text :=
  let body := (stripStartFold "_xlfn.".toList raw).getD raw
  match stripStartFold "ANCHORARRAY(".toList body with
  | some rest =>
    if rest.getLast? == some ')' && isLineText rest.dropLast
      then some rest.dropLast else none
  | none => none

/-- The group of `_SPILL_RE`. -/
def matchSpill (s : Text) : Option Text :=
  if s.getLast? == some '#' && isLineText s.dropLast then some s.dropLast
  else none

section Tables

variable (tables : StrTables)

/-- `[\w.]`. -/
def isDottedWord (c : Char) : Bool := isRegexWord tables.isAlnum c || c == '.'

/-- `[A-Za-z_][\w.]*` at the start of the text, with the text behind it. -/
def dottedName (s : Text) : Option (Text × Text) :=
  match s with
  | c :: _ =>
    if isFoldedLetter c || c == '_' then
      some (s.takeWhile (isDottedWord tables), s.dropWhile (isDottedWord tables))
    else none
  | [] => none

/-- The group of `_TABLE_ALL_RE`. -/
def matchTableAll (raw : Text) : Option Text :=
  match dottedName tables raw with
  | some (name, rest) => if stripStartFold "[#All]".toList rest == some [] then some name else none
  | none => none

/-- The text behind a sheet qualification, the whole text when there is none. -/
def behindSheet (s : Text) : Text :=
  match s with
  | '\'' :: rest =>
    let name := rest.takeWhile (· != '\'')
    match rest.dropWhile (· != '\'') with
    | _ :: '!' :: behind => if name.isEmpty then s else behind
    | _ => s
  | _ =>
    match dottedName tables s with
    | some (_, '!' :: behind) => behind
    | _ => s

def rangeCorner (s : Text) : Text × Text × Text :=
  let tail := s.dropWhile isFoldedLetter
  (s.takeWhile isFoldedLetter, tail.takeWhile isDecimal, tail.dropWhile isDecimal)

/-- `_RANGE_RE` on a text without `$`: a cell, or two corners of one kind. -/
def matchRange (s : Text) : Bool :=
  let (letters, digits, rest) := rangeCorner (behindSheet tables s)
  match rest with
  | ':' :: second =>
    let (letters', digits', rest') := rangeCorner second
    atPatternEnd rest' && letters.isEmpty == letters'.isEmpty &&
      digits.isEmpty == digits'.isEmpty && !(letters.isEmpty && digits.isEmpty)
  | _ => atPatternEnd rest && !letters.isEmpty && !digits.isEmpty

def hasAnchorarrayShape (raw : Text) : Bool :=
  raw.getLast? == some ')' && hasText "ANCHORARRAY(".toList (tables.upper raw)

def hasTableAllShape (raw : Text) : Bool :=
  "[#ALL]".toList.isSuffixOf (tables.upper raw)

def hasSpillShape (raw : Text) : Bool :=
  let spill := removeChar '$' raw
  2 ≤ spill.length && spill.getLast? == some '#' && !hasTableAllShape tables spill

def sidesNonempty (sep : Char) (s : Text) : Bool :=
  !(s.takeWhile (· != sep)).isEmpty && !((s.dropWhile (· != sep)).drop 1).isEmpty

def hasRangeShape (raw : Text) : Bool :=
  if raw.contains '!' then sidesNonempty '!' raw
  else if raw.contains ':' then sidesNonempty ':' raw
  else
    let stripped := removeChar '$' raw
    let rest := stripped.dropWhile tables.isAlpha
    !(stripped.takeWhile tables.isAlpha).isEmpty && !rest.isEmpty && rest.all tables.isDigit

def firstEntry (dict : PyDict Text Text) : List Text → Option Text
  | [] => none
  | key :: keys =>
    if !key.isEmpty && dict.contains key then dict.get? key
    else firstEntry dict keys

def lookupAnchor (model : ExcelWorkbookModel) (anchor sheetHint : Text) : Option Text :=
  let cleaned := strip (removeChar '$' anchor)
  let plainKey := sheetHint ++ '!' :: cleaned
  let quotedKey := '\'' :: sheetHint ++ '\'' :: '!' :: cleaned
  let qualify := !sheetHint.isEmpty && !cleaned.contains '!'
  let snaps := model.anchorSnapshots
  (firstEntry snaps [cleaned, tables.upper cleaned,
      if qualify then plainKey else [], if qualify then quotedKey else []]).or
    (let lower := PyDict.ofPairs (snaps.entries.map fun entry => (tables.lower entry.1, entry.2))
    (lower.get? (tables.lower cleaned)).or (if sheetHint.isEmpty then none
      else (lower.get? (tables.lower plainKey)).or (lower.get? (tables.lower quotedKey))))

def anchorDep (raw label : Text) (snap : Option Text) : ResolvedDep :=
  match snap with
  | some (c :: a1) => ⟨raw, c :: a1, .anchorSnapshot, label ++ " \u2192 ".toList ++ c :: a1⟩
  | _ => ⟨raw, [], .unresolved, label ++ " snapshot unavailable".toList⟩

def tableDep (raw name : Text) (ref : Option Text) : ResolvedDep :=
  match ref with
  | some (c :: a1) =>
    ⟨raw, removeChar '$' (c :: a1), .tableSnapshot, name ++ "[#All] \u2192 ".toList ++ c :: a1⟩
  | _ => ⟨raw, [], .unresolved, "unknown table ".toList ++ tables.repr name⟩

def resolveDep (model : ExcelWorkbookModel) (sheetHint dep : Text) :
    ResolvedDep :=
  let raw := strip dep
  if raw.isEmpty then ⟨raw, [], .unresolved, "empty dep".toList⟩
  else
    match (if hasAnchorarrayShape tables raw then matchAnchor raw else none) with
    | some group =>
      let anchor := removeChar '$' (strip group)
      anchorDep raw ("ANCHORARRAY(".toList ++ anchor ++ [')'])
        (lookupAnchor tables model anchor sheetHint)
    | none =>
    match (if hasSpillShape tables raw then matchSpill (removeChar '$' raw)
      else none) with
    | some anchor => anchorDep raw raw (lookupAnchor tables model anchor sheetHint)
    | none =>
    match (if hasTableAllShape tables raw then matchTableAll tables raw
      else none) with
    | some name => tableDep tables raw name (model.tables.get? name)
    | none =>
    let cleaned := removeChar '$' raw
    if hasRangeShape tables cleaned && matchRange tables cleaned then
      ⟨raw, cleaned, .range, []⟩
    else ⟨raw, [], .unresolved, "unrecognized dep ".toList ++ tables.repr raw⟩

def resolveDeps (model : ExcelWorkbookModel) (sheetHint : Text)
    (deps : List Text) : List ResolvedDep :=
  deps.map (resolveDep tables model sheetHint)

end Tables

end WriterAgent.Calc.ExcelPyConvert

/-!
## Converting an Excel Python cell

The dependencies of a cell are resolved and equal ranges merged, the calls of
its script are rewritten to the merged indices, and the formula is built from
both.  A cell with an unresolved dependency, a dynamic reference or a syntax
error is refused.
-/

namespace WriterAgent.Calc.ExcelPyConvert

open PyText

def preferExcelDepToken (upper : Text → Text) (current candidate : Text) : Text :=
  let cand := strip candidate
  let cur := strip current
  if cand.isEmpty then cur
  else if hasText "[#".toList cand || hasText "ANCHORARRAY".toList (upper cand)
    then cand
  else orElseText cur cand

/-- What the loop over the resolved dependencies has gathered. -/
structure Bindings where
  bindings : List BindingInfo := []
  indexMap : PyDict Nat Nat := .empty
  a1ToNorm : PyDict Text Nat := .empty
  dataArgs : List Text := []
  excelDeps : List Text := []
  issues : List Text := []

def mergeBinding (upper : Text → Text) (modes : PyDict Nat HeaderMode)
    (b : Bindings) (origI : Nat) (r : ResolvedDep) (norm : Nat) : Bindings :=
  { b with
    indexMap := b.indexMap.set origI norm
    excelDeps := b.excelDeps.modify norm fun token => preferExcelDepToken upper token r.original
    bindings := b.bindings.modify norm fun binding =>
      { binding with
        originalIndices := binding.originalIndices ++ [origI]
        headerMode :=
          if (modes.get? origI).getD .omitted = .headersTrue then .headersTrue
          else binding.headerMode } }

def newBinding (modes : PyDict Nat HeaderMode) (b : Bindings) (origI : Nat)
    (r : ResolvedDep) : Bindings :=
  let norm := b.dataArgs.length
  { b with
    a1ToNorm := b.a1ToNorm.set r.a1 norm
    indexMap := b.indexMap.set origI norm
    dataArgs := b.dataArgs ++ [r.a1]
    excelDeps := b.excelDeps ++ [orElseText (strip (orElseText r.original r.a1)) r.a1]
    bindings := b.bindings ++
      [{ a1 := r.a1, headerMode := (modes.get? origI).getD .omitted,
         role := .data, originalIndices := [origI] }] }

/-- One round of the loop of `_normalize_bindings`. -/
def bindDep (upper : Text → Text) (modes : PyDict Nat HeaderMode)
    (b : Bindings) (dep : ResolvedDep × Nat) : Bindings :=
  let (r, origI) := dep
  if r.kind = .unresolved ∨ r.a1.isEmpty then
    { b with
      issues := b.issues ++ [orElseText r.note ("unresolved ".toList ++ r.original)] }
  else
    match b.a1ToNorm.get? r.a1 with
    | some norm => mergeBinding upper modes b origI r norm
    | none => newBinding modes b origI r

def normalizeBindings (upper : Text → Text) (resolved : List ResolvedDep)
    (modes : PyDict Nat HeaderMode) : Bindings :=
  resolved.zipIdx.foldl (bindDep upper modes) {}

def objectSuppress : Text :=
  ("\n# excel_py: returnType=1 (Object) \u2014 cell value egress suppressed " ++
    "until object cards ship\nresult = None").toList

def extendNew (issues more : List Text) : List Text :=
  more.foldl (fun known issue =>
    if known.contains issue then known else known ++ [issue]) issues

def scriptIssue (index : Int) (count : Nat) : Text :=
  "script_index ".toList ++ (toString index).toList ++ " out of range (".toList ++
    natText count ++ " scripts)".toList

def shiftedIssue : Text :=
  "unresolved or dropped dependency; refusing to emit shifted data indices".toList

def sharedKernelIssue : Text :=
  ("shared-kernel workbook: enable shared session; converter does not add " ++ "order edges").toList

def objectIssue : Text :=
  ("returnType=1 (Object): suppressed cell value egress (shared object kept " ++
    "in script)").toList

def dynamicMark : Text := "dynamic xl()".toList

def syntaxMark : Text := "syntax error".toList

def unresolvedMark : Text := "unresolved dependency".toList

def cellScript (model : ExcelWorkbookModel) (cell : ExcelPyCell) : Option Text :=
  if cell.scriptIndex < 0 then none else model.scripts[cell.scriptIndex.toNat]?

def isSnapshot (r : ResolvedDep) : Bool :=
  (r.kind = .tableSnapshot || r.kind = .anchorSnapshot) && !r.note.isEmpty

def convertCellToDag (tables : StrTables) (parse : AstParse) (model : ExcelWorkbookModel)
    (cell : ExcelPyCell) (priorInOrder : List ExcelPyCell) (bestEffort : Bool) : ConvertedCell :=
  let base : ConvertedCell :=
    { sheet := cell.sheet, cell := cell.cell, originalCode := [],
      convertedCode := [], returnType := cell.returnType,
      arrayRef := cell.arrayRef, scriptIndex := cell.scriptIndex,
      converted := false }
  match cellScript model cell with
  | none => { base with issues := [scriptIssue cell.scriptIndex model.scripts.length] }
  | some original =>
    let resolved := resolveDeps tables model cell.sheet cell.deps
    let first := rewriteExcelCode tables.lower parse original cell.deps.length .empty
    let bound := normalizeBindings tables.upper resolved first.headerModes
    let unresolved := bound.indexMap.entries.length ≠ cell.deps.length
    let second := rewriteExcelCode tables.lower parse original cell.deps.length bound.indexMap
    let newCode := if unresolved then original else second.newCode
    let issues :=
      if unresolved then bound.issues ++ [shiftedIssue]
      else extendNew bound.issues second.issues
    let dynamic := first.issues.any (hasText dynamicMark) ||
      (!unresolved && second.issues.any (hasText dynamicMark))
    let syntaxFatal := first.issues.any (hasText syntaxMark)
    let sharedKernel := !priorInOrder.isEmpty ||
      (cell.deps.isEmpty && !hasText "xl(".toList (removeChar ' ' original))
    let issues :=
      if sharedKernel && !priorInOrder.isEmpty then issues ++ [sharedKernelIssue]
      else issues
    let newCode := if cell.returnType = 1 then newCode ++ objectSuppress else newCode
    let issues := if cell.returnType = 1 then issues ++ [objectIssue] else issues
    let base :=
      { base with
        originalCode := original
        dataArgs := bound.dataArgs
        excelDeps := bound.excelDeps
        bindings := bound.bindings
        sharedKernel
        snapshotDeps := (resolved.filter isSnapshot).map ResolvedDep.note }
    if (unresolved || dynamic || syntaxFatal) && !bestEffort then
      { base with
        convertedCode := original
        issues := extendNew [] (issues ++ (if dynamic then [dynamicMark] else []) ++
          (if unresolved then [unresolvedMark] else [])) }
    else
      { base with
        convertedCode := newCode
        dagFormula := formulaForConvertedCell tables.isAlnum
          { base with convertedCode := newCode } [';'] false true
        issues := extendNew [] issues
        converted := true }

end WriterAgent.Calc.ExcelPyConvert
