import WriterAgent.Calc.Python.FormulaEdit
import WriterAgent.Calc.Python.Spill
import WriterAgent.Foundations.GridBox

/-!
# Locating the calling formula

`plugin/calc/python/formula_locator_cache.py`: the add-in is not told which
cell called it.  It searches every sheet for the formula whose text holds the
code it was given, and gives up when two formulas match.
-/

namespace WriterAgent.Calc.Python

open PyText

/-- The code argument of a call: a string literal, or a reference to the cell
that holds the code. -/
inductive CodeArgument where
  | inline (code : Text)
  | reference (written : Text) (sheetName : Text) (cell : Coord)

def CodeArgument.written : CodeArgument → Text
  | .inline code => '"' :: escapeCodeForExcelFormula code ++ ['"']
  | .reference written _ _ => written

/-- One call of the add-in function, with the formula text before it. -/
structure PyCall where
  before : Text
  name : Text
  known : name ∈ pyFunctionNames
  argument : CodeArgument

def PyCall.written (call : PyCall) : Text :=
  call.before ++ call.name ++ '(' :: call.argument.written

/-- A formula: its calls of the add-in function, and the text after the code
argument of the last one.  A formula without such a call is all `rest`. -/
structure PyFormula where
  calls : List PyCall
  rest : Text

def PyFormula.written (formula : PyFormula) : Text :=
  formula.calls.flatMap PyCall.written ++ formula.rest

/-- A formula and its cells: one cell of an ordinary formula, the whole area
of an array formula. -/
structure FormulaOfSheet where
  area : GridBox
  formula : PyFormula

def FormulaOfSheet.origin (f : FormulaOfSheet) : Coord := f.area.corner

/-- A sheet, with the ranges of `queryContentCells(FORMULA)`: some partition of
the formula cells into boxes. -/
structure FormulaSheet where
  name : Text
  formulas : List FormulaOfSheet
  formulasApart : formulas.Pairwise fun f g =>
    ∀ cell, f.area.Contains cell → ¬ g.area.Contains cell
  formulaCells : List GridBox
  cellsCovered : ∀ cell, (∃ range ∈ formulaCells, range.Contains cell) ↔
    ∃ f ∈ formulas, f.area.Contains cell
  rangesApart : formulaCells.Pairwise fun range other =>
    ∀ cell, range.Contains cell → ¬ other.Contains cell

/-- `getFormula()`.  All cells of an array formula have its text. -/
def FormulaSheet.getFormula (sheet : FormulaSheet) (cell : Coord) : Text :=
  match sheet.formulas.find? fun f => decide (f.area.Contains cell) with
  | some f => f.formula.written
  | none => []

structure Workbook where
  sheets : List FormulaSheet
  namesDistinct : (sheets.map FormulaSheet.name).Nodup
  /-- The text a reference to a cell evaluates to. -/
  value : Text → Coord → Text

abbrev FormulaCoord := Text × Coord

namespace Workbook

variable (workbook : Workbook)

def evaluated : CodeArgument → Text
  | .inline code => code
  | .reference _ sheetName cell => workbook.value sheetName cell

def Passes (code : Text) (f : FormulaOfSheet) : Prop :=
  code ∈ f.formula.calls.map fun call => workbook.evaluated call.argument

instance (code : Text) : DecidablePred (workbook.Passes code) := fun _ =>
  inferInstanceAs (Decidable (_ ∈ _))

/-- The origins of the formulas that call the add-in with the code. -/
def codeOrigins (code : Text) : List FormulaCoord :=
  workbook.sheets.flatMap fun sheet =>
    (sheet.formulas.filter fun f => decide (workbook.Passes code f)).map
      fun f => (sheet.name, f.origin)

end Workbook

/-- `DocumentFormulaCache`.  Codes are kept from the least to the most recently
used, the coordinates of a code the other way round. -/
structure DocumentFormulaCache where
  lastAccessed : Int
  cache : PyDict Text (List FormulaCoord)

/-- `move_to_end`, for a code with these coordinates. -/
def moveToEnd (cache : PyDict Text (List FormulaCoord)) (code : Text)
    (coords : List FormulaCoord) : PyDict Text (List FormulaCoord) :=
  (cache.pop code).set code coords

/-- `popitem(last=False)`. -/
def popOldest (cache : PyDict Text (List FormulaCoord)) : PyDict Text (List FormulaCoord) :=
  match cache.entries with
  | [] => cache
  | (code, _) :: _ => cache.pop code

namespace DocumentFormulaCache

def get (dc : DocumentFormulaCache) (code : Text) (now : Int) :
    List FormulaCoord × DocumentFormulaCache :=
  match dc.cache.get? code with
  | some coords => (coords, ⟨now, moveToEnd dc.cache code coords⟩)
  | none => ([], ⟨now, dc.cache⟩)

def put (maxSize : Nat) (dc : DocumentFormulaCache) (code : Text)
    (coord : FormulaCoord) (now : Int) : DocumentFormulaCache :=
  match dc.cache.get? code with
  | some coords => ⟨now, moveToEnd dc.cache code (coord :: coords.erase coord)⟩
  | none =>
    let cache :=
      if maxSize ≤ dc.cache.entries.length then popOldest dc.cache else dc.cache
    ⟨now, cache.set code [coord]⟩

def removeCoordinate (dc : DocumentFormulaCache) (code : Text)
    (coord : FormulaCoord) : DocumentFormulaCache :=
  match dc.cache.get? code with
  | some coords =>
    let left := coords.erase coord
    { dc with
      cache := if left.isEmpty then dc.cache.pop code else dc.cache.set code left }
  | none => dc

end DocumentFormulaCache

/-- `FormulaLocationCache`.  A cache with room for no formula could not take
one in. -/
structure FormulaLocationCache where
  maxFormulasPerDoc : Nat
  room : 0 < maxFormulasPerDoc
  ttlSeconds : Int
  docs : PyDict Text DocumentFormulaCache

namespace FormulaLocationCache

/-- `FormulaLocationCache()`: the defaults. -/
def initial : FormulaLocationCache := ⟨4096, by decide, 300, PyDict.empty⟩

def pruneExpiredDocs (cache : FormulaLocationCache) (now : Int) :
    FormulaLocationCache :=
  if cache.ttlSeconds ≤ 0 then cache
  else
    { cache with
      docs := cache.docs.filterKeys fun url =>
        match cache.docs.get? url with
        | some dc => decide (now - dc.lastAccessed ≤ cache.ttlSeconds)
        | none => true }

def get (cache : FormulaLocationCache) (docUrl code : Text) (now : Int) :
    List FormulaCoord × FormulaLocationCache :=
  let cache := cache.pruneExpiredDocs now
  match cache.docs.get? docUrl with
  | some dc =>
    let (coords, dc) := dc.get code now
    (coords, { cache with docs := cache.docs.set docUrl dc })
  | none => ([], cache)

def put (cache : FormulaLocationCache) (docUrl code : Text) (coord : FormulaCoord)
    (now : Int) : FormulaLocationCache :=
  let cache := cache.pruneExpiredDocs now
  let dc := (cache.docs.get? docUrl).getD ⟨now, PyDict.empty⟩
  { cache with
    docs := cache.docs.set docUrl (dc.put cache.maxFormulasPerDoc code coord now) }

def removeCoordinate (cache : FormulaLocationCache) (docUrl code : Text)
    (coord : FormulaCoord) (now : Int) : FormulaLocationCache :=
  let cache := cache.pruneExpiredDocs now
  match cache.docs.get? docUrl with
  | some dc =>
    let dc := dc.removeCoordinate code coord
    { cache with
      docs :=
        if dc.cache.entries.isEmpty then cache.docs.pop docUrl
        else cache.docs.set docUrl dc }
  | none => cache

end FormulaLocationCache

/-! ## The search

The clock is read once for a whole search. -/

section Search

variable (docUrl code : Text) (now : Int)

/-- The body of the loop over a range: the cell's own code goes into the cache,
and the cell is a hit when that code is the one searched for. -/
def visitCell (sheet : FormulaSheet) (state : List Coord × FormulaLocationCache) (cell : Coord) :
    List Coord × FormulaLocationCache :=
  let formula := sheet.getFormula cell
  if formula.isEmpty || !mentionsPy (upper formula) then state
  else
    let cache :=
      if docUrl.isEmpty then state.2
      else
        match extractCodeFromPyFormula formula with
        | some extracted =>
          if extracted.isEmpty then state.2
          else state.2.put docUrl extracted (sheet.name, cell) now
        | none => state.2
    (if isMatchingPyFormula formula code then state.1 ++ [cell] else state.1, cache)

/-- The end of `_matching_cells_in_range`: hits that fill the box around them
count as one array formula. -/
def originsOfHits (hits : List Coord) : List Coord :=
  if hits.length ≤ 1 then hits
  else
    let minR := leastOf (hits.map Prod.fst)
    let maxR := greatestOf (hits.map Prod.fst)
    let minC := leastOf (hits.map Prod.snd)
    let maxC := greatestOf (hits.map Prod.snd)
    let expected := (maxR - minR + 1) * (maxC - minC + 1)
    if hits.length = expected then
      match hits.find? fun hit => hit == (minR, minC) with
      | some hit => [hit]
      | none => hits
    else hits

def matchingCellsInRange (sheet : FormulaSheet) (cache : FormulaLocationCache)
    (range : GridBox) : List Coord × FormulaLocationCache :=
  let (hits, cache) := range.cells.foldl (visitCell docUrl code now sheet) ([], cache)
  (originsOfHits hits, cache)

def collectMatchingFormulaOrigins (sheet : FormulaSheet)
    (cache : FormulaLocationCache) : List Coord × FormulaLocationCache :=
  sheet.formulaCells.foldl (fun (found, cache) range =>
    let (origins, cache) := matchingCellsInRange docUrl code now sheet cache range
    (found ++ origins, cache)) ([], cache)

/-- The inner loop with its `_add`: a new origin is collected, and nothing is
returned as soon as two are. -/
def addOrigins (sheetName : Text) : List Coord → List FormulaCoord → Option (List FormulaCoord)
  | [], collected => some collected
  | cell :: cells, collected =>
    let collected :=
      if (sheetName, cell) ∈ collected then collected
      else collected ++ [(sheetName, cell)]
    if 1 < collected.length then none else addOrigins sheetName cells collected

def searchSheets : List FormulaSheet → List FormulaCoord → FormulaLocationCache →
    Option (List FormulaCoord) × FormulaLocationCache
  | [], collected, cache => (some collected, cache)
  | sheet :: sheets, collected, cache =>
    let (origins, cache) := collectMatchingFormulaOrigins docUrl code now sheet cache
    match addOrigins sheet.name origins collected with
    | none => (none, cache)
    | some collected => searchSheets sheets collected cache

/-- The located coordinate is put in front, and the others of the code go. -/
def rememberLocation (cache : FormulaLocationCache) (located : FormulaCoord) :
    FormulaLocationCache :=
  let (coords, cache) := (cache.put docUrl code located now).get docUrl code now
  coords.foldl (fun cache stale =>
    if stale = located then cache else cache.removeCoordinate docUrl code stale now) cache

def locateFormulaCellInDoc (workbook : Workbook) (cache : FormulaLocationCache) :
    Option FormulaCoord × FormulaLocationCache :=
  match searchSheets docUrl code now workbook.sheets [] cache with
  | (some [located], cache) => (some located, rememberLocation docUrl code now cache located)
  | (_, cache) => (none, cache)

end Search

end WriterAgent.Calc.Python
