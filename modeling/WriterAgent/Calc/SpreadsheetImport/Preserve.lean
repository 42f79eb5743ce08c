import WriterAgent.Calc.Python.RebuildCode
import WriterAgent.Calc.SpreadsheetImport.Ingest

/-!
# Extracting PY cells

A PY formula is taken apart and written in its normal form.  What is written
can be taken apart again, so the extraction never trips its assertion.
-/

namespace WriterAgent.Calc.SpreadsheetImport

open PyText Python List Option

structure PyCellExtract where
  address : Text
  originalFormula : Text
  normalizedFormula : Text
  code : Text
  dataArgs : List Text
  changed : Bool
deriving DecidableEq

/-- `py_formula_semantics`: the code and the data arguments. -/
def pyFormulaSemantics (formula : Text) : Option (Text × List Text) :=
  (parsePythonFormula (canonicalizePyFormulaForParse formula)).map fun parts =>
    (parts.code, parseDataBindingText (formatDataBindingDisplay parts.dataSuffix))

variable (isAlnum : Char → Bool)

def normalizePyFormula (formula : Text) : Option Text :=
  (pyFormulaSemantics formula).map fun (code, dataArgs) =>
    rebuildPythonFormulaWithData isAlnum code dataArgs [';'] false

/-- One turn of `extract_py_cells`; the normalized formula has to parse. -/
def extractPyCell (addr : Text) (cell : CellRecord) : Except ImportFailure (Option PyCellExtract) :=
  match cell.type, cell.formula with
  | .pyFormula, some formula =>
    if formula = [] then .ok none
    else
      match normalizePyFormula isAlnum formula with
      | none => .ok none
      | some normalized =>
        match pyFormulaSemantics normalized with
        | none => .error .assertionError
        | some (code, dataArgs) =>
          .ok (some ⟨addr, formula, normalized, code, dataArgs, formula ≠ normalized⟩)
  | _, _ => .ok none

def extractPyCells (model : SheetModel) : Except ImportFailure (List PyCellExtract) := do
  let cells := (sortTexts model.cells.keys).filterMap fun addr =>
    (model.cells.get? addr).map fun cell => (addr, cell)
  let extracts ← cells.mapM fun (addr, cell) => extractPyCell isAlnum addr cell
  return extracts.filterMap id

variable {c d : Char} {s rest code formula : Text}

theorem mem_quotePySheet {sheet : Text} (member : c ∈ quotePySheet sheet rest) :
    c ∈ sheet ∨ c ∈ rest ∨ c = '\'' ∨ c = '.' := by
  rw [quotePySheet] at member
  split at member
  · simp only [mem_cons, mem_append] at member
    tauto
  · simp only [mem_cons, mem_append] at member
    tauto

theorem mem_of_mem_takeWhile_ne (member : c ∈ s.takeWhile (· != d)) : c ∈ s :=
  ( takeWhile_prefix _).subset member

theorem mem_of_mem_drop_dropWhile_ne (member : c ∈ (s.dropWhile (· != d)).drop 1) : c ∈ s :=
  (dropWhile_suffix _).subset (mem_of_mem_drop member)

theorem mem_formatPyDataRange {range : Text} (member : c ∈ formatPyDataRange range) :
    c ∈ range ∨ c = '\'' ∨ c = '.' := by
  have source : ∀ d ∈ removeChar '$' (strip range), d ∈ range := fun d inside =>
    (strip_isInfix range).subset (mem_filter.1 inside).1
  rw [formatPyDataRange] at member
  dsimp only at member
  split at member
  · rcases mem_quotePySheet member with inSheet | inRest | quote
    · exact Or.inl (source c (mem_of_mem_takeWhile_ne
        ((lstripBy_isSuffix _ _).subset ((rstripBy_isPrefix _ _).subset inSheet))))
    · exact Or.inl (source c (mem_of_mem_drop_dropWhile_ne inRest))
    · exact Or.inr quote
  · split at member
    · exact Or.inl (source c member)
    · split at member
      · exact Or.inl (source c member)
      · split at member
        · rcases mem_append.1 member with inSheet | inRest
          · split at inSheet
            · exact Or.inl (source c (mem_of_mem_takeWhile_ne inSheet))
            · simp only [mem_cons, mem_append, not_mem_nil, or_false] at inSheet
              rcases inSheet with (quote | inside) | quote
              · exact Or.inr (Or.inl quote)
              · exact Or.inl (source c (mem_of_mem_takeWhile_ne inside))
              · exact Or.inr (Or.inl quote)
          · rcases mem_cons.1 inRest with point | inside
            · exact Or.inr (Or.inr point)
            · exact Or.inl (source c (mem_of_mem_drop_dropWhile_ne inside))
        · rcases mem_append.1 member with inSheet | inRest
          · exact Or.inl (source c (mem_of_mem_takeWhile_ne inSheet))
          · rcases mem_cons.1 inRest with point | inside
            · exact Or.inr (Or.inr point)
            · exact Or.inl (source c (mem_of_mem_drop_dropWhile_ne inside))

theorem strip_keep (visible : isSpace c = false) (rest : Text) :
    strip (c :: rest) = c :: rstripBy isSpace rest := by
  rw [strip, lstripBy_eq_self (by rintro d ⟨⟩; exact visible)]
  exact rstripBy_append visible [] rest

theorem exists_dataSuffixOf {tail : Text} (front : tail = [] ∨ tail.head? = some ';') :
    ∃ dataSuffix, dataSuffixOf (strip (rstripBy isSpace tail)) = some dataSuffix := by
  cases tail with
  | nil => exact ⟨_, rfl⟩
  | cons c rest =>
    obtain rfl : c = ';' := by simpa using front
    have kept := @rstripBy_append ';' isSpace (by decide) [] rest
    rw [nil_append, nil_append] at kept
    rw [kept, strip_keep (by decide)]
    exact ⟨_, rfl⟩

theorem exists_parse_rebuilt {args : List Text} (straight : StraightQuotes code)
    (argsStraight : ∀ arg ∈ args, StraightQuotes arg) :
    let formula := rebuildPythonFormulaWithData isAlnum code args [';'] false
    normalizeFormulaString formula = formula ∧ (parsePythonFormula formula).isSome := by
  intro formula
  have written : ∀ token ∈ writtenArgs args, StraightQuotes token := by
    intro token member
    obtain ⟨arg, kept, rfl⟩ := mem_map.1 member
    intro c inToken
    rcases mem_formatPyDataRange inToken with inArg | rfl | rfl
    · exact argsStraight arg (mem_filter.1 kept).1 c inArg
    · decide
    · decide
  have onPrefix := onPrefix_written ((straightQuotes_sanitize_iff isAlnum code).2 straight)
    (straightQuotes_argTail written)
  have front : argTail (writtenArgs args) = [] ∨ (argTail (writtenArgs args)).head? = some ';' := by
    rw [argTail]
    split
    · exact Or.inl rfl
    · exact Or.inr rfl
  have isFormula : formula = _ := rebuildPythonFormulaWithData_calc isAlnum code args
  generalize argTail (writtenArgs args) = tail at onPrefix front isFormula
  obtain ⟨dataSuffix, suffix⟩ := exists_dataSuffixOf front
  have notDoubled : (rstripBy isSpace tail).head? ≠ some '"' := by
    rcases front with rfl | separator
    · decide
    · obtain ⟨rest, rfl⟩ := List.head?_eq_some_iff.1 separator
      have kept := @rstripBy_append ';' isSpace (by decide) [] rest
      rw [nil_append] at kept
      rw [kept]
      simp
  have stripped : strip ('"' :: (escapeCodeForExcelFormula (sanitizeInlinePyCode isAlnum code) ++
      '"' :: tail)) = '"' :: (escapeCodeForExcelFormula (sanitizeInlinePyCode isAlnum code) ++
        '"' :: rstripBy isSpace tail) := by
    rw [strip_keep (by decide), rstripBy_append (by decide)]
  have found : parseQuotedString (strip ('"' ::
      (escapeCodeForExcelFormula (sanitizeInlinePyCode isAlnum code) ++ '"' :: tail))) =
        some (sanitizeInlinePyCode isAlnum code, rstripBy isSpace tail) := by
    rw [stripped]
    exact parseQuotedTail_escape _ notDoubled
  rw [isFormula]
  exact ⟨onPrefix.normal, by rw [onPrefix.parse_quoted found suffix]; rfl⟩

theorem afterCall_eq_none {name : Text} (apart : name.head?.map foldCase ≠ s.head?.map foldCase)
    (nonempty : name ≠ []) : afterCall name s = none := by
  rw [afterCall, if_neg]
  intro same
  cases name with
  | nil => exact nonempty rfl
  | cons c rest =>
    cases s with
    | nil => simp at same
    | cons d later =>
      simp only [length_cons, take_succ_cons, map_cons, List.cons.injEq] at same
      exact apart (by simp [same.1])

theorem canonicalize_eq_self {raw : Text} (normal : normalizeFormulaString raw = raw)
    (isCall : raw = '=' :: 'P' :: rest) : canonicalizePyFormulaForParse raw = raw := by
  have equals : afterEquals raw = some (['='], 'P' :: rest) := by
    rw [isCall]
    rfl
  have notService : ∀ name : Text, name.head?.map foldCase = some 'o' →
      afterCall name ('P' :: rest) = none := by
    intro name first
    have fold : foldCase 'P' = 'p' := by decide
    apply afterCall_eq_none
    · rw [first, List.head?_cons, map_some]
      decide
    · rintro rfl
      cases first
  have collabora : rewriteCollaboraAddinPrefix raw = raw := by
    rw [rewriteCollaboraAddinPrefix, normal, equals]
    dsimp only
    rw [notService _ (by decide)]
    rw [notService _ (by decide)]
  have addin : addinNames.findSome? (afterCall · ('P' :: rest)) = none := by
    rw [List.findSome?_eq_none_iff]
    intro name member
    apply notService
    revert name
    decide
  unfold canonicalizePyFormulaForParse
  simp only [normal, collabora, equals, bind_some]
  generalize addinNames.findSome? (fun name => afterCall name ('P' :: rest)) = found at addin ⊢
  subst addin
  rfl

theorem straight_of_semantics {dataArgs : List Text}
    (semantics : pyFormulaSemantics formula = some (code, dataArgs)) :
    StraightQuotes code ∧ ∀ arg ∈ dataArgs, StraightQuotes arg := by
  rw [pyFormulaSemantics, map_eq_some_iff] at semantics
  obtain ⟨parts, parsed, same⟩ := semantics
  obtain ⟨rfl, rfl⟩ := Prod.mk.inj same
  obtain ⟨_, straightCode, straightSuffix⟩ := straightQuotes_of_parse parsed
  refine ⟨straightCode, ?_⟩
  intro arg member c inArg
  exact straightSuffix c ((mem_readDataArgs member).2 c inArg)

theorem normalizePyFormula_semantics {normalized : Text}
    (isNormalized : normalizePyFormula isAlnum formula = some normalized) :
    (pyFormulaSemantics normalized).isSome := by
  rw [normalizePyFormula, map_eq_some_iff] at isNormalized
  obtain ⟨⟨code, dataArgs⟩, semantics, rfl⟩ := isNormalized
  obtain ⟨straight, argsStraight⟩ := straight_of_semantics semantics
  obtain ⟨normal, parses⟩ := exists_parse_rebuilt isAlnum straight argsStraight
  rw [pyFormulaSemantics, canonicalize_eq_self normal rfl, isSome_map]
  exact parses

theorem extractPyCell_ok (addr : Text) (cell : CellRecord) :
    ∃ extract, extractPyCell isAlnum addr cell = .ok extract := by
  rw [extractPyCell.eq_def]
  split
  · rename_i formula _ _
    split
    · exact ⟨_, rfl⟩
    · split
      · exact ⟨_, rfl⟩
      · rename_i normalized isNormalized
        have semantics := normalizePyFormula_semantics isAlnum isNormalized
        split
        · rename_i none
          rw [none] at semantics
          cases semantics
        · exact ⟨_, rfl⟩
  · exact ⟨_, rfl⟩

theorem exists_mapM_ok {ε α β : Type} {f : α → Except ε β} {items : List α}
    (all : ∀ item ∈ items, ∃ result, f item = .ok result) :
    ∃ results, items.mapM f = .ok results := by
  induction items with
  | nil => exact ⟨[], rfl⟩
  | cons item rest induction =>
    obtain ⟨result, isResult⟩ := all item mem_cons_self
    obtain ⟨results, areResults⟩ :=
      induction fun other member => all other (mem_cons_of_mem _ member)
    exact ⟨result :: results, by rw [mapM_cons, isResult, areResults]; rfl⟩

/-- **The assertion holds.** Extracting the PY cells of a model never fails. -/
theorem extractPyCells_ok (model : SheetModel) :
    ∃ extracts, extractPyCells isAlnum model = .ok extracts := by
  obtain ⟨results, isResults⟩ := @exists_mapM_ok ImportFailure (Text × CellRecord) _
    (fun entry => extractPyCell isAlnum entry.1 entry.2)
    ((sortTexts model.cells.keys).filterMap fun addr =>
      (model.cells.get? addr).map fun cell => (addr, cell))
    (fun entry _ => extractPyCell_ok isAlnum entry.1 entry.2)
  exact ⟨results.filterMap id, by rw [extractPyCells, isResults]; rfl⟩

end WriterAgent.Calc.SpreadsheetImport

/-!
## The preserve pass

Constants keep their value, PY formulas are normalized, and other formulas
pass through.
-/

namespace WriterAgent.Calc.SpreadsheetImport

open PyText

variable (isAlnum : Char → Bool)

structure OutputCell where
  address : Text
  value : Option CellValue
  formula : Option Text
  numberFormat : Option ℤ
deriving DecidableEq

structure OutputSheetModel where
  sheetName : Text
  usedRange : Text
  cells : PyDict Text OutputCell
  pyExtracts : List PyCellExtract
  arrayFormulas : List (Text × Text)

/-- The values of a dictionary changed, each with its key at hand. -/
def mapEntries {μ ν : Type} (f : Text → μ → ν) (dict : PyDict Text μ) : PyDict Text ν :=
  ⟨dict.entries.map fun entry => (entry.1, f entry.1 entry.2), by
    simpa [Function.comp_def] using dict.distinct⟩

theorem get?_mapEntries {μ ν : Type} (f : Text → μ → ν) (dict : PyDict Text μ) (key : Text) :
    (mapEntries f dict).get? key = (dict.get? key).map (f key) := by
  simp only [PyDict.get?, mapEntries]
  induction dict.entries with
  | nil => rfl
  | cons head rest induction =>
    obtain ⟨first, old⟩ := head
    by_cases sought : first = key
    · subst sought
      simp [PyDict.lookup]
    · simpa [PyDict.lookup, sought] using induction

/-- `enrich_number_formats`, given the format of a cell if it has one. -/
def enrichNumberFormats (formatAt : Position → Option ℤ) (enrichAll : Bool)
    (model : SheetModel) : SheetModel :=
  { model with
    cells := model.cells |> mapEntries fun addr record =>
      if !enrichAll && record.type ≠ .constant then record
      else
        match (parseAddress addr).bind formatAt with
        | some fmt => { record with numberFormat := some fmt }
        | none => record }

def outputCellFromRecord (cell : CellRecord) (pyByAddr : PyDict Text PyCellExtract) :
    OutputCell :=
  match cell.type with
  | .empty => ⟨cell.address, none, none, none⟩
  | .constant => ⟨cell.address, cell.value, none, cell.numberFormat⟩
  | .pyFormula =>
    match pyByAddr.get? cell.address with
    | some extract => ⟨cell.address, none, some extract.normalizedFormula, none⟩
    | none => ⟨cell.address, none, cell.formula, none⟩
  | _ =>
    match cell.formula with
    | some (c :: rest) => ⟨cell.address, none, some (c :: rest), none⟩
    | _ => ⟨cell.address, cell.value, none, none⟩

def extractsByAddr (pyExtracts : List PyCellExtract) : PyDict Text PyCellExtract :=
  PyDict.ofPairs (pyExtracts.map fun item => (item.address, item))

def buildOutputModel (model : SheetModel) : Except ImportFailure OutputSheetModel := do
  let pyExtracts ← extractPyCells isAlnum model
  let pyByAddr := extractsByAddr pyExtracts
  return ⟨model.sheetName, model.usedRange,
    model.cells.mapValues fun record => outputCellFromRecord record pyByAddr,
    pyExtracts, []⟩

/-- What a cell of the target sheet holds. -/
inductive CellContent where
  | empty
  | value (x : Binary64)
  | text (s : Text)
  | formula (s : Text)
deriving DecidableEq

structure TargetCell where
  content : CellContent
  numberFormat : Option ℤ

abbrev TargetSheet := Position → TargetCell

/-- The cells of the spreadsheet: `setFormula` interprets a text, as a formula,
a value or a text; an array formula goes to a range, or nowhere if it fails. -/
structure SheetApi where
  setFormula : Text → CellContent
  setArrayFormula : TargetSheet → Text → Text → TargetSheet

/-- `str` of a value. -/
def valueText : CellValue → Text
  | .number x => floatText x.1
  | .text s => s

def entryText (oc : OutputCell) : Text :=
  match oc.formula, oc.value with
  | some (c :: rest), _ => c :: rest
  | _, none => []
  | _, some value => valueText value

variable (api : SheetApi)

def entryContent (entry : Text) : CellContent :=
  if entry.head? = some '=' ∨ entry.head? = some '\x7b' then api.setFormula entry
  else if entry = [] then .empty
  else
    match readFloat entry with
    | some val => .value val
    | none => .text entry

def writeEntry (sheet : TargetSheet) (cell : Position × OutputCell) : TargetSheet :=
  Function.update sheet cell.1 { sheet cell.1 with content := entryContent api (entryText cell.2) }

def writeFormat (sheet : TargetSheet) (cell : Position × OutputCell) : TargetSheet :=
  match cell.2.numberFormat with
  | some fmt => Function.update sheet cell.1 { sheet cell.1 with numberFormat := some fmt }
  | none => sheet

def rangeCells (cells : PyDict Text OutputCell) (start stop : Position) :
    Except ImportFailure (List (Position × OutputCell)) := do
  let rows ← (List.range' start.2 (stop.2 + 1 - start.2)).mapM fun row =>
    (List.range' start.1 (stop.1 + 1 - start.1)).mapM fun col =>
      match cells.get? (formatAddress col row) with
      | some oc => .ok ((col, row), oc)
      | none => .error (.keyError (formatAddress col row))
  return rows.flatten

def applyOutputToSheet (targetSheet : TargetSheet) (output : OutputSheetModel) :
    Except ImportFailure TargetSheet := do
  match parseRangeString output.usedRange with
  | none => .error (.valueError output.usedRange)
  | some (start, stop) =>
    let cells ← rangeCells output.cells start stop
    let written := cells.foldl (writeEntry api) targetSheet
    let formatted := cells.foldl writeFormat written
    return output.arrayFormulas.foldl
      (fun sheet (range, formula) => api.setArrayFormula sheet range formula) formatted

end WriterAgent.Calc.SpreadsheetImport
