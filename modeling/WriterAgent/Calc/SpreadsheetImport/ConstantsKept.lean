import WriterAgent.Calc.SpreadsheetImport.Emit
import WriterAgent.Calc.SpreadsheetImport.IngestedGrid

/-!
# Constants through the passes

The output sheet is written from texts, so a constant comes back as what its
text reads as.
-/

namespace WriterAgent.Calc.SpreadsheetImport

open PyText List

/-- A position of the range from `start` to `stop`. -/
def InRange (start stop p : Position) : Prop :=
  start.1 ≤ p.1 ∧ p.1 ≤ stop.1 ∧ start.2 ≤ p.2 ∧ p.2 ≤ stop.2

theorem mapM_ok {ε α β : Type} {f : α → Except ε β} {g : α → β} {items : List α}
    (all : ∀ item ∈ items, f item = .ok (g item)) : items.mapM f = .ok (items.map g) := by
  induction items with
  | nil => rfl
  | cons item rest induction =>
    rw [mapM_cons, all item mem_cons_self,
      induction fun other member => all other (mem_cons_of_mem _ member)]
    rfl

variable {addr sheetName : Text} {record : CellRecord} {model : SheetModel}
  {start stop : Position} {output : OutputSheetModel} {oc : OutputCell}
  {passThrough : List Text}

theorem rangeCells_ok {cells : PyDict Text OutputCell} {cellAt : Position → OutputCell}
    (has : ∀ p, InRange start stop p → cells.get? (formatAddress p.1 p.2) = some (cellAt p)) :
    ∃ positions : List Position, rangeCells cells start stop =
        .ok (positions.map fun p => (p, cellAt p)) ∧
      ∀ p, p ∈ positions ↔ InRange start stop p := by
  let columns := List.range' start.1 (stop.1 + 1 - start.1)
  let rows := List.range' start.2 (stop.2 + 1 - start.2)
  have column : ∀ col ∈ columns, start.1 ≤ col ∧ col ≤ stop.1 := by
    intro col member
    have bounds := mem_range'_1.1 member
    omega
  have rowBounds : ∀ row ∈ rows, start.2 ≤ row ∧ row ≤ stop.2 := by
    intro row member
    have bounds := mem_range'_1.1 member
    omega
  refine ⟨rows.flatMap fun row => columns.map fun col => (col, row), ?_, ?_⟩
  · rw [rangeCells, mapM_ok (g := fun row => columns.map fun col =>
      ((col, row), cellAt (col, row)))]
    · rw [map_flatMap]
      simp only [map_map, Function.comp_def]
      rfl
    · intro row inRows
      apply mapM_ok
      intro col inColumns
      rw [has (col, row) ⟨(column col inColumns).1, (column col inColumns).2,
        (rowBounds row inRows).1, (rowBounds row inRows).2⟩]
  · intro p
    simp only [mem_flatMap, mem_map, rows, columns, mem_range'_1, InRange]
    constructor
    · rintro ⟨row, rowIn, col, colIn, rfl⟩
      omega
    · intro inRange
      exact ⟨p.2, by omega, p.1, by omega, rfl⟩

variable (api : SheetApi) {cellAt : Position → OutputCell}

theorem foldl_writeEntry_content (positions : List Position) (sheet : TargetSheet) (p : Position) :
    (((positions.map fun p => (p, cellAt p)).foldl (writeEntry api) sheet) p).content =
      if p ∈ positions then entryContent api (entryText (cellAt p)) else (sheet p).content := by
  induction positions generalizing sheet with
  | nil => rfl
  | cons first rest induction =>
    rw [map_cons, foldl_cons, induction]
    by_cases later : p ∈ rest
    · rw [if_pos later, if_pos (mem_cons_of_mem _ later)]
    · by_cases here : p = first
      · subst here
        simp [writeEntry]
      · simp [writeEntry, here, later]

theorem writeFormat_content (sheet : TargetSheet) (cell : Position × OutputCell) (p : Position) :
    (writeFormat sheet cell p).content = (sheet p).content := by
  rw [writeFormat.eq_def]
  cases cell.2.numberFormat with
  | none => rfl
  | some fmt =>
    by_cases here : p = cell.1
    · subst here
      simp
    · simp [here]

theorem foldl_writeFormat_content (cells : List (Position × OutputCell)) (sheet : TargetSheet)
    (p : Position) : (cells.foldl writeFormat sheet p).content = (sheet p).content := by
  induction cells generalizing sheet with
  | nil => rfl
  | cons cell rest induction => rw [foldl_cons, induction, writeFormat_content]

theorem applyOutputToSheet_ok (used : parseRangeString output.usedRange = some (start, stop))
    (noArrays : output.arrayFormulas = []) (has : ∀ p, InRange start stop p →
      output.cells.get? (formatAddress p.1 p.2) = some (cellAt p)) (targetSheet : TargetSheet) :
    ∃ sheet, applyOutputToSheet api targetSheet output = .ok sheet ∧ ∀ p, InRange start stop p →
        (sheet p).content = entryContent api (entryText (cellAt p)) := by
  obtain ⟨positions, isCells, members⟩ := rangeCells_ok has
  let cells := positions.map fun p => (p, cellAt p)
  refine ⟨cells.foldl writeFormat (cells.foldl (writeEntry api) targetSheet), ?_, ?_⟩
  · rw [applyOutputToSheet, used]
    simp only
    rw [isCells, noArrays]
    rfl
  · intro p inRange
    rw [foldl_writeFormat_content, foldl_writeEntry_content, if_pos ((members p).2 inRange)]

variable (isAlnum : Char → Bool)

/-- The two passes. -/
inductive Pass where
  | preserve
  | convert (translator : Translator) (vectorize : Bool)

def CellType.isPassThrough : CellType → Bool
  | .formula => true
  | .prompt => true
  | .arrayFormula => true
  | .error => true
  | _ => false

def passThroughCells (model : SheetModel) : List Text :=
  (model.cells.entries.filter fun entry => entry.2.type.isPassThrough).map Prod.fst

def Pass.run (model : SheetModel) : Pass → Except ImportFailure (OutputSheetModel × List Text)
  | .preserve => do
    let output ← buildOutputModel isAlnum model
    return (output, passThroughCells model)
  | .convert translator vectorize => do
    let (output, report) ← buildConvertedOutputModel translator isAlnum vectorize model
    return (output, report.passThrough)

/-- What the output has for a cell: constants, nothing for the empty cells, and
the formulas that pass through. -/
structure Carried (record : CellRecord) (passesThrough : Prop) (oc : OutputCell) : Prop where
  constant : record.type = .constant → oc.value = record.value ∧ oc.formula = none
  empty : record.type = .empty → oc.value = none ∧ oc.formula = none
  formula : passesThrough → ∃ c rest, record.formula = some (c :: rest) ∧
    oc.formula = some (c :: rest) ∧ (c = '=' ∨ c = '\x7b')

theorem Carried.imp {passes fewer : Prop} (carried : Carried record passes oc)
    (weaker : fewer → passes) : Carried record fewer oc :=
  ⟨carried.constant, carried.empty, fun isFewer => carried.formula (weaker isFewer)⟩

theorem isPassThrough_iff {type : CellType} : type.isPassThrough = true ↔
    type ≠ .constant ∧ type ≠ .empty ∧ type ≠ .pyFormula := by
  cases type <;> decide

theorem carried_outputCellFromRecord (classified : Classified addr record)
    (pyByAddr : PyDict Text PyCellExtract) :
    Carried record (record.type.isPassThrough = true) (outputCellFromRecord record pyByAddr) := by
  constructor
  · intro isConstant
    rw [outputCellFromRecord, isConstant]
    exact ⟨rfl, rfl⟩
  · intro isEmpty
    rw [outputCellFromRecord, isEmpty]
    exact ⟨rfl, rfl⟩
  · intro passes
    obtain ⟨noConstant, notEmpty, noPy⟩ := isPassThrough_iff.1 passes
    obtain ⟨c, rest, isFormula, opens⟩ := classified.formula noConstant notEmpty
    refine ⟨c, rest, isFormula, ?_, opens⟩
    rw [outputCellFromRecord, isFormula]
    split
    · next isType => exact absurd isType notEmpty
    · next isType => exact absurd isType noConstant
    · next isType => exact absurd isType noPy
    · rfl

structure Built (model : SheetModel) (output : OutputSheetModel) (passThrough : List Text) :
    Prop where
  usedRange : output.usedRange = model.usedRange
  arrayFormulas : output.arrayFormulas = []
  cells : ∀ addr record, model.cells.get? addr = some record →
    ∃ oc, output.cells.get? addr = some oc ∧ Carried record (addr ∈ passThrough) oc
  keys : ∀ addr ∈ passThrough, ∃ record, model.cells.get? addr = some record ∧
    record.type.isPassThrough = true

variable {isAlnum}

theorem mem_passThroughCells : addr ∈ passThroughCells model ↔
      ∃ record, model.cells.get? addr = some record ∧ record.type.isPassThrough = true := by
  simp only [passThroughCells, mem_map, mem_filter, PyDict.get?_eq_some_iff]
  constructor
  · rintro ⟨⟨key, record⟩, ⟨member, passes⟩, rfl⟩
    exact ⟨record, member, passes⟩
  · rintro ⟨record, member, passes⟩
    exact ⟨(addr, record), ⟨member, passes⟩, rfl⟩

theorem built_preserve
    (classified : ∀ addr record, model.cells.get? addr = some record → Classified addr record) :
    ∃ output passThrough, Pass.run isAlnum model .preserve = .ok (output, passThrough) ∧
      Built model output passThrough := by
  obtain ⟨extracts, areExtracts⟩ := extractPyCells_ok isAlnum model
  refine ⟨⟨model.sheetName, model.usedRange,
    model.cells.mapValues fun record => outputCellFromRecord record (extractsByAddr extracts),
    extracts, []⟩, passThroughCells model, ?_, ⟨rfl, rfl, ?_, ?_⟩⟩
  · rw [Pass.run, buildOutputModel, areExtracts]
    rfl
  · intro addr record found
    refine ⟨_, by rw [PyDict.get?_mapValues, found]; rfl, ?_⟩
    apply (carried_outputCellFromRecord (classified addr record found) _).imp
    intro member
    obtain ⟨other, isOther, passes⟩ := mem_passThroughCells.1 member
    obtain rfl : record = other := Option.some.inj (found.symm.trans isOther)
    exact passes
  · intro addr member
    exact mem_passThroughCells.1 member

section Converting

variable {translator : Translator} {model : SheetModel}

theorem vectorFormulas_types {formula : Text}
    (member : (addr, formula) ∈ vectorFormulas translator model) :
    ∃ record, model.cells.get? addr = some record ∧
      (record.type = .formula ∨ record.type = .error) := by
  rw [vectorFormulas, mem_flatMap] at member
  obtain ⟨⟨firstAddr, group⟩, inGroups, inGroup⟩ := member
  have groupsIn := groupsIn_detectVectorizedColumns model firstAddr group
    (PyDict.get?_eq_some_iff.2 inGroups)
  dsimp only at inGroup
  split at inGroup
  · split at inGroup
    · cases inGroup
    · split at inGroup
      · obtain ⟨⟨other, idx⟩, inIndexed, same⟩ := mem_map.1 inGroup
        obtain ⟨rfl, _⟩ := Prod.mk.inj same
        exact groupsIn other (fst_mem_of_mem_zipIdx inIndexed)
      · cases inGroup
  · cases inGroup

theorem carried_convertCell {circular : List Text} {pyByAddr : PyDict Text PyCellExtract}
    {handled : PyDict Text Text} (classified : Classified addr record)
    (isFormula : ∀ formula, handled.get? addr = some formula →
      record.type = .formula ∨ record.type = .error) :
    Carried record (∃ reason, (convertCell translator sheetName circular pyByAddr handled addr
        record).2 = .passThrough reason)
      (convertCell translator sheetName circular pyByAddr handled addr record).1 ∧
    ((∃ reason, (convertCell translator sheetName circular pyByAddr handled addr record).2 =
      .passThrough reason) → record.type.isPassThrough = true) := by
  have same := carried_outputCellFromRecord classified pyByAddr
  rw [convertCell.eq_def]
  dsimp only
  split
  · rename_i formula isHandled
    have type := isFormula formula isHandled
    refine ⟨⟨?_, ?_, nofun⟩, nofun⟩
    · intro isConstant
      rw [isConstant] at type
      exact absurd type (by decide)
    · intro isEmpty
      rw [isEmpty] at type
      exact absurd type (by decide)
  · split
    · rename_i isEmpty
      exact ⟨⟨fun other => absurd (isEmpty.symm.trans other) (by decide),
        fun _ => ⟨rfl, rfl⟩, nofun⟩, nofun⟩
    · exact ⟨same.imp nofun, nofun⟩
    · exact ⟨same.imp nofun, nofun⟩
    · rename_i isPrompt
      have passes : record.type.isPassThrough = true := by rw [isPrompt]; rfl
      exact ⟨same.imp fun _ => passes, fun _ => passes⟩
    · rename_i isArray
      have passes : record.type.isPassThrough = true := by rw [isArray]; rfl
      exact ⟨same.imp fun _ => passes, fun _ => passes⟩
    · rename_i notEmpty noConstant noPy _ _
      have passes : record.type.isPassThrough = true :=
        isPassThrough_iff.2 ⟨noConstant, notEmpty, noPy⟩
      split
      · exact ⟨same.imp fun _ => passes, fun _ => passes⟩
      · split
        · split
          · exact ⟨same.imp fun _ => passes, fun _ => passes⟩
          · split
            · refine ⟨⟨?_, ?_, nofun⟩, nofun⟩
              · exact fun isConstant => absurd isConstant noConstant
              · exact fun isEmpty => absurd isEmpty notEmpty
            · exact ⟨same.imp fun _ => passes, fun _ => passes⟩
        · exact ⟨same.imp nofun, nofun⟩

theorem mem_passThrough_reportOf {vectorized : List Text} {outcomes : List (Text × Outcome)} :
    addr ∈ (reportOf vectorized outcomes).passThrough ↔
      ∃ reason, (addr, Outcome.passThrough reason) ∈ outcomes := by
  simp only [reportOf, mem_filterMap]
  constructor
  · rintro ⟨⟨other, outcome⟩, member, same⟩
    cases outcome with
    | passThrough reason =>
      obtain rfl : other = addr := Option.some.inj same
      exact ⟨reason, member⟩
    | _ => cases same
  · rintro ⟨reason, member⟩
    exact ⟨_, member, rfl⟩

theorem built_convert {vectorize : Bool}
    (classified : ∀ addr record, model.cells.get? addr = some record → Classified addr record) :
    ∃ output passThrough,
      Pass.run isAlnum model (.convert translator vectorize) = .ok (output, passThrough) ∧
      Built model output passThrough := by
  obtain ⟨extracts, areExtracts⟩ := extractPyCells_ok isAlnum model
  let vectorized := if vectorize then vectorFormulas translator model else []
  let convert := convertCell translator model.sheetName model.circularGroups.flatten
    (extractsByAddr extracts) (PyDict.ofPairs vectorized)
  let converted := (sortTexts model.cells.keys).filterMap fun addr =>
    (model.cells.get? addr).map fun record => (addr, convert addr record)
  have memConverted : ∀ addr result, (addr, result) ∈ converted ↔
      ∃ record, model.cells.get? addr = some record ∧ result = convert addr record := by
    intro addr result
    simp only [converted, mem_filterMap, mem_sortTexts, Option.map_eq_some_iff]
    constructor
    · rintro ⟨key, _, record, found, same⟩
      obtain ⟨rfl, rfl⟩ := Prod.mk.inj same
      exact ⟨record, found, rfl⟩
    · rintro ⟨record, found, rfl⟩
      exact ⟨addr, PyDict.mem_keys_iff.2 ⟨record, found⟩, record, found, rfl⟩
  have distinct : (converted.map Prod.fst).Nodup := by
    simp only [converted, keys_withRecords]
    exact ((perm_insertionSort _ _).nodup_iff.2 model.cells.distinct).filter _
  have carried : ∀ addr record, model.cells.get? addr = some record →
      Carried record (∃ reason, (convert addr record).2 = .passThrough reason)
        (convert addr record).1 ∧
      ((∃ reason, (convert addr record).2 = .passThrough reason) →
        record.type.isPassThrough = true) := by
    intro addr record found
    apply carried_convertCell (classified addr record found)
    intro formula isHandled
    have member := PyDict.mem_of_mem_ofPairs (PyDict.get?_eq_some_iff.1 isHandled)
    simp only [vectorized] at member
    split at member
    · obtain ⟨other, isOther, types⟩ := vectorFormulas_types member
      obtain rfl : record = other := Option.some.inj (found.symm.trans isOther)
      exact types
    · cases member
  have memPass : ∀ addr, addr ∈ (reportOf (vectorized.map Prod.fst)
      (converted.map fun item => (item.1, item.2.2))).passThrough ↔
      ∃ record, model.cells.get? addr = some record ∧
        ∃ reason, (convert addr record).2 = .passThrough reason := by
    intro addr
    rw [mem_passThrough_reportOf]
    constructor
    · rintro ⟨reason, member⟩
      obtain ⟨⟨key, result⟩, inConverted, same⟩ := mem_map.1 member
      obtain ⟨record, found, rfl⟩ := (memConverted key result).1 inConverted
      obtain ⟨rfl, isReason⟩ := Prod.mk.inj same
      exact ⟨record, found, reason, isReason⟩
    · rintro ⟨record, found, reason, isReason⟩
      exact ⟨reason, mem_map.2 ⟨(addr, convert addr record),
        (memConverted addr _).2 ⟨record, found, rfl⟩, by rw [← isReason]⟩⟩
  refine ⟨⟨model.sheetName, model.usedRange,
    PyDict.ofPairs (converted.map fun item => (item.1, item.2.1)), extracts, []⟩,
    (reportOf (vectorized.map Prod.fst)
      (converted.map fun item => (item.1, item.2.2))).passThrough, ?_, ⟨rfl, rfl, ?_, ?_⟩⟩
  · rw [Pass.run, buildConvertedOutputModel, areExtracts]
    rfl
  · intro addr record found
    refine ⟨(convert addr record).1, ?_, ?_⟩
    · apply PyDict.get?_ofPairs
      · simpa [map_map, Function.comp_def] using distinct
      · exact mem_map.2 ⟨(addr, convert addr record),
          (memConverted addr _).2 ⟨record, found, rfl⟩, rfl⟩
    · apply (carried addr record found).1.imp
      intro member
      obtain ⟨other, isOther, passes⟩ := (memPass addr).1 member
      obtain rfl : record = other := Option.some.inj (found.symm.trans isOther)
      exact passes
  · intro addr member
    obtain ⟨record, found, passes⟩ := (memPass addr).1 member
    exact ⟨record, found, (carried addr record found).2 passes⟩

end Converting

theorem built_run (pass : Pass) {model : SheetModel}
    (classified : ∀ addr record, model.cells.get? addr = some record → Classified addr record) :
    ∃ output passThrough, pass.run isAlnum model = .ok (output, passThrough) ∧
      Built model output passThrough := by
  cases pass with
  | preserve => exact built_preserve classified
  | convert translator vectorize => exact built_convert classified

section Enriching

variable {formatAt : Position → Option ℤ} {enrichAll : Bool} {model : SheetModel} {addr : Text}

theorem get?_enrichNumberFormats {record : CellRecord}
    (found : model.cells.get? addr = some record) :
    ∃ fmt, (enrichNumberFormats formatAt enrichAll model).cells.get? addr =
      some { record with numberFormat := fmt } := by
  rw [enrichNumberFormats, get?_mapEntries, found, Option.map_some]
  split
  · exact ⟨record.numberFormat, rfl⟩
  · cases (parseAddress addr).bind formatAt with
    | none => exact ⟨record.numberFormat, rfl⟩
    | some fmt => exact ⟨some fmt, rfl⟩

theorem exists_of_get?_enrichNumberFormats
    (found : (enrichNumberFormats formatAt enrichAll model).cells.get? addr = some record) :
    ∃ plain fmt, model.cells.get? addr = some plain ∧
      record = { plain with numberFormat := fmt } := by
  have known := found
  rw [enrichNumberFormats, get?_mapEntries, Option.map_eq_some_iff] at known
  obtain ⟨plain, isPlain, _⟩ := known
  obtain ⟨fmt, isEnriched⟩ :=
    @get?_enrichNumberFormats formatAt enrichAll model addr plain isPlain
  exact ⟨plain, fmt, isPlain, Option.some.inj (found.symm.trans isEnriched)⟩

end Enriching

def CellValue.content : CellValue → CellContent
  | .number x => .value x.1
  | .text s => .text s

/-- The sheet, or `float`, takes a text for a text. -/
def ReadsAsText (s : Text) : Prop :=
  if s.head? = some '=' ∨ s.head? = some '\x7b' then api.setFormula s = .text s
  else readFloat s = none

theorem head_floatText {x : Binary64} (double : x.IsDouble) :
    ∃ c rest, floatText x = c :: rest ∧ c ≠ '=' ∧ c ≠ '\x7b' := by
  cases x with
  | nan => exact ⟨'n', "an".toList, rfl, by decide, by decide⟩
  | infinite negative =>
    cases negative with
    | true => exact ⟨'-', "inf".toList, rfl, by decide, by decide⟩
    | false => exact ⟨'i', "nf".toList, rfl, by decide, by decide⟩
  | finite q =>
    rw [floatText]
    split
    · exact ⟨'-', _, rfl, by decide, by decide⟩
    · rename_i nonnegative
      obtain ⟨number, isText, _⟩ := Binary64.repr_number (not_lt.1 nonnegative) double
      obtain ⟨⟨c, rest, starts, digit⟩, _⟩ := number_chars number
      refine ⟨c, rest, isText ▸ starts, ?_, ?_⟩
      · rintro rfl
        cases digit
      · rintro rfl
        cases digit

theorem entryContent_number (x : {x : Binary64 // x.IsDouble}) :
    entryContent api (valueText (.number x)) = .value x.1 := by
  obtain ⟨c, rest, isText, noEquals, noBrace⟩ := head_floatText x.2
  have read := readFloat_floatText x.2
  rw [valueText, isText] at *
  rw [entryContent, if_neg (by simp [noEquals, noBrace]), if_neg (cons_ne_nil _ _), read]

theorem entryContent_text_iff {s : Text} (nonempty : s ≠ []) :
    entryContent api (valueText (.text s)) = .text s ↔ ReadsAsText api s := by
  rw [valueText, entryContent, ReadsAsText]
  split
  · rfl
  · cases readFloat s with
    | none | some => simp

def CellContent.formulaText : CellContent → Text
  | .empty => []
  | .value x => floatText x
  | .text s => s
  | .formula s => s

/-- Constants and empty cells are as they were, and a formula that passes through
has its text. -/
structure KeepsCell (record : CellRecord) (passesThrough : Prop) (content : CellContent) :
    Prop where
  constant : record.type = .constant → ∃ value, record.value = some value ∧ content = value.content
  empty : record.type = .empty → content = .empty
  formula : passesThrough → ∃ formula, record.formula = some formula ∧ content.formulaText = formula

def KeepsAll (model : SheetModel) (passThrough : List Text) (sheet : TargetSheet) : Prop :=
  ∀ col row record, model.cells.get? (formatAddress col row) = some record →
    KeepsCell record (formatAddress col row ∈ passThrough) (sheet (col, row)).content

theorem keepsCell_iff {passesThrough : Prop} (classified : Classified addr record)
    (carried : Carried record passesThrough oc)
    (reenters : ∀ formula, record.formula = some formula →
      (api.setFormula formula).formulaText = formula) :
    KeepsCell record passesThrough (entryContent api (entryText oc)) ↔
      (record.type = .constant → ∀ s, record.value = some (.text s) → ReadsAsText api s) := by
  have constantEntry : record.type = .constant → ∀ value, record.value = some value →
      entryText oc = valueText value := by
    intro isConstant value isValue
    obtain ⟨sameValue, noFormula⟩ := carried.constant isConstant
    rw [entryText, noFormula, sameValue, isValue]
  constructor
  · intro keeps isConstant s isText
    obtain ⟨_, value, isValue, nonempty⟩ := classified.constant isConstant
    obtain rfl : value = .text s := Option.some.inj (isValue.symm.trans isText)
    obtain ⟨kept, isKept, content⟩ := keeps.constant isConstant
    obtain rfl : kept = .text s := Option.some.inj (isKept.symm.trans isText)
    rw [constantEntry isConstant _ isText] at content
    exact (entryContent_text_iff api fun none => nonempty (by rw [none])).1 content
  · intro reads
    refine ⟨?_, ?_, ?_⟩
    · intro isConstant
      obtain ⟨_, value, isValue, nonempty⟩ := classified.constant isConstant
      refine ⟨value, isValue, ?_⟩
      rw [constantEntry isConstant value isValue]
      cases value with
      | number x => exact entryContent_number api x
      | text s =>
        exact (entryContent_text_iff api fun none => nonempty (by rw [none])).2
          (reads isConstant s isValue)
    · intro isEmpty
      obtain ⟨noValue, noFormula⟩ := carried.empty isEmpty
      rw [entryText, noFormula, noValue]
      simp [entryContent]
    · intro passes
      obtain ⟨c, rest, isFormula, isEntry, opens⟩ := carried.formula passes
      refine ⟨c :: rest, isFormula, ?_⟩
      rw [entryText, isEntry]
      rw [entryContent, if_pos (by simpa using opens)]
      exact reenters _ isFormula

theorem parseRangeString_formatUsedRange (startCol startRow endCol endRow : ℕ) :
    parseRangeString (formatUsedRange startCol startRow endCol endRow) =
      some ((startCol, startRow), (endCol, endRow)) := by
  rw [formatUsedRange.eq_def]
  dsimp only
  split
  · rename_i same
    obtain ⟨rfl, rfl⟩ := Prod.mk.inj (formatAddress_injective same)
    exact parseRangeString_cell _ _
  · exact parseRangeString_corners _ _ _ _

structure IsGrid (model : SheetModel) (start stop : Position) : Prop where
  usedRange : parseRangeString model.usedRange = some (start, stop)
  has : ∀ p, InRange start stop p → ∃ record, model.cells.get? (formatAddress p.1 p.2) = some record
  inside : ∀ addr record, model.cells.get? addr = some record →
    ∃ p, InRange start stop p ∧ addr = formatAddress p.1 p.2
  classified : ∀ addr record, model.cells.get? addr = some record → Classified addr record

theorem isGrid_ingested {width startCol startRow : ℕ} {dataArray : List (List (Option CellValue))}
    {formulaArray : List (List Text)} (range : IsRange width dataArray formulaArray)
    {base : SheetModel}
    (ingested : ingestFromArrays sheetName startCol startRow dataArray formulaArray = .ok base) :
    IsGrid base (startCol, startRow) (startCol + width - 1, startRow + dataArray.length - 1) := by
  rw [ingestFromArrays_eq range] at ingested
  obtain ⟨cells, usedRange⟩ := attachGraphToModel_frame
    ⟨sheetName, formatUsedRange startCol startRow (startCol + width - 1)
      (startRow + dataArray.length - 1),
      ingestedCells startCol startRow dataArray formulaArray, [], []⟩
  rw [Except.ok.inj ingested] at cells usedRange
  have someColumn := range.some_column
  have someRow := length_pos_iff.2 range.some_row
  have mem : ∀ addr, (∃ record,
      (ingestedCells startCol startRow dataArray formulaArray).get? addr = some record) ↔
      ∃ col row, startCol ≤ col ∧ col < startCol + width ∧ startRow ≤ row ∧
        row < startRow + dataArray.length ∧ addr = formatAddress col row := by
    intro addr
    rw [← PyDict.mem_keys_iff, ingestedCells_keys range, mem_rangeAddresses]
  refine ⟨usedRange ▸ parseRangeString_formatUsedRange _ _ _ _, ?_, ?_, ?_⟩
  · rw [cells]
    rintro ⟨col, row⟩ ⟨left, right, top, bottom⟩
    exact (mem _).2 ⟨col, row, left, by omega, top, by omega, rfl⟩
  · rw [cells]
    intro addr record found
    obtain ⟨col, row, left, right, top, bottom, same⟩ := (mem addr).1 ⟨record, found⟩
    have lastColumn : col ≤ startCol + width - 1 := by omega
    have lastRow : row ≤ startRow + dataArray.length - 1 := by omega
    exact ⟨(col, row), ⟨left, lastColumn, top, lastRow⟩, same⟩
  · rw [cells]
    exact fun addr record => ingestedCells_classified range

theorem IsGrid.enrichNumberFormats (grid : IsGrid model start stop)
    (formatAt : Position → Option ℤ) (enrichAll : Bool) :
    IsGrid (enrichNumberFormats formatAt enrichAll model) start stop := by
  refine ⟨grid.usedRange, ?_, ?_, ?_⟩
  · intro p inRange
    obtain ⟨record, found⟩ := grid.has p inRange
    obtain ⟨fmt, isEnriched⟩ := get?_enrichNumberFormats found
    exact ⟨_, isEnriched⟩
  · intro addr record found
    obtain ⟨plain, _, isPlain, _⟩ := exists_of_get?_enrichNumberFormats found
    exact grid.inside addr plain isPlain
  · intro addr record found
    obtain ⟨plain, fmt, isPlain, rfl⟩ := exists_of_get?_enrichNumberFormats found
    have classified := grid.classified addr plain isPlain
    exact ⟨classified.address, classified.constant, classified.empty, classified.formula⟩

theorem keepsAll_enrichNumberFormats {formatAt : Position → Option ℤ} {enrichAll : Bool}
    {sheet : TargetSheet} :
    KeepsAll (enrichNumberFormats formatAt enrichAll model) passThrough sheet ↔
      KeepsAll model passThrough sheet := by
  constructor
  · intro keeps col row record found
    obtain ⟨fmt, isEnriched⟩ := get?_enrichNumberFormats found
    have kept := keeps col row _ isEnriched
    exact ⟨kept.constant, kept.empty, kept.formula⟩
  · intro keeps col row record found
    obtain ⟨plain, fmt, isPlain, rfl⟩ := exists_of_get?_enrichNumberFormats found
    have kept := keeps col row plain isPlain
    exact ⟨kept.constant, kept.empty, kept.formula⟩

theorem IsGrid.keepsAll_iff (grid : IsGrid model start stop)
    (reenters : ∀ addr record formula, model.cells.get? addr = some record →
      record.formula = some formula → (api.setFormula formula).formulaText = formula)
    (built : Built model output passThrough) (targetSheet : TargetSheet) :
    ∃ sheet, applyOutputToSheet api targetSheet output = .ok sheet ∧
      (KeepsAll model passThrough sheet ↔
        ∀ addr record s, model.cells.get? addr = some record → record.type = .constant →
          record.value = some (.text s) → ReadsAsText api s) := by
  let cellAt := fun p : Position =>
    (output.cells.get? (formatAddress p.1 p.2)).getD ⟨[], none, none, none⟩
  have isCell : ∀ {addr record oc}, model.cells.get? addr = some record →
      output.cells.get? addr = some oc → Carried record (addr ∈ passThrough) oc := by
    intro addr record oc found isOutput
    obtain ⟨other, isOther, carried⟩ := built.cells addr record found
    obtain rfl : oc = other := Option.some.inj (isOutput.symm.trans isOther)
    exact carried
  have has : ∀ p, InRange start stop p →
      output.cells.get? (formatAddress p.1 p.2) = some (cellAt p) := by
    intro p inRange
    obtain ⟨record, found⟩ := grid.has p inRange
    obtain ⟨oc, isOutput, _⟩ := built.cells _ record found
    simp only [cellAt, isOutput, Option.getD_some]
  obtain ⟨sheet, applied, contents⟩ := applyOutputToSheet_ok api
    (built.usedRange ▸ grid.usedRange) built.arrayFormulas has targetSheet
  have atCell : ∀ {p record}, InRange start stop p →
      model.cells.get? (formatAddress p.1 p.2) = some record →
      (KeepsCell record (formatAddress p.1 p.2 ∈ passThrough) (sheet p).content ↔
        (record.type = .constant → ∀ s, record.value = some (.text s) → ReadsAsText api s)) := by
    intro p record inRange found
    rw [contents p inRange]
    exact keepsCell_iff api (grid.classified _ record found) (isCell found (has p inRange))
      (fun formula => reenters _ record formula found)
  refine ⟨sheet, applied, ?_, ?_⟩
  · intro keeps addr record s found isConstant isText
    obtain ⟨p, inRange, rfl⟩ := grid.inside addr record found
    exact (atCell inRange found).1 (keeps p.1 p.2 record found) isConstant s isText
  · intro reads col row record found
    obtain ⟨p, inRange, same⟩ := grid.inside _ record found
    obtain rfl : (col, row) = p := formatAddress_injective same
    exact (atCell inRange found).2 fun isConstant s isText =>
      reads _ record s found isConstant isText

theorem isDouble_threeHalves : (Binary64.finite (3 / 2)).IsDouble := by
  change Binary64.ofRat (3 / 2) = .finite (3 / 2)
  decide +kernel

end WriterAgent.Calc.SpreadsheetImport
