import WriterAgent.Calc.SpreadsheetImport.Ingest
import WriterAgent.Foundations.TextScan

/-!
# Vector columns

Formulas down a column are one formula if they are the same in relative R1C1
notation.  The notation is written by one pattern over the formula text.
-/

namespace WriterAgent.Calc.SpreadsheetImport

open PyText List

/-- A letter of `[A-Z]` under `re.IGNORECASE`. -/
def isFoldedLetter (c : Char) : Bool := isAsciiLower (foldCase c)

/-- A character that `_A1_REF_RE` does not start behind. -/
def isRefChar (c : Char) : Bool := isFoldedLetter c || isAsciiDigit c || c == '_'

/-- A match of `_A1_REF_RE`. -/
structure A1Match where
  colAbs : Bool
  colStr : Text
  rowAbs : Bool
  rowStr : Text
deriving DecidableEq, Repr

def A1Match.text (found : A1Match) : Text :=
  (if found.colAbs then ['$'] else []) ++ found.colStr ++
    (if found.rowAbs then ['$'] else []) ++ found.rowStr

/-- The digits of a match: one fewer if a parenthesis opens behind them. -/
def rowDigits (s : Text) : Text :=
  let digits := s.takeWhile isAsciiDigit
  if (s.dropWhile isAsciiDigit).head? = some '(' then digits.dropLast else digits

/-- `_A1_REF_RE` at a place. -/
def matchA1 (before : Option Char) (s : Text) : Option A1Match :=
  let colAbs := s.head? == some '$'
  let start := if colAbs then s.drop 1 else s
  let colStr := start.takeWhile isFoldedLetter
  let after := start.dropWhile isFoldedLetter
  let rowAbs := after.head? == some '$'
  let rowStr := rowDigits (if rowAbs then after.drop 1 else after)
  if before.any isRefChar || colStr.isEmpty || rowStr.isEmpty then none
  else some ⟨colAbs, colStr, rowAbs, rowStr⟩

def intText (n : ℤ) : Text := (toString n).toList

def replaceRef (cellCol cellRow : ℕ) (found : A1Match) : Text :=
  let targetCol : ℤ := columnToIndex (upper found.colStr)
  let targetRow : ℤ := digitsValue found.rowStr - 1
  let rPart :=
    if found.rowAbs then 'R' :: intText (targetRow + 1)
    else "R[".toList ++ intText (targetRow - cellRow) ++ "]".toList
  let cPart :=
    if found.colAbs then 'C' :: intText (targetCol + 1)
    else "C[".toList ++ intText (targetCol - cellCol) ++ "]".toList
  rPart ++ cPart

/-- What `_A1_REF_RE.sub` puts for a match. -/
def findRef (cellCol cellRow : ℕ) (before : Option Char) (s : Text) : Option (ℕ × Text) :=
  (matchA1 before s).map fun found =>
    (found.text.length, replaceRef cellCol cellRow found)

def toR1c1 (formula cellAddr : Text) : Text :=
  match parseAddress cellAddr with
  | none => formula
  | some (cellCol, cellRow) => substitute (findRef cellCol cellRow) none 0 formula

/-- The addresses with their formulas that take part, column by column. -/
def columnCells (model : SheetModel) : PyDict ℕ (List (Text × Text × ℕ)) :=
  model.cells.entries.foldl (fun columns (addr, record) =>
      match record.type, record.formula, parseAddress addr with
      | .formula, some (c :: rest), some (col, row) =>
        columns.set col ((columns.get? col).getD [] ++ [(addr, c :: rest, row)])
      | .error, some (c :: rest), some (col, row) =>
        columns.set col ((columns.get? col).getD [] ++ [(addr, c :: rest, row)])
      | _, _, _ => columns)
    PyDict.empty

/-- The run that is open, its notation and last row, and the groups closed. -/
structure RunState where
  currentGroup : List Text
  currentR1c1 : Option Text
  lastRow : Option ℕ
  groups : PyDict Text (List Text)

def closeRun (groups : PyDict Text (List Text)) (group : List Text) : PyDict Text (List Text) :=
  match group with
  | first :: second :: rest => groups.set first (first :: second :: rest)
  | _ => groups

def runStep (state : RunState) (cell : Text × Text × ℕ) : RunState :=
  let (addr, formula, row) := cell
  let r1c1 := toR1c1 formula addr
  match state.currentR1c1, state.lastRow with
  | none, _ => ⟨[addr], some r1c1, some row, state.groups⟩
  | some current, some last =>
    if r1c1 = current ∧ row = last + 1 then
      { state with currentGroup := state.currentGroup ++ [addr], lastRow := some row }
    else ⟨[addr], some r1c1, some row, closeRun state.groups state.currentGroup⟩
  | some _, none => ⟨[addr], some r1c1, some row, closeRun state.groups state.currentGroup⟩

def columnGroups (groups : PyDict Text (List Text)) (cells : List (Text × Text × ℕ)) :
    PyDict Text (List Text) :=
  let sorted := cells.insertionSort fun a b => a.2.2 ≤ b.2.2
  let final := sorted.foldl runStep ⟨[], none, none, groups⟩
  closeRun final.groups final.currentGroup

def detectVectorizedColumns (model : SheetModel) : PyDict Text (List Text) :=
  (columnCells model).entries.foldl (fun groups column => columnGroups groups column.2) PyDict.empty

def participant (entry : Text × CellRecord) : Option (ℕ × Text × Text × ℕ) :=
  if entry.2.type = .formula ∨ entry.2.type = .error then
    match entry.2.formula, parseAddress entry.1 with
    | some (c :: rest), some (col, row) => some (col, entry.1, c :: rest, row)
    | _, _ => none
  else none

def addCell (columns : PyDict ℕ (List (Text × Text × ℕ))) (cell : ℕ × Text × Text × ℕ) :
    PyDict ℕ (List (Text × Text × ℕ)) :=
  columns.set cell.1 ((columns.get? cell.1).getD [] ++ [cell.2])

theorem columnCells_eq (model : SheetModel) : columnCells model =
      (model.cells.entries.filterMap participant).foldl addCell PyDict.empty := by
  rw [columnCells, foldl_filterMap]
  congr 1
  funext columns entry
  obtain ⟨addr, record⟩ := entry
  rw [participant]
  dsimp only
  generalize record.type = type
  generalize record.formula = formula
  generalize parseAddress addr = parsed
  rcases formula with _ | _ | ⟨c, rest⟩
  · cases type <;> simp
  · cases type <;> simp
  · rcases parsed with _ | ⟨col, row⟩
    · cases type <;> simp
    · cases type <;> simp [addCell]

theorem get?_addCell (columns : PyDict ℕ (List (Text × Text × ℕ)))
    (cell : ℕ × Text × Text × ℕ) (col : ℕ) :
    ((addCell columns cell).get? col).getD [] =
      (columns.get? col).getD [] ++ (if cell.1 = col then [cell.2] else []) := by
  rw [addCell]
  by_cases same : cell.1 = col
  · subst same
    simp
  · simp [same, Ne.symm same]

theorem get?_columnCells (model : SheetModel) (col : ℕ) : ((columnCells model).get? col).getD [] =
      ((model.cells.entries.filterMap participant).filter fun cell => cell.1 = col).map
        Prod.snd := by
  have run : ∀ (cells : List (ℕ × Text × Text × ℕ)) (columns : PyDict ℕ _),
      ((cells.foldl addCell columns).get? col).getD [] =
        (columns.get? col).getD [] ++ (cells.filter fun cell => cell.1 = col).map Prod.snd := by
    intro cells
    induction cells with
    | nil => simp
    | cons cell rest induction =>
      intro columns
      rw [foldl_cons, induction, get?_addCell]
      by_cases same : cell.1 = col <;> simp [same]
  rw [columnCells_eq, run]
  rfl

variable {addr formula : Text} {groups : PyDict Text (List Text)}

theorem participant_eq_some {entry : Text × CellRecord} {col row : ℕ}
    (takesPart : participant entry = some (col, addr, formula, row)) :
    (entry.2.type = .formula ∨ entry.2.type = .error) ∧ entry.2.formula = some formula ∧
      formula ≠ [] ∧ addr = entry.1 ∧ parseAddress addr = some (col, row) := by
  rw [participant] at takesPart
  split_ifs at takesPart with isType
  split at takesPart
  · rename_i c rest col' row' isFormula parsed
    obtain ⟨rfl, rfl, rfl, rfl⟩ : col' = col ∧ entry.1 = addr ∧ c :: rest = formula ∧
        row' = row := by simpa using takesPart
    exact ⟨isType, isFormula, cons_ne_nil _ _, rfl, parsed⟩
  · cases takesPart

theorem mem_columnCells {model : SheetModel} {col row : ℕ} {cells : List (Text × Text × ℕ)}
    (found : (columnCells model).get? col = some cells) (member : (addr, formula, row) ∈ cells) :
    ∃ record, model.cells.get? addr = some record ∧
      (record.type = .formula ∨ record.type = .error) ∧ record.formula = some formula ∧
      formula ≠ [] ∧ parseAddress addr = some (col, row) := by
  have column := get?_columnCells model col
  rw [found, Option.getD_some] at column
  rw [column, mem_map] at member
  obtain ⟨⟨col', cell⟩, inColumn, rfl⟩ := member
  obtain ⟨inSheet, isColumn⟩ := mem_filter.1 inColumn
  obtain rfl : col' = col := of_decide_eq_true isColumn
  obtain ⟨⟨key, record⟩, inEntries, takesPart⟩ := mem_filterMap.1 inSheet
  obtain ⟨isType, isFormula, nonempty, rfl, parsed⟩ := participant_eq_some takesPart
  exact ⟨record, PyDict.get?_eq_some_iff.2 inEntries, isType, isFormula, nonempty, parsed⟩

def GroupsIn (such : Text → Prop) (groups : PyDict Text (List Text)) : Prop :=
  ∀ first group, groups.get? first = some group → ∀ addr ∈ group, such addr

variable {such : Text → Prop}

theorem GroupsIn.closeRun {group : List Text} (groupsIn : GroupsIn such groups)
    (members : ∀ addr ∈ group, such addr) : GroupsIn such (closeRun groups group) := by
  rw [SpreadsheetImport.closeRun.eq_def]
  split
  · rename_i first second rest
    intro key found isFound addr member
    rw [PyDict.get?_set] at isFound
    split at isFound
    · obtain rfl := Option.some.inj isFound
      exact members addr member
    · exact groupsIn key found isFound addr member
  · exact groupsIn

theorem GroupsIn.runStep {state : RunState} {cell : Text × Text × ℕ}
    (groupsIn : GroupsIn such state.groups) (members : ∀ addr ∈ state.currentGroup, such addr)
    (isSuch : such cell.1) :
    GroupsIn such (runStep state cell).groups ∧
      ∀ addr ∈ (runStep state cell).currentGroup, such addr := by
  have alone : ∀ addr ∈ [cell.1], such addr := by
    intro addr member
    rwa [mem_singleton.1 member]
  rw [SpreadsheetImport.runStep.eq_def]
  dsimp only
  split
  · exact ⟨groupsIn, alone⟩
  · split
    · refine ⟨groupsIn, ?_⟩
      intro addr member
      rcases mem_append.1 member with old | new
      · exact members addr old
      · exact alone addr new
    · exact ⟨groupsIn.closeRun members, alone⟩
  · exact ⟨groupsIn.closeRun members, alone⟩

theorem GroupsIn.columnGroups {cells : List (Text × Text × ℕ)} (groupsIn : GroupsIn such groups)
    (all : ∀ cell ∈ cells, such cell.1) : GroupsIn such (columnGroups groups cells) := by
  have run : ∀ (sorted : List (Text × Text × ℕ)) (state : RunState),
      GroupsIn such state.groups → (∀ addr ∈ state.currentGroup, such addr) →
      (∀ cell ∈ sorted, such cell.1) →
      GroupsIn such (sorted.foldl SpreadsheetImport.runStep state).groups ∧
        ∀ addr ∈ (sorted.foldl SpreadsheetImport.runStep state).currentGroup, such addr := by
    intro sorted
    induction sorted with
    | nil => exact fun state groups members _ => ⟨groups, members⟩
    | cons cell rest induction =>
      intro state groups members such'
      obtain ⟨groups', members'⟩ := groups.runStep members (such' cell mem_cons_self)
      exact induction _ groups' members' fun other member =>
        such' other (mem_cons_of_mem _ member)
  obtain ⟨groups', members⟩ := run (cells.insertionSort fun a b => a.2.2 ≤ b.2.2)
    ⟨[], none, none, groups⟩ groupsIn (fun addr member => absurd member not_mem_nil)
    (fun cell member => all cell ((mem_insertionSort _).1 member))
  exact groups'.closeRun members

theorem groupsIn_detectVectorizedColumns (model : SheetModel) :
    GroupsIn (fun addr => ∃ record, model.cells.get? addr = some record ∧
      (record.type = .formula ∨ record.type = .error)) (detectVectorizedColumns model) := by
  have run : ∀ (columns : List (ℕ × List (Text × Text × ℕ))) (groups : PyDict Text (List Text)),
      GroupsIn (fun addr => ∃ record, model.cells.get? addr = some record ∧
        (record.type = .formula ∨ record.type = .error)) groups →
      (∀ column ∈ columns, (columnCells model).get? column.1 = some column.2) →
      GroupsIn (fun addr => ∃ record, model.cells.get? addr = some record ∧
        (record.type = .formula ∨ record.type = .error))
        (columns.foldl (fun groups column => columnGroups groups column.2) groups) := by
    intro columns
    induction columns with
    | nil => exact fun groups groupsIn _ => groupsIn
    | cons column rest induction =>
      intro groups groupsIn found
      apply induction _ _ fun other member => found other (mem_cons_of_mem _ member)
      apply groupsIn.columnGroups
      rintro ⟨addr, formula, row⟩ member
      obtain ⟨record, isRecord, isType, _⟩ :=
        mem_columnCells (found column mem_cons_self) member
      exact ⟨record, isRecord, isType⟩
  apply run
  · intro first group found
    cases found
  · intro column member
    exact PyDict.get?_eq_some_iff.2 member

end WriterAgent.Calc.SpreadsheetImport
