import Mathlib.Data.List.SplitBy
import WriterAgent.Calc.SpreadsheetImport.Vectorize

/-!
# What a vector group has to be

A group is to be a run of cells down a column whose formulas are one formula,
with the relative rows of its references moved along.
-/

namespace WriterAgent.Calc.SpreadsheetImport

open PyText List

/-- A formula is a row of references and of single characters around them. -/
inductive FormulaPiece where
  | char (c : Char)
  | ref (colAbs : Bool) (col : ℕ) (rowAbs : Bool) (row : ℕ)
deriving DecidableEq, Repr

/-- The same piece `k` rows below. -/
def FormulaPiece.shift (k : ℕ) : FormulaPiece → FormulaPiece
  | .ref colAbs col false row => .ref colAbs col false (row + k)
  | piece => piece

/-- A character of names and numbers. -/
def isWordChar (c : Char) : Bool := isRefChar c || 127 < c.toNat

/-- A cell reference at a place outside of the literals: columns and rows of a
sheet, and neither part of a word nor a sheet's or a function's name. -/
def referenceAt (before : Option Char) (s : Text) : Option A1Match :=
  (matchA1 before s).filter fun found =>
    !before.any isWordChar &&
      !(s.drop found.text.length).head?.any (fun c => isWordChar c || c == '.' || c == '(') &&
      columnToIndex (upper found.colStr) < 16384 &&
      0 < digitsValue found.rowStr && digitsValue found.rowStr ≤ 1048576

/-- Reads a text piece by piece: the quote that is open, the character before
the place, and how much of a reference is still to pass. -/
def readPieces : Option Char → Option Char → ℕ → Text → List FormulaPiece
  | _, _, _, [] => []
  | quote, _, skip + 1, c :: rest => readPieces quote (some c) skip rest
  | some quote, _, 0, c :: rest =>
    .char c :: readPieces (if c = quote then none else some quote) (some c) 0 rest
  | none, before, 0, c :: rest =>
    if c = '"' ∨ c = '\'' then .char c :: readPieces (some c) (some c) 0 rest
    else
      match referenceAt before (c :: rest) with
      | some found =>
        .ref found.colAbs (columnToIndex (upper found.colStr)) found.rowAbs
            (digitsValue found.rowStr) ::
          readPieces none (some c) (found.text.length - 1) rest
      | none => .char c :: readPieces none (some c) 0 rest

def formulaPieces (formula : Text) : List FormulaPiece := readPieces none none 0 formula

/-- The second formula is the first one with each relative row moved by `k`, and
nothing else changed. -/
def ShiftedBy (k : ℕ) (first second : Text) : Prop :=
  formulaPieces second = (formulaPieces first).map (FormulaPiece.shift k)

instance (k : ℕ) (first second : Text) : Decidable (ShiftedBy k first second) :=
  inferInstanceAs (Decidable (_ = _))

/-- The formula cell at an address, with its column and row. -/
def FormulaCell (model : SheetModel) (addr formula : Text) (col row : ℕ) : Prop :=
  ∃ record, model.cells.get? addr = some record ∧
    participant (addr, record) = some (col, addr, formula, row)

/-- Groups are disjoint runs of at least two formula cells down a column, the
formulas of a group are one formula moved along, and neighbours whose formulas
are one are in one group. -/
structure VectorGrouping (model : SheetModel) (groups : PyDict Text (List Text)) : Prop where
  runs : ∀ first group, groups.get? first = some group →
    group.head? = some first ∧ 2 ≤ group.length ∧ ∃ col row, ∀ i addr, group[i]? = some addr →
        ∃ formula, FormulaCell model addr formula col (row + i)
  disjoint : ∀ first group other group', groups.get? first = some group →
    groups.get? other = some group' → first ≠ other → group.Disjoint group'
  sound : ∀ first group i addr formula formula' col row col' row',
    groups.get? first = some group → group[i]? = some addr →
      FormulaCell model first formula col row → FormulaCell model addr formula' col' row' →
        ShiftedBy i formula formula'
  maximal : ∀ upper lower formula formula' col row,
    FormulaCell model upper formula col row → FormulaCell model lower formula' col (row + 1) →
      ShiftedBy 1 formula formula' →
        ∃ first group, groups.get? first = some group ∧ upper ∈ group ∧ lower ∈ group

/-- For every two neighbours down a column the notation is the same exactly if
the formulas are one formula. -/
def NotationTells (model : SheetModel) : Prop :=
  ∀ upper lower formula formula' col row,
    FormulaCell model upper formula col row → FormulaCell model lower formula' col (row + 1) →
      (toR1c1 formula upper = toR1c1 formula' lower ↔ ShiftedBy 1 formula formula')

def OneAddress (model : SheetModel) : Prop :=
  ∀ addr ∈ model.cells.keys, ∀ other ∈ model.cells.keys,
    parseAddress addr ≠ none → parseAddress addr = parseAddress other → addr = other

instance (model : SheetModel) : Decidable (OneAddress model) :=
  inferInstanceAs (Decidable (∀ addr ∈ _, ∀ other ∈ _, _ → _ → _))

theorem FormulaPiece.shift_shift (i k : ℕ) (piece : FormulaPiece) :
    (piece.shift i).shift k = piece.shift (i + k) := by
  cases piece with
  | char c => rfl
  | ref colAbs col rowAbs row =>
    cases rowAbs with
    | true => rfl
    | false => simp [shift, Nat.add_assoc]

variable {model : SheetModel} {first formula addr formula' second third : Text} {group : List Text}

theorem ShiftedBy.refl (formula : Text) : ShiftedBy 0 formula formula := by
  have fixed : ∀ piece : FormulaPiece, piece.shift 0 = piece := by
    intro piece
    cases piece with
    | char c => rfl
    | ref colAbs col rowAbs row => cases rowAbs <;> rfl
  rw [ShiftedBy, map_congr_left fun piece _ => fixed piece, map_id']

theorem ShiftedBy.trans {i k : ℕ} (early : ShiftedBy i first second)
    (late : ShiftedBy k second third) : ShiftedBy (i + k) first third := by
  rw [ShiftedBy, late, early, map_map]
  exact map_congr_left fun piece _ => piece.shift_shift i k

theorem ShiftedBy.between {i k : ℕ} (early : ShiftedBy i first second)
    (late : ShiftedBy (i + k) first third) : ShiftedBy k second third := by
  rw [ShiftedBy, late, early, map_map]
  exact map_congr_left fun piece _ => (piece.shift_shift i k).symm

theorem FormulaCell.unique {col row col' row' : ℕ} (cell : FormulaCell model addr formula col row)
    (other : FormulaCell model addr formula' col' row') :
    formula = formula' ∧ col = col' ∧ row = row' := by
  obtain ⟨record, found, takesPart⟩ := cell
  obtain ⟨record', found', takesPart'⟩ := other
  obtain rfl := Option.some.inj (found.symm.trans found')
  simpa [and_left_comm] using takesPart.symm.trans takesPart'

theorem formulaCell_iff {col row : ℕ} : FormulaCell model addr formula col row ↔
      (addr, formula, row) ∈ ((columnCells model).get? col).getD [] := by
  rw [get?_columnCells, mem_map]
  constructor
  · intro ⟨record, found, takesPart⟩
    refine ⟨(col, addr, formula, row), mem_filter.2 ⟨?_, by simp⟩, rfl⟩
    exact mem_filterMap.2 ⟨_, PyDict.get?_eq_some_iff.1 found, takesPart⟩
  · intro ⟨⟨col', cell⟩, inColumn, same⟩
    obtain rfl : cell = (addr, formula, row) := same
    obtain ⟨inSheet, isColumn⟩ := mem_filter.1 inColumn
    obtain rfl : col' = col := of_decide_eq_true isColumn
    obtain ⟨⟨key, record⟩, inEntries, takesPart⟩ := mem_filterMap.1 inSheet
    obtain rfl : addr = key := (participant_eq_some takesPart).2.2.2.1
    exact ⟨record, PyDict.get?_eq_some_iff.2 inEntries, takesPart⟩

theorem FormulaCell.parses {col row : ℕ} (cell : FormulaCell model addr formula col row) :
    parseAddress addr = some (col, row) := by
  obtain ⟨record, _, takesPart⟩ := cell
  exact (participant_eq_some takesPart).2.2.2.2

theorem FormulaCell.eq_of_place (one : OneAddress model) {addr' : Text} {col row : ℕ}
    (cell : FormulaCell model addr formula col row)
    (other : FormulaCell model addr' formula' col row) : addr = addr' := by
  have isKey : ∀ {addr formula : Text}, FormulaCell model addr formula col row →
      addr ∈ model.cells.keys := by
    intro addr formula ⟨record, found, _⟩
    exact PyDict.mem_keys_iff.2 ⟨record, found⟩
  apply one addr (isKey cell) addr' (isKey other)
  · rw [cell.parses]
    exact Option.some_ne_none _
  · rw [cell.parses, other.parses]

def linked (upper lower : Text × Text × ℕ) : Bool :=
  toR1c1 lower.2.1 lower.1 = toR1c1 upper.2.1 upper.1 ∧ lower.2.2 = upper.2.2 + 1

def sortedColumn (cells : List (Text × Text × ℕ)) : List (Text × Text × ℕ) :=
  cells.insertionSort fun a b => a.2.2 ≤ b.2.2

/-- The runs of the sheet, column by column, also those of a single cell. -/
def vectorRuns (model : SheetModel) : List (List (Text × Text × ℕ)) :=
  (columnCells model).entries.flatMap fun column => (sortedColumn column.2).splitBy linked

/-- The entry that a run makes. -/
def groupEntry : List (Text × Text × ℕ) → Option (Text × List Text)
  | first :: second :: rest => some (first.1, (first :: second :: rest).map Prod.fst)
  | _ => none

theorem groupEntry_eq_some {run : List (Text × Text × ℕ)} : groupEntry run = some (first, group) ↔
      run.map Prod.fst = group ∧ group.head? = some first ∧ 2 ≤ group.length := by
  match run with
  | [] | [cell] => simp [groupEntry]; rintro rfl; simp
  | cell :: second :: rest =>
    simp only [groupEntry, Option.some.injEq, Prod.mk.injEq]
    constructor
    · rintro ⟨rfl, rfl⟩
      simp
    · rintro ⟨rfl, isHead, _⟩
      exact ⟨by simpa using isHead, rfl⟩

theorem closeRun_map (groups : PyDict Text (List Text)) (run : List (Text × Text × ℕ)) :
    closeRun groups (run.map Prod.fst) =
      ([run].filterMap groupEntry).foldl (fun dict entry => dict.set entry.1 entry.2) groups := by
  match run with
  | [] => rfl
  | [cell] => rfl
  | cell :: second :: rest => rfl

theorem columnGroups_eq (groups : PyDict Text (List Text)) (cells : List (Text × Text × ℕ)) :
    columnGroups groups cells = (((sortedColumn cells).splitBy linked).filterMap groupEntry).foldl
        (fun dict entry => dict.set entry.1 entry.2) groups := by
  -- the loop with a run open and the runs before it closed
  have loop : ∀ (rest : List (Text × Text × ℕ)) (last : Text × Text × ℕ)
      (front : List (Text × Text × ℕ)) (before : List (List (Text × Text × ℕ))),
      let final := rest.foldl runStep
        ⟨(last :: front).reverse.map Prod.fst, some (toR1c1 last.2.1 last.1), some last.2.2,
          (before.reverse.filterMap groupEntry).foldl
            (fun dict entry => dict.set entry.1 entry.2) groups⟩
      closeRun final.groups final.currentGroup =
        ((List.splitBy.loop linked rest last front before).filterMap groupEntry).foldl
          (fun dict entry => dict.set entry.1 entry.2) groups := by
    intro rest
    induction rest with
    | nil =>
      intro last front before
      dsimp only [foldl_nil]
      rw [closeRun_map, List.splitBy.loop, reverse_cons (a := (last :: front).reverse),
        filterMap_append, foldl_append]
    | cons cell rest induction =>
      intro last front before
      obtain ⟨addr, formula, row⟩ := cell
      rw [foldl_cons, List.splitBy.loop]
      by_cases goesOn : toR1c1 formula addr = toR1c1 last.2.1 last.1 ∧ row = last.2.2 + 1
      · have isLinked : linked last (addr, formula, row) = true := by simp [linked, goesOn]
        have next := induction (addr, formula, row) (last :: front) before
        simp only [runStep, if_pos goesOn, isLinked]
        rw [reverse_cons, map_append, goesOn.1, goesOn.2] at next
        rw [goesOn.2]
        exact next
      · have notLinked : linked last (addr, formula, row) = false := by simpa [linked] using goesOn
        have next := induction (addr, formula, row) [] ((last :: front).reverse :: before)
        simp only [runStep, if_neg goesOn, notLinked]
        rw [closeRun_map, ← foldl_append, ← filterMap_append, ← reverse_cons]
        exact next
  rw [columnGroups, ← sortedColumn]
  cases sortedColumn cells with
  | nil => rfl
  | cons cell rest => exact loop rest cell [] []

theorem detectVectorizedColumns_eq (model : SheetModel) : detectVectorizedColumns model =
      ((vectorRuns model).filterMap groupEntry).foldl
        (fun dict entry => dict.set entry.1 entry.2) PyDict.empty := by
  have run : ∀ (columns : List (ℕ × List (Text × Text × ℕ))) (groups : PyDict Text (List Text)),
      columns.foldl (fun groups column => columnGroups groups column.2) groups =
        ((columns.flatMap fun column => (sortedColumn column.2).splitBy linked).filterMap
          groupEntry).foldl (fun dict entry => dict.set entry.1 entry.2) groups := by
    intro columns
    induction columns with
    | nil => exact fun _ => rfl
    | cons column rest induction =>
      intro groups
      rw [foldl_cons, induction, columnGroups_eq, flatMap_cons, filterMap_append, foldl_append]
  exact run _ _

theorem formulaCell_of_mem {column : ℕ × List (Text × Text × ℕ)}
    (isColumn : column ∈ (columnCells model).entries) {cell : Text × Text × ℕ}
    (member : cell ∈ sortedColumn column.2) :
    FormulaCell model cell.1 cell.2.1 column.1 cell.2.2 := by
  rw [formulaCell_iff, PyDict.get?_eq_some_iff.2 isColumn]
  exact (mem_insertionSort _).1 member

theorem nodup_column (model : SheetModel) (col : ℕ) :
    ((((columnCells model).get? col).getD []).map Prod.fst).Nodup := by
  have inSheet : ∀ entries : List (Text × CellRecord),
      ((entries.filterMap participant).map fun cell => cell.2.1).Sublist
        (entries.map Prod.fst) := by
    intro entries
    induction entries with
    | nil => exact List.Sublist.refl _
    | cons entry rest induction =>
      cases takesPart : participant entry with
      | none =>
        rw [filterMap_cons_none takesPart]
        exact induction.cons _
      | some cell =>
        rw [filterMap_cons_some takesPart]
        have addr := (participant_eq_some takesPart).2.2.2.1
        rw [map_cons, addr]
        exact induction.cons_cons _
  rw [get?_columnCells, map_map]
  exact model.cells.distinct.sublist ((filter_sublist.map _).trans (inSheet _))

theorem nodup_vectorRuns (model : SheetModel) :
    ((vectorRuns model).flatten.map Prod.fst).Nodup := by
  have flat : ∀ columns : List (ℕ × List (Text × Text × ℕ)),
      (columns.flatMap fun column => (sortedColumn column.2).splitBy linked).flatten =
        columns.flatMap fun column => sortedColumn column.2 := by
    intro columns
    induction columns with
    | nil => rfl
    | cons column rest induction =>
      rw [flatMap_cons, flatten_append, flatten_splitBy, induction, flatMap_cons]
  rw [vectorRuns, flat, map_flatMap, nodup_flatMap]
  constructor
  · intro column member
    have nodup := nodup_column model column.1
    rw [PyDict.get?_eq_some_iff.2 member] at nodup
    exact ((perm_insertionSort _ _).map Prod.fst).nodup_iff.2 nodup
  · apply (pairwise_map.1 (columnCells model).distinct).imp_of_mem
    intro column other isColumn isOther different addr inColumn inOther
    obtain ⟨cell, isCell, rfl⟩ := mem_map.1 inColumn
    obtain ⟨cell', isCell', same⟩ := mem_map.1 inOther
    have here := formulaCell_of_mem isColumn isCell
    have there := formulaCell_of_mem isOther isCell'
    rw [same] at there
    exact different (here.unique there).2.1

theorem get?_detectVectorizedColumns :
    (detectVectorizedColumns model).get? first = some group ↔ ∃ run ∈ vectorRuns model,
        run.map Prod.fst = group ∧ group.head? = some first ∧ 2 ≤ group.length := by
  have heads : ∀ runs : List (List (Text × Text × ℕ)),
      ((runs.filterMap groupEntry).map Prod.fst).Sublist (runs.flatten.map Prod.fst) := by
    intro runs
    induction runs with
    | nil => exact List.Sublist.refl _
    | cons run rest induction =>
      rw [flatten_cons, map_append]
      match run with
      | [] => exact induction
      | [cell] => exact induction.cons _
      | cell :: second :: more => exact (induction.trans (sublist_append_right _ _)).cons_cons _
  have entries := @PyDict.foldl_set_entries Text (List Text) _
    ((vectorRuns model).filterMap groupEntry) PyDict.empty
    ((nodup_vectorRuns model).sublist (heads _))
  rw [detectVectorizedColumns_eq, PyDict.get?_eq_some_iff, entries]
  simp only [PyDict.empty, nil_append, mem_filterMap, groupEntry_eq_some]

theorem mem_vectorRuns {run : List (Text × Text × ℕ)} (member : run ∈ vectorRuns model) :
    (run.IsChain fun upper lower => linked upper lower = true) ∧
      ∃ col, ∀ cell ∈ run, FormulaCell model cell.1 cell.2.1 col cell.2.2 := by
  obtain ⟨column, isColumn, isRun⟩ := mem_flatMap.1 member
  refine ⟨isChain_of_mem_splitBy isRun, column.1, ?_⟩
  intro cell inRun
  apply formulaCell_of_mem isColumn
  rw [← flatten_splitBy linked (sortedColumn column.2)]
  exact mem_flatten_of_mem isRun inRun

/-- A relation that links carry over holds between the first cell of a run and
each of its cells. -/
theorem run_induction {holds : ℕ → Text × Text × ℕ → Text × Text × ℕ → Prop}
    (refl : ∀ cell, holds 0 cell cell) {first : Text × Text × ℕ} {rest : List (Text × Text × ℕ)}
    (chain : (first :: rest).IsChain fun upper lower => linked upper lower = true)
    (step : ∀ i, ∀ upper ∈ first :: rest, ∀ lower ∈ first :: rest, ∀ cell,
      linked upper lower = true → holds i lower cell → holds (i + 1) upper cell)
    {i : ℕ} {cell : Text × Text × ℕ} (found : (first :: rest)[i]? = some cell) :
    holds i first cell := by
  induction rest generalizing first i with
  | nil =>
    cases i with
    | zero =>
      obtain rfl := Option.some.inj found
      exact refl _
    | succ i => cases found
  | cons second rest induction =>
    cases i with
    | zero =>
      obtain rfl := Option.some.inj found
      exact refl _
    | succ i =>
      obtain ⟨link, later⟩ := isChain_cons_cons.1 chain
      apply step i first mem_cons_self second (mem_cons_of_mem _ mem_cons_self) cell link
      apply induction later _ found
      intro i upper isUpper lower isLower
      exact step i upper (mem_cons_of_mem _ isUpper) lower (mem_cons_of_mem _ isLower)

theorem run_getElem {first : Text × Text × ℕ} {rest : List (Text × Text × ℕ)}
    (chain : (first :: rest).IsChain fun upper lower => linked upper lower = true)
    {i : ℕ} {cell : Text × Text × ℕ} (found : (first :: rest)[i]? = some cell) :
    cell.2.2 = first.2.2 + i ∧ toR1c1 cell.2.1 cell.1 = toR1c1 first.2.1 first.1 := by
  refine @run_induction (fun i first cell => cell.2.2 = first.2.2 + i ∧
    toR1c1 cell.2.1 cell.1 = toR1c1 first.2.1 first.1) (fun _ => ⟨rfl, rfl⟩) _ _ chain ?_ _ _ found
  intro i upper _ lower _ cell link below
  have same : toR1c1 lower.2.1 lower.1 = toR1c1 upper.2.1 upper.1 ∧
      lower.2.2 = upper.2.2 + 1 := by simpa [linked] using link
  exact ⟨by rw [below.1, same.2, Nat.add_assoc, Nat.add_comm 1], below.2.trans same.1⟩

/-- Two elements in a row that are linked are in one run. -/
theorem exists_run_of_flatten {runs : List (List (Text × Text × ℕ))}
    (apart : runs.IsChain fun early late =>
      ∃ ends starts, linked (early.getLast ends) (late.head starts) = false)
    {front back : List (Text × Text × ℕ)} {upper lower : Text × Text × ℕ}
    (whole : runs.flatten = front ++ upper :: lower :: back)
    (link : linked upper lower = true) : ∃ run ∈ runs, upper ∈ run ∧ lower ∈ run := by
  induction runs generalizing front with
  | nil => simp at whole
  | cons run rest induction =>
    have later : ∀ front, rest.flatten = front ++ upper :: lower :: back →
        ∃ other ∈ run :: rest, upper ∈ other ∧ lower ∈ other := by
      intro front whole
      obtain ⟨other, member, both⟩ := induction apart.tail whole
      exact ⟨other, mem_cons_of_mem _ member, both⟩
    rw [flatten_cons, append_eq_append_iff] at whole
    rcases whole with ⟨rest', _, isRest⟩ | ⟨inRun, isRun, isRest⟩
    · exact later rest' isRest
    · match inRun with
      | [] => exact later [] isRest.symm
      | [last] =>
        -- the link would cross the border of two runs
        obtain ⟨rfl, behind⟩ := List.cons.inj isRest
        cases rest with
        | nil => cases behind
        | cons next rest =>
          obtain ⟨⟨ends, starts, border⟩, _⟩ := isChain_cons_cons.1 apart
          obtain ⟨start, after, rfl⟩ := exists_cons_of_ne_nil starts
          obtain ⟨rfl, _⟩ := List.cons.inj behind
          simp only [isRun, getLast_append_singleton, head_cons] at border
          exact absurd (link.symm.trans border) Bool.noConfusion
      | first :: second :: more =>
        obtain ⟨rfl, behind⟩ := List.cons.inj isRest
        obtain ⟨rfl, _⟩ := List.cons.inj behind
        exact ⟨run, mem_cons_self, by simp [isRun], by simp [isRun]⟩

theorem exists_run_of_same (one : OneAddress model) {upper lower : Text} {col row : ℕ}
    (isUpper : FormulaCell model upper formula col row)
    (isLower : FormulaCell model lower formula' col (row + 1))
    (same : toR1c1 formula' lower = toR1c1 formula upper) :
    ∃ run ∈ vectorRuns model, (upper, formula, row) ∈ run ∧ (lower, formula', row + 1) ∈ run := by
  obtain ⟨cells, found⟩ : ∃ cells, (columnCells model).get? col = some cells := by
    have member := formulaCell_iff.1 isUpper
    cases found : (columnCells model).get? col with
    | none => rw [found] at member; cases member
    | some cells => exact ⟨cells, rfl⟩
  have isColumn : (col, cells) ∈ (columnCells model).entries := PyDict.get?_eq_some_iff.1 found
  have inColumn : ∀ {addr formula row}, FormulaCell model addr formula col row →
      (addr, formula, row) ∈ sortedColumn cells := by
    intro addr formula row cell
    have member := formulaCell_iff.1 cell
    rw [found] at member
    exact (mem_insertionSort _).2 member
  -- rows go up strictly, so nothing is between the two cells
  have sorted : (sortedColumn cells).Pairwise fun a b => a.2.2 < b.2.2 := by
    have distinct := nodup_column model col
    rw [found] at distinct
    have apart := pairwise_map.1
      (((perm_insertionSort (fun a b => a.2.2 ≤ b.2.2) cells).map Prod.fst).nodup_iff.2 distinct)
    have ordered := pairwise_insertionSort (fun a b : Text × Text × ℕ => a.2.2 ≤ b.2.2) cells
    apply (apart.and ordered).imp_of_mem
    intro a b isA isB ⟨different, le⟩
    apply lt_of_le_of_ne le
    intro sameRow
    have there := formulaCell_of_mem isColumn isB
    rw [← sameRow] at there
    exact different ((formulaCell_of_mem isColumn isA).eq_of_place one there)
  obtain ⟨front, behind, split⟩ := append_of_mem (inColumn isUpper)
  have member := inColumn isLower
  rw [split] at member sorted
  obtain ⟨_, tail, before⟩ := pairwise_append.1 sorted
  obtain ⟨after, tail⟩ := pairwise_cons.1 tail
  have isBehind : (lower, formula', row + 1) ∈ behind := by
    rcases mem_append.1 member with early | late
    · exact absurd (before _ early _ mem_cons_self) (by simp)
    · rcases mem_cons.1 late with here | behind
      · simp at here
      · exact behind
  obtain ⟨next, back, rfl⟩ := exists_cons_of_ne_nil (ne_nil_of_mem isBehind)
  obtain rfl : (lower, formula', row + 1) = next := by
    rcases mem_cons.1 isBehind with here | late
    · exact here
    · have above := after next mem_cons_self
      have below := (pairwise_cons.1 tail).1 _ late
      simp only at above below
      omega
  obtain ⟨run, isRun, both⟩ := exists_run_of_flatten (isChain_getLast_head_splitBy linked _)
    ((flatten_splitBy linked _).trans split) (by simp [linked, same])
  exact ⟨run, mem_flatMap.2 ⟨_, isColumn, isRun⟩, both⟩

/-- The cells of a group, of which the first is the key. -/
theorem exists_run_of_group (found : (detectVectorizedColumns model).get? first = some group) :
    ∃ (cell : Text × Text × ℕ) (rest : List (Text × Text × ℕ)), cell :: rest ∈ vectorRuns model ∧
      group = (cell :: rest).map Prod.fst ∧ first = cell.1 ∧ 2 ≤ group.length := by
  obtain ⟨run, isRun, rfl, isHead, large⟩ := get?_detectVectorizedColumns.1 found
  cases run with
  | nil => cases isHead
  | cons cell rest => exact ⟨cell, rest, isRun, rfl, (Option.some.inj isHead).symm, large⟩

theorem exists_group_of_run {run : List (Text × Text × ℕ)} (isRun : run ∈ vectorRuns model)
    {upper lower : Text × Text × ℕ} (isUpper : upper ∈ run) (isLower : lower ∈ run)
    (different : upper ≠ lower) :
    ∃ first, (detectVectorizedColumns model).get? first = some (run.map Prod.fst) := by
  match run with
  | [] => cases isUpper
  | [cell] =>
    rw [mem_singleton] at isUpper isLower
    exact absurd (isUpper.trans isLower.symm) different
  | cell :: second :: rest =>
    exact ⟨cell.1, get?_detectVectorizedColumns.2 ⟨_, isRun, rfl, rfl, by simp⟩⟩

def formulaRecord (addr formula : Text) : CellRecord :=
  ⟨addr, .formula, none, some formula, none, [], none⟩

def twoFormulas (upper lower : Text) : SheetModel :=
  ⟨"Sheet1".toList, "B1:B2".toList, .ofPairs [("B1".toList, formulaRecord "B1".toList upper),
      ("B2".toList, formulaRecord "B2".toList lower)], [], []⟩

end WriterAgent.Calc.SpreadsheetImport
