import WriterAgent.Calc.SpreadsheetImport.Ingest

/-!
# The cells of an ingested sheet

Where the arrays are those of a range, every position of the range has its
record, and the record says what the classification saw.
-/

namespace WriterAgent.Calc.SpreadsheetImport

open PyText List

/-- The arrays of a cell range: one row or more, of one width. -/
structure IsRange (width : ℕ) (dataArray : List (List (Option CellValue)))
    (formulaArray : List (List Text)) : Prop where
  some_row : dataArray ≠ []
  some_column : 0 < width
  rows : dataArray.length = formulaArray.length
  dataRows : ∀ row ∈ dataArray, row.length = width
  formulaRows : ∀ row ∈ formulaArray, row.length = width

variable {width startCol startRow : ℕ} {dataArray : List (List (Option CellValue))}
  {formulaArray : List (List Text)}

def ingestedCells (startCol startRow : ℕ) (dataArray : List (List (Option CellValue)))
    (formulaArray : List (List Text)) : PyDict Text CellRecord :=
  let cells := PyDict.ofPairs ((gridRecords startCol startRow dataArray formulaArray).map
    fun record => (record.address, record))
  cells.mapValues (withPrecedents cells.keys)

theorem IsRange.zip_mem (range : IsRange width dataArray formulaArray)
    {dataRow : List (Option CellValue)} {formulaRow : List Text}
    (member : (dataRow, formulaRow) ∈ dataArray.zip formulaArray) :
    dataRow.length = width ∧ formulaRow.length = width :=
  ⟨range.dataRows _ (of_mem_zip member).1, range.formulaRows _ (of_mem_zip member).2⟩

theorem ingestFromArrays_eq (range : IsRange width dataArray formulaArray) (sheetName : Text) :
    ingestFromArrays sheetName startCol startRow dataArray formulaArray =
      .ok (attachGraphToModel ⟨sheetName, formatUsedRange startCol startRow (startCol + width - 1)
            (startRow + dataArray.length - 1),
          ingestedCells startCol startRow dataArray formulaArray, [], []⟩) := by
  have widths : dataArray.map List.length = List.replicate dataArray.length width := by
    rw [eq_replicate_iff]
    refine ⟨length_map _, ?_⟩
    intro length member
    obtain ⟨row, inArray, rfl⟩ := mem_map.1 member
    exact range.dataRows row inArray
  have widest : (dataArray.map List.length).max?.getD 0 = width := by
    rw [widths, List.max?_replicate_of_pos (length_pos_iff.2 range.some_row)]
    rfl
  have same : (dataArray.zip formulaArray).findIdx? (fun rows =>
      rows.2.length ≠ rows.1.length) = none := by
    rw [List.findIdx?_eq_none_iff]
    rintro ⟨dataRow, formulaRow⟩ member
    obtain ⟨dataWidth, formulaWidth⟩ := range.zip_mem member
    simp [dataWidth, formulaWidth]
  rw [ingestFromArrays, if_neg (by simp [range.rows]), if_neg range.some_row]
  simp only [widest, same]
  rfl

variable {record : CellRecord} {addr : Text}

theorem mem_gridRecords : record ∈ gridRecords startCol startRow dataArray formulaArray ↔
      ∃ row col rawVal rawFormula dataRow formulaRow,
        (dataArray.zip formulaArray)[row]? = some (dataRow, formulaRow) ∧
        (dataRow.zip formulaRow)[col]? = some (rawVal, rawFormula) ∧
        record =
          cellRecord (formatAddress (startCol + col) (startRow + row)) rawVal rawFormula := by
  simp only [gridRecords, mem_flatMap, mem_map, Prod.exists, mem_zipIdx_iff_le_and_getElem?_sub]
  constructor
  · rintro ⟨dataRow, formulaRow, row, ⟨afterRow, inRows⟩, rawVal, rawFormula, col,
      ⟨afterCol, inRow⟩, rfl⟩
    refine ⟨row - startRow, col - startCol, rawVal, rawFormula, dataRow, formulaRow, inRows,
      inRow, ?_⟩
    rw [Nat.add_sub_of_le afterRow, Nat.add_sub_of_le afterCol]
  · rintro ⟨row, col, rawVal, rawFormula, dataRow, formulaRow, inRows, inRow, rfl⟩
    refine ⟨dataRow, formulaRow, startRow + row, ⟨by omega, ?_⟩, rawVal, rawFormula,
      startCol + col, ⟨by omega, ?_⟩, rfl⟩
    · rwa [Nat.add_sub_cancel_left]
    · rwa [Nat.add_sub_cancel_left]

theorem cellRecord_address (address : Text) (rawVal : Option CellValue) (rawFormula : Text) :
    (cellRecord address rawVal rawFormula).address = address := by
  rw [cellRecord]

def rangeAddresses (startCol startRow width height : ℕ) : List Text :=
  (List.range' startRow height).flatMap fun row =>
    (List.range' startCol width).map fun col => formatAddress col row

theorem gridRecords_addresses (range : IsRange width dataArray formulaArray) :
    (gridRecords startCol startRow dataArray formulaArray).map CellRecord.address =
      rangeAddresses startCol startRow width dataArray.length := by
  have rowAddresses : ∀ row : (List (Option CellValue) × List Text) × ℕ,
      row ∈ (dataArray.zip formulaArray).zipIdx startRow →
        (((row.1.1.zip row.1.2).zipIdx startCol).map fun cell =>
            cellRecord (formatAddress cell.2 row.2) cell.1.1 cell.1.2).map CellRecord.address =
          (List.range' startCol width).map fun col => formatAddress col row.2 := by
    intro row member
    obtain ⟨dataWidth, formulaWidth⟩ := range.zip_mem (mem_zipIdx_iff_le_and_getElem?_sub.1
      member |>.2 |> mem_of_getElem?)
    have length : (row.1.1.zip row.1.2).length = width := by
      rw [length_zip, dataWidth, formulaWidth, Nat.min_self]
    rw [← length, ← zipIdx_map_snd, map_map, map_map]
    rfl
  have height : (dataArray.zip formulaArray).length = dataArray.length := by
    rw [length_zip, ← range.rows, Nat.min_self]
  have indices := zipIdx_map_snd startRow (dataArray.zip formulaArray)
  rw [height] at indices
  rw [gridRecords, map_flatMap, flatMap_congr rowAddresses, rangeAddresses, ← indices, flatMap_map]

theorem nodup_rangeAddresses (startCol startRow width height : ℕ) :
    (rangeAddresses startCol startRow width height).Nodup := by
  rw [rangeAddresses, nodup_flatMap]
  constructor
  · intro row _
    apply List.Nodup.map _ nodup_range'
    intro col col' same
    exact (Prod.mk.inj (formatAddress_injective same)).1
  · apply List.Pairwise.imp _ (nodup_range' : (List.range' startRow height).Nodup)
    intro row row' apart address first second
    obtain ⟨col, _, rfl⟩ := mem_map.1 first
    obtain ⟨col', _, same⟩ := mem_map.1 second
    exact apart (Prod.mk.inj (formatAddress_injective same)).2.symm

theorem mem_rangeAddresses {height : ℕ} {address : Text} :
    address ∈ rangeAddresses startCol startRow width height ↔
      ∃ col row, startCol ≤ col ∧ col < startCol + width ∧ startRow ≤ row ∧
        row < startRow + height ∧ address = formatAddress col row := by
  simp only [rangeAddresses, mem_flatMap, mem_map, mem_range'_1]
  constructor
  · rintro ⟨row, ⟨lowRow, highRow⟩, col, ⟨lowCol, highCol⟩, rfl⟩
    exact ⟨col, row, lowCol, highCol, lowRow, highRow, rfl⟩
  · rintro ⟨col, row, lowCol, highCol, lowRow, highRow, rfl⟩
    exact ⟨row, ⟨lowRow, highRow⟩, col, ⟨lowCol, highCol⟩, rfl⟩

def gridEntries (startCol startRow : ℕ) (dataArray : List (List (Option CellValue)))
    (formulaArray : List (List Text)) : List (Text × CellRecord) :=
  (gridRecords startCol startRow dataArray formulaArray).map fun record => (record.address, record)

section

variable (range : IsRange width dataArray formulaArray)

include range

theorem gridEntries_keys : (gridEntries startCol startRow dataArray formulaArray).map Prod.fst =
      rangeAddresses startCol startRow width dataArray.length := by
  rw [gridEntries, map_map]
  exact gridRecords_addresses range

theorem ofPairs_gridEntries :
    (PyDict.ofPairs (gridEntries startCol startRow dataArray formulaArray)).entries =
      gridEntries startCol startRow dataArray formulaArray := by
  apply PyDict.ofPairs_entries
  rw [gridEntries_keys range]
  exact nodup_rangeAddresses _ _ _ _

theorem ingestedCells_keys : (ingestedCells startCol startRow dataArray formulaArray).keys =
      rangeAddresses startCol startRow width dataArray.length := by
  rw [← gridEntries_keys range, ← ofPairs_gridEntries range, PyDict.keys, ingestedCells,
    PyDict.mapValues, map_map]
  rfl

theorem get?_ingestedCells_iff :
    (ingestedCells startCol startRow dataArray formulaArray).get? addr = some record ↔
      ∃ row col rawVal rawFormula dataRow formulaRow,
        (dataArray.zip formulaArray)[row]? = some (dataRow, formulaRow) ∧
        (dataRow.zip formulaRow)[col]? = some (rawVal, rawFormula) ∧
        addr = formatAddress (startCol + col) (startRow + row) ∧
        record = withPrecedents (rangeAddresses startCol startRow width dataArray.length)
          (cellRecord addr rawVal rawFormula) := by
  have keys : (PyDict.ofPairs (gridEntries startCol startRow dataArray formulaArray)).keys =
      rangeAddresses startCol startRow width dataArray.length := by
    rw [PyDict.keys, ofPairs_gridEntries range, gridEntries_keys range]
  change ((PyDict.ofPairs (gridEntries startCol startRow dataArray formulaArray)).mapValues
    (withPrecedents (PyDict.ofPairs (gridEntries startCol startRow dataArray
      formulaArray)).keys)).get? addr = some record ↔ _
  rw [PyDict.get?_mapValues, keys, Option.map_eq_some_iff]
  simp only [PyDict.get?_eq_some_iff, ofPairs_gridEntries range]
  simp only [gridEntries, mem_map, mem_gridRecords]
  constructor
  · rintro ⟨_, ⟨_, ⟨row, col, rawVal, rawFormula, dataRow, formulaRow, inRows, inRow, rfl⟩,
      same⟩, rfl⟩
    obtain ⟨rfl, rfl⟩ := Prod.mk.inj same
    refine ⟨row, col, rawVal, rawFormula, dataRow, formulaRow, inRows, inRow,
      cellRecord_address _ _ _, ?_⟩
    rw [cellRecord_address]
  · rintro ⟨row, col, rawVal, rawFormula, dataRow, formulaRow, inRows, inRow, rfl, rfl⟩
    refine ⟨_, ⟨_, ⟨row, col, rawVal, rawFormula, dataRow, formulaRow, inRows, inRow, rfl⟩,
      ?_⟩, rfl⟩
    rw [cellRecord_address]

end

/-- What the classification promises of the record of an address. -/
structure Classified (addr : Text) (record : CellRecord) : Prop where
  address : record.address = addr
  constant : record.type = .constant →
    record.formula = none ∧ ∃ value, record.value = some value ∧ value ≠ .text []
  empty : record.type = .empty → record.formula = none ∧ record.value = none
  formula : record.type ≠ .constant → record.type ≠ .empty →
    ∃ c rest, record.formula = some (c :: rest) ∧ (c = '=' ∨ c = '\x7b')

theorem head_of_isBraced {s : Text} (braced : isBraced s = true) : s.head? = some '\x7b' := by
  rw [isBraced, Bool.and_eq_true, beq_iff_eq] at braced
  exact braced.1

theorem classifyCell_formula {rawVal : Option CellValue} {rawFormula : Text}
    (isFormula : rawFormula.head? = some '=' ∨ isBraced rawFormula = true) :
    (classifyCell rawVal rawFormula).1 ≠ .constant ∧ (classifyCell rawVal rawFormula).1 ≠ .empty ∧
      (classifyCell rawVal rawFormula).2.2.1 = some rawFormula := by
  rw [classifyCell.eq_def, if_pos isFormula]
  split
  · exact ⟨nofun, nofun, rfl⟩
  · split
    · exact ⟨nofun, nofun, rfl⟩
    · split
      · exact ⟨nofun, nofun, rfl⟩
      · split <;> exact ⟨nofun, nofun, rfl⟩

theorem classifyCell_plain {rawVal : Option CellValue} {rawFormula : Text}
    (plain : ¬ (rawFormula.head? = some '=' ∨ isBraced rawFormula = true)) :
    (∃ value, value ≠ .text [] ∧ rawVal = some value ∧
        classifyCell rawVal rawFormula = (.constant, some value, none, none)) ∨
      ((rawVal = none ∨ rawVal = some (.text [])) ∧
        classifyCell rawVal rawFormula = (.empty, none, none, none)) := by
  rw [classifyCell.eq_def, if_neg plain]
  split
  · next x => exact Or.inl ⟨.number x, nofun, rfl, rfl⟩
  · exact Or.inr ⟨Or.inr rfl, rfl⟩
  · rename_i s nonempty
    refine Or.inl ⟨.text s, ?_, rfl, rfl⟩
    intro same
    exact nonempty (CellValue.text.inj same)
  · exact Or.inr ⟨Or.inl rfl, rfl⟩

theorem cellRecord_classified (addr : Text) (rawVal : Option CellValue) (rawFormula : Text) :
    Classified addr (cellRecord addr rawVal rawFormula) := by
  by_cases isFormula : rawFormula.head? = some '=' ∨ isBraced rawFormula = true
  · have kept := @classifyCell_formula rawVal _ isFormula
    rw [cellRecord]
    generalize classifyCell rawVal rawFormula = classified at kept
    obtain ⟨type, value, formula, errorCode⟩ := classified
    obtain ⟨notConstant, notEmpty, rfl⟩ := kept
    refine ⟨rfl, fun constant => absurd constant notConstant,
      fun empty => absurd empty notEmpty, fun _ _ => ?_⟩
    have head : rawFormula.head? = some '=' ∨ rawFormula.head? = some '\x7b' :=
      isFormula.imp_right head_of_isBraced
    rcases head with equals | brace
    · obtain ⟨rest, rfl⟩ := List.head?_eq_some_iff.1 equals
      exact ⟨'=', rest, rfl, Or.inl rfl⟩
    · obtain ⟨rest, rfl⟩ := List.head?_eq_some_iff.1 brace
      exact ⟨'\x7b', rest, rfl, Or.inr rfl⟩
  · rw [cellRecord]
    rcases classifyCell_plain isFormula with ⟨value, nonempty, _, same⟩ | ⟨_, same⟩
    · rw [same]
      exact ⟨rfl, fun _ => ⟨rfl, value, rfl, nonempty⟩, nofun, fun no _ => absurd rfl no⟩
    · rw [same]
      exact ⟨rfl, nofun, fun _ => ⟨rfl, rfl⟩, fun _ no => absurd rfl no⟩

theorem withPrecedents_classified (scope : List Text) (classified : Classified addr record) :
    Classified addr (withPrecedents scope record) := by
  rw [withPrecedents.eq_def]
  split
  · exact classified
  · rename_i formula isFormula
    split
    · exact classified
    · exact ⟨classified.address, classified.constant, classified.empty, classified.formula⟩

theorem ingestedCells_classified (range : IsRange width dataArray formulaArray)
    (found : (ingestedCells startCol startRow dataArray formulaArray).get? addr = some record) :
    Classified addr record := by
  obtain ⟨_, _, rawVal, rawFormula, _, _, _, _, _, rfl⟩ := (get?_ingestedCells_iff range).1 found
  exact withPrecedents_classified _ (cellRecord_classified addr rawVal rawFormula)

end WriterAgent.Calc.SpreadsheetImport
