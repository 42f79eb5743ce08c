import WriterAgent.Scripting.PayloadRoundTrip
import WriterAgent.Scripting.ResultEgress

/-!
# Grids of results

To the flatten passes a list or a tuple in a cell is a string: the `str` of
it.  So a grid of results is packed as a grid of cells is, and read back as
one.
-/

namespace WriterAgent.Scripting

open PyText List

def ScriptValue.textCell (rt : Runtime) : ScriptValue → Cell
  | .none => .none
  | .bool b => .bool b
  | .int n => .int n
  | .float x => .float x
  | .str s => .str s
  | value => .str (rt.str value)

theorem passGridCell_gridCell (rt : Runtime) (st : Flattened) (c idx : ℕ) (value : ScriptValue) :
    passGridCell st (c, idx, value.gridCell rt) =
      .ok (flattenPassCell st (c, idx, value.textCell rt)) := by
  have object : ∀ (text : Text) (typeName : Text), nameClass typeName = none →
      passGridCell st (c, idx, .object ⟨.error .rejected, text, none, typeName⟩) =
          .ok (flattenPassCell st (c, idx, .str text)) := by
    intro text typeName unnamed
    have slow : ∀ st : Flattened, appendObjectSlow st
        ⟨.error .rejected, text, none, typeName⟩ c idx =
          .ok ((st.append .nan).addString idx text) := by
      intro st
      simp only [appendObjectSlow, PyObject.numericClass, unnamed]
    simp only [passGridCell, slow]
    cases seen : st.hasNonNumeric with
    | false => rfl
    | true =>
      obtain ⟨buf, strings, states, hasNone, flag⟩ := st
      cases seen
      rfl
  cases value with
  | none | bool | int | float | str => rfl
  | list items | tuple items | dict entries | splitGrid envelope => exact object _ _ (by decide)

theorem fastGridCell_gridCell (rt : Runtime) (raises : Bool) (st : Flattened)
    (c idx : ℕ) (value : ScriptValue) :
    fastGridCell raises st (c, idx, value.gridCell rt) =
        .ok (fastFlattenCell st (c, idx, value.textCell rt)) ∨
      ∃ error, fastGridCell raises st (c, idx, value.gridCell rt) = .error error := by
  have object : ∀ (text : Text) (typeName : Text), fastGridCell raises st (c, idx,
        .object ⟨.error .rejected, text, none, typeName⟩) =
          .ok (fastFlattenCell st (c, idx, .str text)) ∨
        ∃ error, fastGridCell raises st (c, idx,
          .object ⟨.error .rejected, text, none, typeName⟩) = .error error := by
    intro text typeName
    cases raises with
    | true => exact .inr ⟨_, rfl⟩
    | false => exact .inl rfl
  cases value with
  | none | bool | int | float | str => exact .inl rfl
  | list | tuple | dict | splitGrid => exact object _ _

theorem objectPositions_cons (w i : ℕ) (cell : GridCell) (cells : List GridCell) :
    objectPositions w i (cell :: cells) = (i % w, i, cell) :: objectPositions w (i + 1) cells := rfl

theorem foldlM_passGridCell_gridCell (rt : Runtime) (w i : ℕ)
    (values : List ScriptValue) (st : Flattened) :
    (objectPositions w i (values.map (ScriptValue.gridCell rt))).foldlM passGridCell st =
      .ok ((positions w i (values.map (ScriptValue.textCell rt))).foldl flattenPassCell st) := by
  induction values generalizing i st with
  | nil => rfl
  | cons value rest ih =>
    rw [map_cons, objectPositions_cons, foldlM_cons, passGridCell_gridCell]
    exact ih (i + 1) _

theorem foldlM_fastGridCell_gridCell (rt : Runtime) (raises : Bool) (w i : ℕ)
    (values : List ScriptValue) (st : Flattened) :
    (objectPositions w i (values.map (ScriptValue.gridCell rt))).foldlM (fastGridCell raises) st =
      .ok ((positions w i (values.map (ScriptValue.textCell rt))).foldl fastFlattenCell st) ∨
      ∃ error, (objectPositions w i (values.map (ScriptValue.gridCell rt))).foldlM
          (fastGridCell raises) st = .error error := by
  induction values generalizing i st with
  | nil => exact .inl rfl
  | cons value rest ih =>
    rw [map_cons, objectPositions_cons, foldlM_cons]
    rcases fastGridCell_gridCell rt raises st (i % w) i value with
      done | ⟨error, failed⟩
    · rw [done]
      exact ih (i + 1) _
    · rw [failed]
      exact .inr ⟨error, rfl⟩

variable {grid : ObjectGrid}

theorem flattenObjects_recorded (rt : Runtime) {grid : ObjectGrid} {values : List ScriptValue}
    (even : grid.Rectangular) (cells : grid.cells = values.map (ScriptValue.gridCell rt)) :
    ∃ st, flattenObjects rt.raises rt.accelerated grid = .ok st ∧
      Recorded grid.ncols (values.map (ScriptValue.textCell rt)) st ∧
      st.buf = (values.map (ScriptValue.textCell rt)).map Cell.toDouble := by
  have positive : values.map (ScriptValue.textCell rt) ≠ [] → 0 < grid.ncols := by
    intro nonempty
    apply ObjectGrid.ncols_pos even
    rw [cells]
    simpa using nonempty
  have stdlib : ∃ st, stdlibFlattenObjects grid = .ok st ∧
      Recorded grid.ncols (values.map (ScriptValue.textCell rt)) st ∧
      st.buf = (values.map (ScriptValue.textCell rt)).map Cell.toDouble := by
    refine ⟨(positions grid.ncols 0 (values.map (ScriptValue.textCell rt))).foldl flattenPassCell
        (.start [] grid.ncols), ?_, ?_, ?_⟩
    · rw [stdlibFlattenObjects_eq even, cells]
      exact foldlM_passGridCell_gridCell rt grid.ncols 0 values _
    · exact (recorded_start grid.ncols []).run
        (fun st c idx cell => (flattenPassCell_records st c idx cell).1)
        positive
    · exact flattenPass_buf
  unfold flattenObjects
  split
  · rw [fastFlattenObjects_eq rt.raises even, cells]
    rcases foldlM_fastGridCell_gridCell rt rt.raises grid.ncols 0 values
        (.start (List.replicate (values.map (ScriptValue.gridCell rt)).length (.finite 0))
          grid.ncols) with done | ⟨error, failed⟩
    · rw [done]
      refine ⟨_, rfl, ?_, ?_⟩
      · exact (recorded_start grid.ncols _).run
          (fun st c idx cell => (fastFlattenCell_records st c idx cell).1)
          positive
      · apply @fastFlatten_buf grid.ncols _ []
        simp [Flattened.start]
    · rw [failed]
      exact stdlib
  · exact stdlib

theorem fastObjectRows_of_uneven {raises : Bool} {w r idx : ℕ} {rows : List (List GridCell)}
    {st : Flattened} (uneven : ∃ row ∈ rows, row.length ≠ w) :
    ∃ error, fastObjectRows raises w r idx rows st = .error error := by
  induction rows generalizing r idx st with
  | nil =>
    obtain ⟨row, member, _⟩ := uneven
    cases member
  | cons row rest ih =>
    rw [fastObjectRows]
    split
    · exact ⟨_, rfl⟩
    · rename_i width
      have later : ∃ row ∈ rest, row.length ≠ w := by
        obtain ⟨other, member, odd⟩ := uneven
        rcases mem_cons.mp member with rfl | inRest
        · exact absurd odd width
        · exact ⟨other, inRest, odd⟩
      cases List.foldlM (fastGridCell raises) st _ with
      | error error => exact ⟨error, rfl⟩
      | ok next => exact ih later

theorem flattenObjects_of_uneven (raises accelerated : Bool) (uneven : ¬grid.Rectangular) :
    ∃ message, flattenObjects raises accelerated grid = .error (.uneven message) := by
  cases grid with
  | flat cells => exact absurd trivial uneven
  | nested first rest =>
    obtain ⟨row, member, odd⟩ : ∃ row ∈ rest, row.length ≠ first.length := by
      simpa [ObjectGrid.Rectangular] using uneven
    have inRows : row ∈ first :: rest := mem_cons_of_mem first member
    have stdlib : ∃ message, stdlibFlattenObjects (.nested first rest) =
        .error (.uneven message) := by
      refine ⟨_, if_neg ?_⟩
      intro all
      have width := all_eq_true.mp all row inRows
      exact odd (beq_iff_eq.mp width)
    obtain ⟨error, failed⟩ := @fastObjectRows_of_uneven raises first.length
      0 0 (first :: rest) (.start (List.replicate
        ((first :: rest).length * first.length) (.finite 0)) first.length)
      ⟨row, inRows, odd⟩
    unfold flattenObjects
    split
    · simp only [fastFlattenObjects, failed]
      exact stdlib
    · exact stdlib

theorem hostPackObjects_of_ok {rt : Runtime} {st : Flattened} (nonempty : grid ≠ .flat [])
    (passed : flattenObjects rt.raises rt.accelerated grid = .ok st) :
    hostPackObjects rt grid = .ok ⟨st.kinds, grid.shape, st.strings, st.buf⟩ := by
  cases grid with
  | flat cells =>
    cases cells with
    | nil => exact absurd rfl nonempty
    | cons cell rest =>
      simp only [hostPackObjects, passed]
      rfl
  | nested first rest =>
    simp only [hostPackObjects, passed]
    rfl

theorem hostPackObjects_flat (rt : Runtime) (values : List ScriptValue)
    (exact : ∀ value ∈ values, (value.textCell rt).Exact) :
    ∃ envelope back, hostPackObjects rt (.flat (values.map (ScriptValue.gridCell rt))) =
        .ok envelope ∧
      hostUnpackSplitGrid envelope = .ok (.flat back) ∧
      List.Forall₂ GivesBack (values.map (ScriptValue.textCell rt)) back := by
  cases values with
  | nil => exact ⟨_, [], rfl, rfl, .nil⟩
  | cons value rest =>
    obtain ⟨st, passed, recorded, buf⟩ := @flattenObjects_recorded rt
      (.flat ((value :: rest).map (ScriptValue.gridCell rt))) _ trivial rfl
    have exactCells : ∀ cell ∈ (value :: rest).map (ScriptValue.textCell rt),
        cell.Exact := by
      intro cell member
      obtain ⟨origin, isOrigin, rfl⟩ := mem_map.mp member
      exact exact origin isOrigin
    obtain ⟨back, unpacked, same⟩ := @hostUnpackSplitGrid_recorded
      (.flat ((value :: rest).map (ScriptValue.textCell rt))) st trivial
      exactCells recorded buf
    cases same with
    | flat same =>
      refine ⟨_, _, hostPackObjects_of_ok nofun passed, ?_, same⟩
      rw [← unpacked]
      simp [ObjectGrid.shape, Grid.shape]

theorem hostPackObjects_rows (rt : Runtime) (first : List ScriptValue)
    (rest : List (List ScriptValue)) (even : ∀ row ∈ rest, row.length = first.length)
    (exact : ∀ row ∈ first :: rest, ∀ value ∈ row, (value.textCell rt).Exact) :
    ∃ envelope firstBack restBack,
      hostPackObjects rt (objectRows rt (first :: rest)) = .ok envelope ∧
      hostUnpackSplitGrid envelope = .ok (.nested firstBack restBack) ∧
      List.Forall₂ GivesBack (first.map (ScriptValue.textCell rt)) firstBack ∧
      List.Forall₂ (List.Forall₂ GivesBack)
        (rest.map (·.map (ScriptValue.textCell rt))) restBack := by
  have evenObjects : (objectRows rt (first :: rest)).Rectangular := by
    intro row member
    obtain ⟨origin, isOrigin, rfl⟩ := mem_map.mp member
    rw [length_map, length_map]
    exact even origin isOrigin
  have evenCells : (Grid.nested (first.map (ScriptValue.textCell rt))
      (rest.map (·.map (ScriptValue.textCell rt)))).Rectangular := by
    intro row member
    obtain ⟨origin, isOrigin, rfl⟩ := mem_map.mp member
    rw [length_map, length_map]
    exact even origin isOrigin
  have cells : (objectRows rt (first :: rest)).cells =
      (first :: rest).flatten.map (ScriptValue.gridCell rt) := by
    rw [map_flatten]
    rfl
  have textCells : (Grid.nested (first.map (ScriptValue.textCell rt))
      (rest.map (·.map (ScriptValue.textCell rt)))).cells =
      (first :: rest).flatten.map (ScriptValue.textCell rt) := by
    rw [map_flatten]
    rfl
  have width : (objectRows rt (first :: rest)).ncols =
      (Grid.nested (first.map (ScriptValue.textCell rt))
        (rest.map (·.map (ScriptValue.textCell rt)))).ncols := by
    simp [objectRows, ObjectGrid.ncols, Grid.ncols]
  obtain ⟨st, passed, recorded, buf⟩ :=
    flattenObjects_recorded rt evenObjects cells
  rw [← textCells, width] at recorded
  rw [← textCells] at buf
  have exactCells : ∀ cell ∈ (Grid.nested (first.map (ScriptValue.textCell rt))
      (rest.map (·.map (ScriptValue.textCell rt)))).cells, cell.Exact := by
    rw [textCells]
    intro cell member
    obtain ⟨value, isValue, rfl⟩ := mem_map.mp member
    obtain ⟨row, isRow, inRow⟩ := mem_flatten.mp isValue
    exact exact row isRow value inRow
  obtain ⟨back, unpacked, same⟩ :=
    hostUnpackSplitGrid_recorded evenCells exactCells recorded buf
  cases same with
  | nested firstSame restSame =>
    refine ⟨_, _, _, hostPackObjects_of_ok (by rintro ⟨⟩) passed, ?_, firstSame, restSame⟩
    rw [← unpacked]
    simp [objectRows, ObjectGrid.shape, Grid.shape]

theorem hostPackObjects_uneven (rt : Runtime) (first : List ScriptValue)
    (rest : List (List ScriptValue)) (uneven : ¬∀ row ∈ rest, row.length = first.length) :
    ∃ message, hostPackObjects rt (objectRows rt (first :: rest)) = .error (.uneven message) := by
  have unevenObjects : ¬(objectRows rt (first :: rest)).Rectangular := by
    intro even
    apply uneven
    intro row member
    have width := even (row.map (ScriptValue.gridCell rt)) (mem_map.mpr ⟨row, member, rfl⟩)
    rwa [length_map, length_map] at width
  obtain ⟨message, failed⟩ :=
    flattenObjects_of_uneven rt.raises rt.accelerated unevenObjects
  refine ⟨message, ?_⟩
  unfold objectRows at failed ⊢
  simp only [hostPackObjects, failed]
  rfl

end WriterAgent.Scripting
