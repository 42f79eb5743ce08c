import WriterAgent.Scripting.PayloadCodec

/-!
# What the flatten passes record

Both passes write the same buffer and the same strings, and the state of each
column is wide enough for the values in it.
-/

namespace WriterAgent.Scripting

open PyText List

def Cell.toDouble : Cell → Binary64
  | .none => .nan
  | .bool b => floatOfBool b
  | .int n => .ofRat n
  | .float x => x
  | .str _ => .nan

def Cell.text? : Cell → Option Text
  | .str s => some s
  | _ => Option.none

def raise : Cell → Nat → Nat
  | .bool _ => sawBool
  | .int _ => sawInt
  | .float _ => sawFloat
  | _ => id

/-- One cell is recorded: its string, its column state, and nothing else. -/
structure Records (st next : Flattened) (c idx : Nat) (cell : Cell) : Prop where
  strings : ∀ k, next.strings.get? k =
    if k = idx ∧ cell.text?.isSome then cell.text? else st.strings.get? k
  states : next.columnStates = st.columnStates.modify c (raise cell)
  noneLength : next.columnHasNone.length = st.columnHasNone.length

variable {α : Type} {w idx : Nat} {grid : Grid} {cell : Cell} {done : List Cell} {st : Flattened}

theorem flattenAppendCellSlow_records (st : Flattened) (c idx : Nat) (cell : Cell) :
    Records st (flattenAppendCellSlow st cell c idx) c idx cell ∧
      (flattenAppendCellSlow st cell c idx).buf = st.buf ++ [cell.toDouble] := by
  cases cell <;>
    exact ⟨⟨by simp [flattenAppendCellSlow, Cell.text?], by simp [flattenAppendCellSlow, raise],
      by simp [flattenAppendCellSlow]⟩, rfl⟩

theorem flattenPassCell_records (st : Flattened) (c idx : Nat) (cell : Cell) :
    Records st (flattenPassCell st (c, idx, cell)) c idx cell ∧
      (flattenPassCell st (c, idx, cell)).buf = st.buf ++ [cell.toDouble] := by
  have slow := flattenAppendCellSlow_records st c idx cell
  cases cell with
  | none => exact slow
  | str s =>
    obtain ⟨records, buf⟩ := flattenAppendCellSlow_records
      { st with hasNonNumeric := true } c idx (.str s)
    exact ⟨⟨records.strings, records.states, records.noneLength⟩, buf⟩
  | float x | int n | bool b => simpa [flattenPassCell, flattenAppendCellSlow] using slow

theorem fastUpdateColumnState_eq_raise (cell : Cell) : fastUpdateColumnState cell = raise cell := by
  funext state
  cases cell <;> simp [fastUpdateColumnState, raise, sawBool, sawInt, sawFloat] <;> omega

theorem fastFlattenCell_records (st : Flattened) (c idx : Nat) (cell : Cell) :
    Records st (fastFlattenCell st (c, idx, cell)) c idx cell ∧
      (fastFlattenCell st (c, idx, cell)).buf = st.buf.set idx cell.toDouble := by
  cases cell <;>
    exact ⟨⟨by simp [fastFlattenCell, Cell.text?],
      by simp [fastFlattenCell, fastUpdateColumnState_eq_raise, raise],
      by simp [fastFlattenCell]⟩, rfl⟩

/-- What is known after some cells of a grid with `w` columns. -/
structure Recorded (w : Nat) (done : List Cell) (st : Flattened) : Prop where
  strings : ∀ k, st.strings.get? k = done[k]?.bind Cell.text?
  statesLength : st.columnStates.length = w
  noneLength : st.columnHasNone.length = w
  floats : ∀ k x, done[k]? = some (.float x) → st.columnStates[k % w]? = some 3
  ints : ∀ k n, done[k]? = some (.int n) → ∃ state, st.columnStates[k % w]? = some state ∧ 2 ≤ state

theorem recorded_start (w : Nat) (buf : List Binary64) : Recorded w [] (.start buf w) := by
  constructor <;> simp [Flattened.start]

theorem raise_three (cell : Cell) : raise cell 3 = 3 := by
  cases cell <;> rfl

theorem two_le_raise {state : Nat} (high : 2 ≤ state) : 2 ≤ raise cell state := by
  cases cell with
  | none | str => exact high
  | float x => exact Nat.le_succ 2
  | int n => rw [raise, sawInt, if_neg (by omega)]; exact high
  | bool b => rw [raise, sawBool, if_neg (by omega)]; exact high

theorem Recorded.step {next : Flattened} (recorded : Recorded w done st)
    (positive : 0 < w) (records : Records st next (done.length % w) done.length cell) :
    Recorded w (done ++ [cell]) next := by
  have state : ∀ {j s}, st.columnStates[j]? = some s → next.columnStates[j]? =
        some (if done.length % w = j then raise cell s else s) := by
    intro j s found
    rw [records.states, List.getElem?_modify, found]
    split <;> rfl
  have own : ∃ s, st.columnStates[done.length % w]? = some s := by
    refine ⟨_, List.getElem?_eq_getElem ?_⟩
    rw [recorded.statesLength]
    exact Nat.mod_lt _ positive
  have either : ∀ {k value}, (done ++ [cell])[k]? = some value →
      done[k]? = some value ∨ (k = done.length ∧ cell = value) := by
    intro k value found
    by_cases earlier : k < done.length
    · left
      rwa [List.getElem?_append_left earlier] at found
    · right
      rw [List.getElem?_append_right (by omega), List.getElem?_singleton] at found
      split at found
      · exact ⟨by omega, Option.some.inj found⟩
      · simp at found
  constructor
  · intro k
    rw [records.strings, recorded.strings]
    by_cases last : k = done.length
    · subst last
      cases text : cell.text? <;> simp [text]
    · rw [if_neg (by simp [last])]
      by_cases earlier : k < done.length
      · rw [List.getElem?_append_left earlier]
      · rw [List.getElem?_eq_none (by omega), List.getElem?_eq_none (by
          rw [length_append, length_singleton]; omega)]
  · rw [records.states, length_modify, recorded.statesLength]
  · rw [records.noneLength, recorded.noneLength]
  · intro k x found
    rcases either found with earlier | ⟨rfl, rfl⟩
    · rw [state (recorded.floats k x earlier), raise_three, ite_self]
    · obtain ⟨s, ownState⟩ := own
      rw [state ownState, if_pos rfl]
      rfl
  · intro k n found
    rcases either found with earlier | ⟨rfl, rfl⟩
    · obtain ⟨s, stateAt, high⟩ := recorded.ints k n earlier
      refine ⟨_, state stateAt, ?_⟩
      split
      · exact two_le_raise high
      · exact high
    · obtain ⟨s, ownState⟩ := own
      refine ⟨_, state ownState, ?_⟩
      rw [if_pos rfl]
      change 2 ≤ if s < 2 then 2 else s
      split <;> omega

/-- The cells of a grid with `w` columns, with their columns and indices. -/
def positions (w i : Nat) (cells : List Cell) : List (Nat × Nat × Cell) :=
  (cells.zipIdx i).map fun (val, k) => (k % w, k, val)

theorem Recorded.run {step : Flattened → Nat × Nat × Cell → Flattened} (records : ∀ st c idx cell,
      Records st (step st (c, idx, cell)) c idx cell) {cells : List Cell}
    (recorded : Recorded w done st) (positive : cells ≠ [] → 0 < w) :
    Recorded w (done ++ cells) ((positions w done.length cells).foldl step st) := by
  induction cells generalizing done st with
  | nil => simpa [positions] using recorded
  | cons cell rest ih =>
    have wide := positive (by simp)
    have next := recorded.step wide (records st _ _ cell)
    have tail := ih next fun _ => wide
    simpa [positions] using tail

theorem flattenPass_buf {w i : Nat} {cells : List Cell} {st : Flattened} :
    ((positions w i cells).foldl flattenPassCell st).buf = st.buf ++ cells.map Cell.toDouble := by
  induction cells generalizing i st with
  | nil => simp [positions]
  | cons cell rest ih =>
    have step := (flattenPassCell_records st (i % w) i cell).2
    have tail := @ih (i + 1) (flattenPassCell st (i % w, i, cell))
    rw [step] at tail
    simpa [positions] using tail

theorem fastFlatten_buf {w : Nat} {cells : List Cell} {front : List Binary64} {st : Flattened}
    (buf : st.buf = front ++ List.replicate cells.length (.finite 0)) :
    ((positions w front.length cells).foldl fastFlattenCell st).buf =
      front ++ cells.map Cell.toDouble := by
  induction cells generalizing front st with
  | nil => simpa [positions] using buf
  | cons cell rest ih =>
    have step := (fastFlattenCell_records st (front.length % w) front.length cell).2
    have tail := @ih (front ++ [cell.toDouble])
      (fastFlattenCell st (front.length % w, front.length, cell)) (by
        rw [step, buf, length_cons, replicate_succ, set_append_right _ _ le_rfl, Nat.sub_self,
          set_cons_zero, append_assoc, singleton_append])
    simpa [positions] using tail

def Grid.cells : Grid → List Cell
  | .flat cells => cells
  | .nested first rest => (first :: rest).flatten

def Grid.Rectangular : Grid → Prop
  | .flat _ => True
  | .nested first rest => ∀ row ∈ rest, row.length = first.length

theorem rowPositions_eq {row : List α} (width : row.length = w) (aligned : idx % w = 0) :
    (row.zipIdx.map fun (val, c) => (c, idx + c, val)) =
      (row.zipIdx idx).map fun (val, k) => (k % w, k, val) := by
  apply ext_getElem?
  intro c
  rw [List.getElem?_map, List.getElem?_map, List.getElem?_zipIdx, List.getElem?_zipIdx]
  cases found : row[c]? with
  | none => rfl
  | some val =>
    have bound := (List.getElem?_eq_some_iff.mp found).1
    rw [width] at bound
    simp [Nat.add_mod, aligned, Nat.mod_eq_of_lt bound]

theorem iterRows_eq_positions {rows : List (List Cell)}
    (even : ∀ row ∈ rows, row.length = w) (aligned : idx % w = 0) :
    iterRows idx rows = positions w idx rows.flatten := by
  induction rows generalizing idx with
  | nil => rfl
  | cons row rest ih =>
    have width := even row mem_cons_self
    have tail := ih (fun later member =>
      even later (mem_cons_of_mem _ member))
      (show (idx + row.length) % w = 0 by rw [width, Nat.add_mod_right, aligned])
    rw [iterRows, tail, positions, positions, flatten_cons,
      zipIdx_append, map_append, rowPositions_eq width aligned]

theorem iterSplitGridCells_eq_positions (even : grid.Rectangular) :
    iterSplitGridCells grid = positions grid.ncols 0 grid.cells := by
  cases grid with
  | flat cells => simp [iterSplitGridCells, positions, Grid.ncols, Grid.cells, Nat.mod_one]
  | nested first rest =>
    apply iterRows_eq_positions _ (Nat.zero_mod _)
    intro row member
    rcases mem_cons.mp member with rfl | later
    · rfl
    · exact even row later

theorem fastFlattenRows_of_even {w r idx : Nat} {rows : List (List Cell)}
    {st : Flattened} (even : ∀ row ∈ rows, row.length = w) :
    fastFlattenRows w r idx rows st = .ok ((iterRows idx rows).foldl fastFlattenCell st) := by
  induction rows generalizing r idx st with
  | nil => rfl
  | cons row rest ih =>
    have width := even row mem_cons_self
    rw [fastFlattenRows, if_neg (not_not.mpr width), ih fun later member =>
      even later (mem_cons_of_mem _ member), iterRows, foldl_append]

theorem fastFlattenRows_of_uneven {w r idx : Nat} {rows : List (List Cell)}
    {st : Flattened} (uneven : ∃ row ∈ rows, row.length ≠ w) :
    ∃ error, fastFlattenRows w r idx rows st = .error error := by
  induction rows generalizing r idx st with
  | nil => simp at uneven
  | cons row rest ih =>
    rw [fastFlattenRows]
    split
    · exact ⟨_, rfl⟩
    · rename_i width
      apply ih
      obtain ⟨other, member, odd⟩ := uneven
      rcases mem_cons.mp member with rfl | later
      · exact absurd odd width
      · exact ⟨other, later, odd⟩

theorem Grid.ncols_pos (even : grid.Rectangular) (nonempty : grid.cells ≠ []) : 0 < grid.ncols := by
  cases grid with
  | flat cells => exact Nat.one_pos
  | nested first rest =>
    by_contra zero
    have firstEmpty : first.length = 0 := Nat.eq_zero_of_not_pos zero
    apply nonempty
    rw [Grid.cells, flatten_eq_nil_iff]
    intro row member
    apply eq_nil_of_length_eq_zero
    rcases mem_cons.mp member with rfl | later
    · exact firstEmpty
    · rw [even row later, firstEmpty]

theorem length_flatten_of_even {rows : List (List α)}
    (even : ∀ row ∈ rows, row.length = w) : rows.flatten.length = rows.length * w := by
  have widths : rows.map List.length = List.replicate rows.length w := by
    rw [eq_replicate_iff, length_map]
    refine ⟨rfl, ?_⟩
    intro width member
    obtain ⟨row, inRows, rfl⟩ := mem_map.mp member
    exact even row inRows
  rw [length_flatten, widths]
  simp

theorem Grid.length_cells {first : List Cell} {rest : List (List Cell)}
    (even : (Grid.nested first rest).Rectangular) :
    (Grid.nested first rest).cells.length = (first :: rest).length * first.length := by
  apply length_flatten_of_even
  intro row member
  rcases mem_cons.mp member with rfl | later
  · rfl
  · exact even row later

theorem flattenPass_of_rectangular (accelerated : Bool) (even : grid.Rectangular) :
    ∃ st, flattenPass accelerated grid = .ok st ∧ Recorded grid.ncols grid.cells st ∧
        st.buf = grid.cells.map Cell.toDouble := by
  have cellsEq := iterSplitGridCells_eq_positions even
  have positive := Grid.ncols_pos even
  have stdlib := (recorded_start grid.ncols []).run
    (fun st c idx cell => (flattenPassCell_records st c idx cell).1) positive
  have stdlibBuf := @flattenPass_buf grid.ncols 0 grid.cells (.start [] grid.ncols)
  have fast := (recorded_start grid.ncols (List.replicate grid.cells.length (.finite 0))).run
    (fun st c idx cell => (fastFlattenCell_records st c idx cell).1) positive
  have fastBuf := @fastFlatten_buf grid.ncols grid.cells [] (.start
    (List.replicate grid.cells.length (.finite 0)) grid.ncols) rfl
  rw [length_nil, ← cellsEq] at stdlib fast
  rw [← cellsEq] at stdlibBuf
  rw [length_nil, ← cellsEq] at fastBuf
  cases grid with
  | flat cells =>
    cases accelerated with
    | false => exact ⟨_, rfl, stdlib, stdlibBuf⟩
    | true => exact ⟨_, rfl, fast, fastBuf⟩
  | nested first rest =>
    cases accelerated with
    | false =>
      refine ⟨_, ?_, stdlib, stdlibBuf⟩
      have valid : validateRectangularGrid (first :: rest) first.length = .ok () := by
        rw [validateRectangularGrid, if_pos]
        rw [all_eq_true]
        intro row member
        rcases mem_cons.mp member with rfl | later
        · simp
        · simpa using even row later
      simp only [flattenPass, valid, Bool.false_eq_true, if_false]
      rfl
    | true =>
      refine ⟨_, ?_, fast, fastBuf⟩
      have ran := @fastFlattenRows_of_even first.length 0 0 (first :: rest)
        (.start (List.replicate (Grid.nested first rest).cells.length (.finite 0)) first.length) (by
          intro row member
          rcases mem_cons.mp member with rfl | later
          · rfl
          · exact even row later)
      simp only [flattenPass, if_true, fastFlattenGrid2d, ← Grid.length_cells even, ran]
      rfl

theorem flattenPass_of_uneven (accelerated : Bool) (uneven : ¬ grid.Rectangular) :
    ∃ message, flattenPass accelerated grid = .error (.valueError message) := by
  cases grid with
  | flat cells => exact absurd trivial uneven
  | nested first rest =>
    obtain ⟨row, member, odd⟩ : ∃ row ∈ rest, row.length ≠ first.length := by
      simpa [Grid.Rectangular] using uneven
    have invalid : validateRectangularGrid (first :: rest) first.length =
        .error (.valueError ("Uneven row lengths in data grid: " ++
          toString ((first :: rest).map List.length))) := by
      rw [validateRectangularGrid, if_neg]
      rw [all_eq_true]
      intro even
      have width := even row (mem_cons_of_mem _ member)
      exact odd (by simpa using width)
    obtain ⟨error, failed⟩ := @fastFlattenRows_of_uneven first.length 0 0
      (first :: rest) (.start (List.replicate
        ((first :: rest).length * first.length) (.finite 0)) first.length)
      ⟨row, mem_cons_of_mem _ member, odd⟩
    refine ⟨"Uneven row lengths in data grid: " ++ toString ((first :: rest).map List.length), ?_⟩
    cases accelerated with
    | false =>
      simp only [flattenPass, invalid, Bool.false_eq_true, if_false]
      rfl
    | true =>
      simp only [flattenPass, if_true, fastFlattenGrid2d, failed, invalid]
      rfl

end WriterAgent.Scripting
