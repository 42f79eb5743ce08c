import WriterAgent.Scripting.PayloadFlatten

/-!
# Flattening grids with other objects

A Python list may also hold values that are none of the built-in cell types:
NumPy scalars, decimals, arbitrary objects.  The two flatten passes ask such a
value for its `float`, its `str`, its `dtype` and the name of its type.
-/

namespace WriterAgent.Scripting

open PyText List

/-- What `float(obj)` raises: a `TypeError` or `ValueError`, or something
else. -/
inductive FloatError where
  | rejected
  | failed
deriving Repr, DecidableEq

inductive FlattenError where
  | uneven (message : String)
  | raised (error : FloatError)
deriving Repr, DecidableEq

/-- A value of none of the built-in types and of no subclass of them.  Its
`dtype`, and the `kind` of that, may be missing. -/
structure PyObject where
  asFloat : Except FloatError Binary64
  text : Text
  dtypeKind : Option (Option Text)
  typeName : Text

inductive GridCell where
  | plain (cell : Cell)
  | object (obj : PyObject)

inductive ObjectGrid where
  | flat (cells : List GridCell)
  | nested (first : List GridCell) (rest : List (List GridCell))

def dtypeClass (kind : Option Text) : Option ColumnKind :=
  if kind = some "f".toList then some .float
  else if kind = some "i".toList ∨ kind = some "u".toList then some .int
  else if kind = some "b".toList then some .bool
  else none

def nameClass (typeName : Text) : Option ColumnKind :=
  if "bool".toList.isPrefixOf typeName then some .bool
  else if "int".toList.isPrefixOf typeName || "uint".toList.isPrefixOf typeName then some .int
  else if "float".toList.isPrefixOf typeName then some .float
  else none

/-- The class by which the slow path takes an object for a number. -/
def PyObject.numericClass (obj : PyObject) : Option ColumnKind :=
  match obj.dtypeKind with
  | some kind => dtypeClass kind
  | none => nameClass obj.typeName

def raiseTo : ColumnKind → Nat → Nat
  | .bool => sawBool
  | .int => sawInt
  | .float => sawFloat

/-- `_flatten_update_column_state` for an object. -/
def flattenUpdateColumnState (obj : PyObject) (state : Nat) : Nat :=
  if state = 3 then state
  else
    match obj.dtypeKind with
    | some kind =>
      match dtypeClass kind with
      | some numeric => raiseTo numeric state
      | none => state
    | none => raiseTo ((nameClass obj.typeName).getD .float) state

/-- `_flatten_append_cell_slow` for an object. -/
def appendObjectSlow (st : Flattened) (obj : PyObject) (c idx : Nat) :
    Except FlattenError Flattened :=
  match obj.numericClass with
  | some numeric =>
    match obj.asFloat with
    | .ok x => .ok ((st.append x).updateState c (raiseTo numeric))
    | .error error => .error (.raised error)
  | none => .ok ((st.append .nan).addString idx obj.text)

/-- One round of `_stdlib_flatten_pass`. -/
def passGridCell (st : Flattened) (cell : Nat × Nat × GridCell) : Except FlattenError Flattened :=
  match cell with
  | (c, idx, .plain val) => .ok (flattenPassCell st (c, idx, val))
  | (c, idx, .object obj) =>
    if st.hasNonNumeric then appendObjectSlow st obj c idx
    else
      match obj.asFloat with
      | .ok x => .ok ((st.append x).updateState c (flattenUpdateColumnState obj))
      | .error .rejected => appendObjectSlow { st with hasNonNumeric := true } obj c idx
      | .error .failed => .error (.raised .failed)

/-- `_update_column_state` of the accelerator for an object. -/
def fastUpdateObjectState (obj : PyObject) (state : Nat) : Nat :=
  if state = 3 then state
  else
    match obj.dtypeKind with
    | some kind => raiseTo ((dtypeClass kind).getD .float) state
    | none => 3

/-- `_flatten_cell`.  Whether a failing `PyFloat_AsDouble` raises out of the
cell, or comes back to the branch that clears the error, is decided by how the
compiler's library declares it: `raises`. -/
def fastGridCell (raises : Bool) (st : Flattened)
    (cell : Nat × Nat × GridCell) : Except FlattenError Flattened :=
  match cell with
  | (c, idx, .plain val) => .ok (fastFlattenCell st (c, idx, val))
  | (c, idx, .object obj) =>
    match obj.asFloat with
    | .ok x => .ok ((st.setBuf idx x).updateState c (fastUpdateObjectState obj))
    | .error error =>
      if raises then .error (.raised error)
      else .ok (({ st with hasNonNumeric := true }.setBuf idx .nan).addString idx obj.text)

/-- `_iter_split_grid_cells` on rows, from a flat index on. -/
def iterObjectRows : Nat → List (List GridCell) → List (Nat × Nat × GridCell)
  | _, [] => []
  | idx, row :: rest =>
    (row.zipIdx.map fun (val, c) => (c, idx + c, val)) ++ iterObjectRows (idx + row.length) rest

/-- The row loop of `fast_flatten_grid_2d`. -/
def fastObjectRows (raises : Bool) (ncols : Nat) :
    Nat → Nat → List (List GridCell) → Flattened → Except FlattenError Flattened
  | _, _, [], st => .ok st
  | r, idx, row :: rest, st =>
    if row.length ≠ ncols then
      .error (.uneven ("Uneven row lengths in data grid at row " ++ toString r))
    else do
      let next ← (row.zipIdx.map fun (val, c) => (c, idx + c, val)).foldlM (fastGridCell raises) st
      fastObjectRows raises ncols (r + 1) (idx + row.length) rest next

def fastFlattenObjects (raises : Bool) : ObjectGrid → Except FlattenError Flattened
  | .flat cells =>
    (cells.zipIdx.map fun (val, idx) => (0, idx, val)).foldlM (fastGridCell raises)
      (.start (List.replicate cells.length (.finite 0)) 1)
  | .nested first rest =>
    let rows := first :: rest
    fastObjectRows raises first.length 0 0 rows
      (.start (List.replicate (rows.length * first.length) (.finite 0))
        first.length)

/-- The Python pass, behind `_validate_rectangular_grid` for rows. -/
def stdlibFlattenObjects : ObjectGrid → Except FlattenError Flattened
  | .flat cells =>
    (cells.zipIdx.map fun (val, idx) => (0, idx, val)).foldlM passGridCell (.start [] 1)
  | .nested first rest =>
    let rows := first :: rest
    if rows.all fun row => row.length == first.length then
      (iterObjectRows 0 rows).foldlM passGridCell (.start [] first.length)
    else .error (.uneven ("Uneven row lengths in data grid: " ++ toString (rows.map List.length)))

/-- The pass that is run: an exception in the accelerator falls back to the
Python pass. -/
def flattenObjects (raises accelerated : Bool) (grid : ObjectGrid) :
    Except FlattenError Flattened :=
  if accelerated then
    match fastFlattenObjects raises grid with
    | .ok st => .ok st
    | .error _ => stdlibFlattenObjects grid
  else stdlibFlattenObjects grid

/-- What the passes hand on: all but the note that a string was met. -/
structure Encoded where
  buf : List Binary64
  strings : PyDict Nat Text
  columnStates : List Nat
  columnHasNone : List Bool
deriving DecidableEq

def Flattened.encoded (st : Flattened) : Encoded :=
  ⟨st.buf, st.strings, st.columnStates, st.columnHasNone⟩

def ObjectGrid.cells : ObjectGrid → List GridCell
  | .flat cells => cells
  | .nested first rest => (first :: rest).flatten

def ObjectGrid.ncols : ObjectGrid → Nat
  | .flat _ => 1
  | .nested first _ => first.length

def ObjectGrid.Rectangular : ObjectGrid → Prop
  | .flat _ => True
  | .nested first rest => ∀ row ∈ rest, row.length = first.length

/-- The cells of a grid with `w` columns, with their columns and indices. -/
def objectPositions (w i : Nat) (cells : List GridCell) : List (Nat × Nat × GridCell) :=
  (cells.zipIdx i).map fun (val, k) => (k % w, k, val)

variable {grid : ObjectGrid} {w idx : Nat} {rows rest : List (List GridCell)}
  {first : List GridCell}

theorem iterObjectRows_eq_positions (even : ∀ row ∈ rows, row.length = w) (aligned : idx % w = 0) :
    iterObjectRows idx rows = objectPositions w idx rows.flatten := by
  induction rows generalizing idx with
  | nil => rfl
  | cons row rest ih =>
    have width := even row mem_cons_self
    have tail := ih (fun later member =>
      even later (mem_cons_of_mem _ member))
      (show (idx + row.length) % w = 0 by rw [width, Nat.add_mod_right, aligned])
    rw [iterObjectRows, tail, objectPositions, objectPositions, flatten_cons, zipIdx_append,
      map_append, rowPositions_eq width aligned]

theorem ObjectGrid.even_rows (even : (ObjectGrid.nested first rest).Rectangular) :
    ∀ row ∈ first :: rest, row.length = first.length := by
  intro row member
  rcases mem_cons.mp member with rfl | later
  · rfl
  · exact even row later

theorem ObjectGrid.length_cells (even : (ObjectGrid.nested first rest).Rectangular) :
    (ObjectGrid.nested first rest).cells.length = (first :: rest).length * first.length :=
  length_flatten_of_even (ObjectGrid.even_rows even)

theorem ObjectGrid.ncols_pos (even : grid.Rectangular)
    (nonempty : grid.cells ≠ []) : 0 < grid.ncols := by
  cases grid with
  | flat cells => exact Nat.one_pos
  | nested first rest =>
    apply Nat.pos_of_ne_zero
    intro firstEmpty
    apply nonempty
    apply eq_nil_of_length_eq_zero
    rw [ObjectGrid.length_cells even]
    change first.length = 0 at firstEmpty
    rw [firstEmpty, Nat.mul_zero]

theorem fastObjectRows_of_even {raises : Bool} {r : Nat} {st : Flattened}
    (even : ∀ row ∈ rows, row.length = w) :
    fastObjectRows raises w r idx rows st =
      (iterObjectRows idx rows).foldlM (fastGridCell raises) st := by
  induction rows generalizing r idx st with
  | nil => rfl
  | cons row rest ih =>
    have width := even row mem_cons_self
    rw [fastObjectRows, if_neg (not_not.mpr width), iterObjectRows, foldlM_append]
    congr 1
    funext next
    exact ih fun later member => even later (mem_cons_of_mem _ member)

theorem fastFlattenObjects_eq (raises : Bool) (even : grid.Rectangular) :
    fastFlattenObjects raises grid =
      (objectPositions grid.ncols 0 grid.cells).foldlM (fastGridCell raises)
        (.start (List.replicate grid.cells.length (.finite 0)) grid.ncols) := by
  cases grid with
  | flat cells =>
    simp [fastFlattenObjects, objectPositions, ObjectGrid.ncols, ObjectGrid.cells, Nat.mod_one]
  | nested first rest =>
    have rows := ObjectGrid.even_rows even
    rw [fastFlattenObjects, ← ObjectGrid.length_cells even]
    rw [fastObjectRows_of_even rows, iterObjectRows_eq_positions rows (Nat.zero_mod _)]
    rfl

theorem stdlibFlattenObjects_eq (even : grid.Rectangular) : stdlibFlattenObjects grid =
      (objectPositions grid.ncols 0 grid.cells).foldlM passGridCell (.start [] grid.ncols) := by
  cases grid with
  | flat cells =>
    simp [stdlibFlattenObjects, objectPositions, ObjectGrid.ncols, ObjectGrid.cells, Nat.mod_one]
  | nested first rest =>
    have rows := ObjectGrid.even_rows even
    have valid : ((first :: rest).all fun row =>
        row.length == first.length) = true := by
      rw [all_eq_true]
      intro row member
      rw [beq_iff_eq]
      exact rows row member
    rw [stdlibFlattenObjects, if_pos valid, iterObjectRows_eq_positions rows (Nat.zero_mod _)]
    rfl

end WriterAgent.Scripting
