import WriterAgent.Foundations.Binary64
import WriterAgent.Foundations.Dict
import WriterAgent.Foundations.EditScript
import WriterAgent.Foundations.Text

/-!
# Split-grid payloads

`plugin/scripting/payload_codec.py`: a grid of cells travels as one lane of
doubles, a sparse map of strings and one kind for each column.  The flatten
pass is written twice, in Python and in `writeragent_vec/pack.pyx`.
-/

namespace WriterAgent.Scripting

open PyText

inductive PyError where
  | valueError (message : String)
  | overflowError
  | indexError
  | zeroDivisionError
deriving Repr, DecidableEq

/-- The values a spreadsheet cell gives. -/
inductive Cell where
  | none
  | bool (b : Bool)
  | int (n : ℤ)
  | float (x : Binary64)
  | str (s : Text)
deriving DecidableEq

/-- A Python list of cells, or of rows if its first element is a list. -/
inductive Grid where
  | flat (cells : List Cell)
  | nested (first : List Cell) (rest : List (List Cell))
deriving DecidableEq

inductive ColumnKind where
  | int
  | bool
  | float
deriving Repr, DecidableEq

/-- The variables of the flatten pass.  Column states are 0 for nothing
numeric yet, 1 for bool, 2 for int and 3 for float. -/
structure Flattened where
  buf : List Binary64
  strings : PyDict Nat Text
  columnStates : List Nat
  columnHasNone : List Bool
  hasNonNumeric : Bool
deriving DecidableEq

namespace Flattened

def start (buf : List Binary64) (numCols : Nat) : Flattened :=
  ⟨buf, PyDict.empty, List.replicate numCols 0, List.replicate numCols false, false⟩

@[simp] def append (st : Flattened) (x : Binary64) : Flattened :=
  { st with buf := st.buf ++ [x] }

@[simp] def setBuf (st : Flattened) (idx : Nat) (x : Binary64) : Flattened :=
  { st with buf := st.buf.set idx x }

@[simp] def updateState (st : Flattened) (c : Nat) (f : Nat → Nat) : Flattened :=
  { st with columnStates := st.columnStates.modify c f }

@[simp] def markNone (st : Flattened) (c : Nat) : Flattened :=
  { st with columnHasNone := st.columnHasNone.set c true }

@[simp] def addString (st : Flattened) (idx : Nat) (s : Text) : Flattened :=
  { st with strings := st.strings.set idx s }

end Flattened

def floatOfBool (b : Bool) : Binary64 := .finite (if b then 1 else 0)

def sawBool (state : Nat) : Nat := if state = 0 then 1 else state

def sawInt (state : Nat) : Nat := if state < 2 then 2 else state

def sawFloat (_ : Nat) : Nat := 3

def flattenAppendCellSlow (st : Flattened) (val : Cell) (c idx : Nat) :
    Flattened :=
  match val with
  | .none => (st.append .nan).markNone c
  | .bool b => (st.append (floatOfBool b)).updateState c sawBool
  | .int n => (st.append (.ofRat n)).updateState c sawInt
  | .float x => (st.append x).updateState c sawFloat
  | .str s => (st.append .nan).addString idx s

/-- One round of `_stdlib_flatten_pass`: numbers are appended directly until
the first string. -/
def flattenPassCell (st : Flattened) (cell : Nat × Nat × Cell) : Flattened :=
  let (c, idx, val) := cell
  match val with
  | .none => (st.append .nan).markNone c
  | .str s => flattenAppendCellSlow { st with hasNonNumeric := true } (.str s) c idx
  | .float x =>
    if st.hasNonNumeric then flattenAppendCellSlow st (.float x) c idx
    else (st.append x).updateState c sawFloat
  | .int n =>
    if st.hasNonNumeric then flattenAppendCellSlow st (.int n) c idx
    else (st.append (.ofRat n)).updateState c sawInt
  | .bool b =>
    if st.hasNonNumeric then flattenAppendCellSlow st (.bool b) c idx
    else (st.append (floatOfBool b)).updateState c sawBool

/-- The rows of `_iter_split_grid_cells`, from a flat index on. -/
def iterRows : Nat → List (List Cell) → List (Nat × Nat × Cell)
  | _, [] => []
  | idx, row :: rest =>
    (row.zipIdx.map fun (val, c) => (c, idx + c, val)) ++ iterRows (idx + row.length) rest

/-- `_iter_split_grid_cells`: column, flat index and value of every cell. -/
def iterSplitGridCells : Grid → List (Nat × Nat × Cell)
  | .nested first rest => iterRows 0 (first :: rest)
  | .flat cells => cells.zipIdx.map fun (val, idx) => (0, idx, val)

def validateRectangularGrid (rows : List (List Cell)) (ncols : Nat) : Except PyError Unit :=
  if rows.all fun row => row.length == ncols then .ok ()
  else .error (.valueError ("Uneven row lengths in data grid: " ++ toString (rows.map List.length)))

/-- `_update_column_state` of the accelerator. -/
def fastUpdateColumnState (val : Cell) (state : Nat) : Nat :=
  if state = 3 then state
  else
    match val with
    | .float _ => 3
    | .bool _ => if state = 0 then 1 else state
    | .int _ => if state < 2 then 2 else state
    | _ => state

/-- `_flatten_cell`: the buffer has its final length from the start. -/
def fastFlattenCell (st : Flattened) (cell : Nat × Nat × Cell) : Flattened :=
  let (c, idx, val) := cell
  match val with
  | .none => (st.setBuf idx .nan).markNone c
  | .str s => ({ st with hasNonNumeric := true }.setBuf idx .nan).addString idx s
  | .float x => (st.setBuf idx x).updateState c (fastUpdateColumnState (.float x))
  | .int n => (st.setBuf idx (.ofRat n)).updateState c (fastUpdateColumnState (.int n))
  | .bool b => (st.setBuf idx (floatOfBool b)).updateState c (fastUpdateColumnState (.bool b))

/-- The row loop of `fast_flatten_grid_2d`, at row `r`. -/
def fastFlattenRows (ncols : Nat) :
    Nat → Nat → List (List Cell) → Flattened → Except PyError Flattened
  | _, _, [], st => .ok st
  | r, idx, row :: rest, st =>
    if row.length ≠ ncols then
      .error (.valueError ("Uneven row lengths in data grid at row " ++ toString r))
    else
      fastFlattenRows ncols (r + 1) (idx + row.length) rest
        ((row.zipIdx.map fun (val, c) => (c, idx + c, val)).foldl fastFlattenCell st)

def fastFlattenGrid2d (rows : List (List Cell)) (ncols : Nat) : Except PyError Flattened :=
  fastFlattenRows ncols 0 0 rows (.start (List.replicate (rows.length * ncols) (.finite 0)) ncols)

def fastFlattenGrid1d (cells : List Cell) : Flattened :=
  (cells.zipIdx.map fun (val, idx) => (0, idx, val)).foldl fastFlattenCell
    (.start (List.replicate cells.length (.finite 0)) 1)

def Grid.ncols : Grid → Nat
  | .flat _ => 1
  | .nested first _ => first.length

def Grid.shape : Grid → List Nat
  | .flat cells => [cells.length]
  | .nested first rest => [(first :: rest).length, first.length]

/-- The pass that is run on the grid: the accelerator if there is one and it
does not raise, else the Python pass after the check for even rows. -/
def flattenPass (accelerated : Bool) : Grid → Except PyError Flattened
  | .flat cells =>
    if accelerated then .ok (fastFlattenGrid1d cells)
    else .ok ((iterSplitGridCells (.flat cells)).foldl flattenPassCell (.start [] 1))
  | .nested first rest =>
    let stdlib : Except PyError Flattened := do
      validateRectangularGrid (first :: rest) first.length
      pure ((iterSplitGridCells (.nested first rest)).foldl flattenPassCell
        (.start [] first.length))
    if accelerated then
      match fastFlattenGrid2d (first :: rest) first.length with
      | .ok st => .ok st
      | .error _ => stdlib
    else stdlib

/-- The kind of a column; a column with empty cells is a float column when the
grid holds no string. -/
def columnKind (noStrings : Bool) (state : Nat) (hasNone : Bool) : ColumnKind :=
  if noStrings && hasNone then .float
  else if state = 3 then .float
  else if state = 1 then .bool
  else .int

/-- The envelope on the wire.  The bytes of the buffer are read back as the
doubles they were written from. -/
structure Envelope where
  columnKinds : List ColumnKind
  shape : List Nat
  strings : PyDict Nat Text
  buffer : List Binary64
deriving DecidableEq

def noStrings (strings : PyDict Nat Text) : Bool := strings.entries.isEmpty

/-- `_flatten_grid_to_components`, for a grid that is not empty. -/
def flattenGridToComponents (accelerated : Bool) (grid : Grid) : Except PyError Envelope := do
  let st ← flattenPass accelerated grid
  let kinds := List.zipWith (columnKind (noStrings st.strings)) st.columnStates st.columnHasNone
  pure ⟨kinds, grid.shape, st.strings, st.buf⟩

def hostPackSplitGrid (accelerated : Bool) (grid : Grid) : Except PyError Envelope :=
  if grid = .flat [] then .ok ⟨[], [0], PyDict.empty, []⟩
  else flattenGridToComponents accelerated grid

def envelopeColumnKinds (envelope : Envelope) (ncols : Nat) : List ColumnKind :=
  if envelope.columnKinds.length = ncols then envelope.columnKinds
  else List.replicate ncols .float

def uniformColumnKind : List ColumnKind → Option ColumnKind
  | [] => none
  | first :: rest => if rest.all (· == first) then some first else none

/-- `int(x)` of a float. -/
def intOfFloat (x : Binary64) : Except PyError Cell :=
  match x.truncate with
  | some n => .ok (.int n)
  | none => .error (if x.isNan then
      .valueError "cannot convert float NaN to integer" else .overflowError)

/-- One value of a grid without strings whose columns have one kind. -/
def decodeUniform (kind : ColumnKind) (val : Binary64) : Except PyError Cell :=
  match kind with
  | .int => if val.isNan then .ok (.float .nan) else intOfFloat val
  | .bool =>
    if val.isNan then .ok (.float .nan)
    else .ok (.bool (decide (val = .finite 1)))
  | .float => .ok (.float val)

def decodeMixed (strings : PyDict Nat Text) (kind : ColumnKind) (i : Nat)
    (val : Binary64) : Except PyError Cell :=
  match strings.get? i with
  | some s => .ok (.str s)
  | none =>
    if val.isNan then .ok (.float val)
    else if kind = .bool ∧ val = .finite 1 then .ok (.bool true)
    else if kind = .bool ∧ val = .finite 0 then .ok (.bool false)
    else if kind = .int then intOfFloat val
    else .ok (.float val)

/-- `column_kinds[0 if is_1d else i % ncols]`. -/
def cellKind (kinds : List ColumnKind) (is1d : Bool) (ncols i : Nat) : Except PyError ColumnKind :=
  if is1d then
    match kinds[0]? with
    | some kind => .ok kind
    | none => .error .indexError
  else if ncols = 0 then .error .zeroDivisionError
  else
    match kinds[i % ncols]? with
    | some kind => .ok kind
    | none => .error .indexError

/-- The decoded values, from index `i` on. -/
def decodeMixedFrom (strings : PyDict Nat Text) (kinds : List ColumnKind)
    (is1d : Bool) (ncols : Nat) : Nat → List Binary64 → Except PyError (List Cell)
  | _, [] => .ok []
  | i, val :: rest => do
    let kind ← cellKind kinds is1d ncols i
    let cell ← decodeMixed strings kind i val
    let cells ← decodeMixedFrom strings kinds is1d ncols (i + 1) rest
    pure (cell :: cells)

def decodeFlat (strings : PyDict Nat Text) (kinds : List ColumnKind)
    (is1d : Bool) (ncols : Nat) (buffer : List Binary64) :
    Except PyError (List Cell) :=
  match noStrings strings, uniformColumnKind kinds with
  | true, some kind => buffer.mapM (decodeUniform kind)
  | _, _ => decodeMixedFrom strings kinds is1d ncols 0 buffer

def cutRows (flat : List Cell) (nrows ncols : Nat) : List (List Cell) :=
  (List.range nrows).map fun r => slice flat (r * ncols) ((r + 1) * ncols)

def Grid.ofRows : List (List Cell) → Grid
  | [] => .flat []
  | first :: rest => .nested first rest

/-- `host_unpack_split_grid` with nested lists. -/
def hostUnpackSplitGrid (envelope : Envelope) : Except PyError Grid :=
  match envelope.shape with
  | [] => .error .indexError
  | [_] => do
    let kinds := envelopeColumnKinds envelope 1
    let flat ← decodeFlat envelope.strings kinds true 1 envelope.buffer
    pure (.flat flat)
  | nrows :: ncols :: _ => do
    let kinds := envelopeColumnKinds envelope ncols
    let flat ← decodeFlat envelope.strings kinds false ncols envelope.buffer
    pure (.ofRows (cutRows flat nrows ncols))

end WriterAgent.Scripting
