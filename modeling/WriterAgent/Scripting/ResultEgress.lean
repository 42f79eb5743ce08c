import WriterAgent.Scripting.ObjectCells

/-!
# Results on their way to the host

`plugin/scripting/payload_codec.py`: `child_pack_result` turns what a script
returns into lists, dictionaries and split grids, and `host_unpack_data` reads
them back.
-/

namespace WriterAgent.Scripting

open PyText

/-- What a script returns, and what is on the wire: there a dictionary may be
the envelope of a split grid with its bytes. -/
inductive ScriptValue where
  | none
  | bool (b : Bool)
  | int (n : ℤ)
  | float (x : Binary64)
  | str (s : Text)
  | list (items : List ScriptValue)
  | tuple (items : List ScriptValue)
  | dict (entries : List (Text × ScriptValue))
  | splitGrid (envelope : Envelope)

abbrev Entries := List (Text × ScriptValue)

/-- What is outside this file: whether the accelerator is loaded and how it
fails, the `str` of a list or a tuple, and the reading of a split grid that a
script wrote itself, with its bytes as base64 text. -/
structure Runtime where
  accelerated : Bool
  raises : Bool
  str : ScriptValue → Text
  unpackText : Entries → Except PyError ScriptValue

inductive ForceBinary where
  | auto
  | always
  | never
  deriving DecidableEq

structure PackPolicy where
  minCells : ℤ
  force : ForceBinary

namespace ScriptValue

def row? : ScriptValue → Option (List ScriptValue)
  | .list items => some items
  | .tuple items => some items
  | _ => Option.none

/-- The cell of a grid.  A list or a tuple is no number, has no `dtype`, and
its type is named neither like a number nor like a string. -/
def gridCell (rt : Runtime) : ScriptValue → GridCell
  | .none => .plain .none
  | .bool b => .plain (.bool b)
  | .int n => .plain (.int n)
  | .float x => .plain (.float x)
  | .str s => .plain (.str s)
  | .list items => .object ⟨.error .rejected, rt.str (.list items), Option.none, "list".toList⟩
  | .tuple items => .object ⟨.error .rejected, rt.str (.tuple items), Option.none, "tuple".toList⟩
  | .dict entries => .object ⟨.error .rejected, rt.str (.dict entries), Option.none, "dict".toList⟩
  | .splitGrid envelope => .object
      ⟨.error .rejected, rt.str (.splitGrid envelope), Option.none, "dict".toList⟩

def ofCell : Cell → ScriptValue
  | .none => .none
  | .bool b => .bool b
  | .int n => .int n
  | .float x => .float x
  | .str s => .str s

def ofGrid : Grid → ScriptValue
  | .flat cells => .list (cells.map ofCell)
  | .nested first rest => .list ((first :: rest).map fun row => .list (row.map ofCell))

end ScriptValue

def cellCount (shape : List ℕ) : ℕ := shape.foldl (· * ·) 1

def shouldUseBinaryEnvelope (shape : List ℕ) (policy : PackPolicy) : Bool :=
  match policy.force with
  | .always => true
  | .never => false
  | .auto => 0 < shape.length && decide (policy.minCells ≤ cellCount shape)

def ObjectGrid.shape : ObjectGrid → List ℕ
  | .flat cells => [cells.length]
  | .nested first rest => [(first :: rest).length, first.length]

/-- `host_pack_split_grid` on a grid that may hold other objects. -/
def hostPackObjects (rt : Runtime) (grid : ObjectGrid) : Except FlattenError Envelope :=
  match grid with
  | .flat [] => .ok ⟨[], [0], PyDict.empty, []⟩
  | grid => do
    let st ← flattenObjects rt.raises rt.accelerated grid
    let kinds := List.zipWith (columnKind (noStrings st.strings)) st.columnStates st.columnHasNone
    pure ⟨kinds, grid.shape, st.strings, st.buf⟩

def objectRows (rt : Runtime) : List (List ScriptValue) → ObjectGrid
  | [] => .flat []
  | first :: rest =>
    .nested (first.map (ScriptValue.gridCell rt)) (rest.map (·.map (ScriptValue.gridCell rt)))

/-- `(len(grid), max(len(r) for r in grid))`. -/
def rowsShape (rows : List (List ScriptValue)) : List ℕ :=
  [rows.length, (rows.map List.length).foldl max 0]

def packRows (rt : Runtime) (policy : PackPolicy)
    (rows : List (List ScriptValue)) : Except FlattenError ScriptValue :=
  if shouldUseBinaryEnvelope (rowsShape rows) policy then
    (hostPackObjects rt (objectRows rt rows)).map .splitGrid
  else .ok (.list (rows.map .list))

def packFlat (rt : Runtime) (policy : PackPolicy)
    (items : List ScriptValue) : Except FlattenError ScriptValue :=
  if shouldUseBinaryEnvelope [items.length] policy then
    (hostPackObjects rt (.flat (items.map (ScriptValue.gridCell rt)))).map .splitGrid
  else .ok (.list items)

mutual

def containerHasPackableNested : ScriptValue → Bool
  | .dict _ => true
  | .splitGrid _ => true
  | .list items => needsElementwisePack items
  | .tuple items => needsElementwisePack items
  | _ => false

/-- `_needs_elementwise_pack` on the items of a list or a tuple. -/
def needsElementwisePack : List ScriptValue → Bool
  | [] => false
  | item :: rest => containerHasPackableNested item || needsElementwisePack rest

end

/-- How `child_pack_result` takes a list: item by item, as a grid of rows or
as one row.  A list that starts with a row goes on with rows, or is taken item
by item. -/
inductive ListShape where
  | elementwise
  | rows (rows : List (List ScriptValue))
  | flat

def listShape (items : List ScriptValue) : ListShape :=
  if needsElementwisePack items then .elementwise
  else
    match items with
    | [] => .flat
    | first :: _ =>
      if first.row?.isSome then
        match items.mapM ScriptValue.row? with
        | some rows => .rows rows
        | none => .elementwise
      else .flat

mutual

def childPackResult (rt : Runtime) (policy : PackPolicy) :
    ScriptValue → Except FlattenError ScriptValue
  | .dict entries => (childPackEntries rt policy entries).map .dict
  | .list items =>
    match listShape items with
    | .elementwise => (childPackItems rt policy items).map .list
    | .rows rows => packRows rt policy rows
    | .flat => packFlat rt policy items
  | .tuple items =>
    match listShape items with
    | .elementwise => (childPackItems rt policy items).map .tuple
    | .rows rows => packRows rt policy rows
    | .flat => packFlat rt policy items
  | value => .ok value

def childPackItems (rt : Runtime) (policy : PackPolicy) :
    List ScriptValue → Except FlattenError (List ScriptValue)
  | [] => .ok []
  | item :: rest => do
    let packed ← childPackResult rt policy item
    let others ← childPackItems rt policy rest
    pure (packed :: others)

def childPackEntries (rt : Runtime) (policy : PackPolicy) : Entries → Except FlattenError Entries
  | [] => .ok []
  | (key, value) :: rest => do
    let packed ← childPackResult rt policy value
    let others ← childPackEntries rt policy rest
    pure ((key, packed) :: others)

end

def payloadKey : Text := "__wa_payload__".toList

def field (key : String) (entries : Entries) : Option ScriptValue :=
  PyDict.lookup key.toList entries

/-- `entries.get("__wa_payload__") == tag`. -/
def hasTag (entries : Entries) (tag : String) : Bool :=
  match PyDict.lookup payloadKey entries with
  | some (.str s) => s == tag.toList
  | _ => false

def isShape (ranks : List ℕ) : Option ScriptValue → Bool
  | some (.list sizes) => ranks.contains sizes.length && sizes.all fun size =>
    match size with
    | .int n => decide (0 ≤ n)
    | .bool _ => true
    | _ => false
  | _ => false

def isCalcRangePayload (entries : Entries) : Bool :=
  hasTag entries "calc_range" && isShape [2] (field "shape" entries) &&
    (field "data" entries).isSome

def isMultiData (entries : Entries) : Bool :=
  hasTag entries "multi_data" &&
    match field "items" entries with
    | some (.list items) => items.all fun item =>
      match item with
      | .list _ => true
      | .dict _ => true
      | .splitGrid _ => true
      | _ => false
    | _ => false

def isTextSplitGrid (entries : Entries) : Bool :=
  hasTag entries "split_grid" && isShape [1, 2] (field "shape" entries) &&
    match field "b64" entries with
    | some (.str _) => true
    | _ => false

def isDataframePayload (entries : Entries) : Bool :=
  hasTag entries "dataframe" && (match field "columns" entries with
      | some (.list cols) => cols.all fun col =>
        match col with
        | .str _ => true
        | _ => false
      | _ => false) &&
    match field "data" entries with
    | some .none => true
    | some (.list _) => true
    | some (.tuple _) => true
    | some (.dict _) => true
    | some (.splitGrid _) => true
    | _ => false

def ScriptValue.truthy : ScriptValue → Bool
  | .none => false
  | .bool b => b
  | .int n => decide (n ≠ 0)
  | .float x => decide (x ≠ .finite 0)
  | .str s => !s.isEmpty
  | .list items => !items.isEmpty
  | .tuple items => !items.isEmpty
  | .dict entries => !entries.isEmpty
  | .splitGrid _ => true

/-- A field of the unpacked dictionary; it is there where it is asked for. -/
def unpackedField (key : String) (fields : List (Text × Except PyError ScriptValue)) :
    Except PyError ScriptValue :=
  (PyDict.lookup key.toList fields).getD (.ok .none)

def unpackedEntries : List (Text × Except PyError ScriptValue) → Except PyError Entries
  | [] => .ok []
  | (key, result) :: rest => do
    let value ← result
    let others ← unpackedEntries rest
    pure ((key, value) :: others)

/-- `host_unpack_data` on a dictionary, from its entries and what each of them
is unpacked to. -/
def unpackDict (rt : Runtime) (entries : Entries)
    (fields : List (Text × Except PyError ScriptValue)) :
    Except PyError ScriptValue :=
  if isCalcRangePayload entries then do
    let inner ← unpackedField "data" fields
    let address := match field "address" entries with
      | some address => if address.truthy then [("address".toList, address)] else []
      | none => []
    pure (.dict ([(payloadKey, .str "calc_range".toList),
      ("shape".toList, (field "shape" entries).getD .none),
      ("data".toList, inner)] ++ address))
  else if isMultiData entries then unpackedField "items" fields
  else if isTextSplitGrid entries then rt.unpackText entries
  else if isDataframePayload entries then do
    let inner ← unpackedField "data" fields
    pure (.dict [(payloadKey, .str "dataframe".toList),
      ("columns".toList, (field "columns" entries).getD .none),
      ("data".toList, inner)])
  else (unpackedEntries fields).map .dict

mutual

def hostUnpackData (rt : Runtime) : ScriptValue → Except PyError ScriptValue
  | .splitGrid envelope => (hostUnpackSplitGrid envelope).map .ofGrid
  | .dict entries => unpackDict rt entries (hostUnpackFields rt entries)
  | .list items => (hostUnpackItems rt items).map .list
  | .tuple items => (hostUnpackItems rt items).map .tuple
  | value => .ok value

def hostUnpackItems (rt : Runtime) : List ScriptValue → Except PyError (List ScriptValue)
  | [] => .ok []
  | item :: rest => do
    let value ← hostUnpackData rt item
    let others ← hostUnpackItems rt rest
    pure (value :: others)

def hostUnpackFields (rt : Runtime) : Entries → List (Text × Except PyError ScriptValue)
  | [] => []
  | (key, value) :: rest => (key, hostUnpackData rt value) :: hostUnpackFields rt rest

end

end WriterAgent.Scripting
