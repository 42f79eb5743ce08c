import WriterAgent.Scripting.EgressGrid

/-!
# Packing and reading back a result

What the host is to see of a result, and that it sees it, by induction on the
result: lists are packed item by item or as a grid, and all that is asked of
the packed grids is that they are read back.
-/

namespace WriterAgent.Scripting

open PyText List Option

def ScriptValue.blank : ScriptValue → ScriptValue
  | .none => .float .nan
  | value => value

/-- The items of a list, or of a row of one, that is packed as a grid or
not. -/
def egressCells (packed : Bool) (items : List ScriptValue) : List ScriptValue :=
  if packed then items.map ScriptValue.blank else items

mutual

/-- A result as the host sees it: rows and grids are lists, and nothing in a
cell of a packed grid is not-a-number. -/
def egressValue (policy : PackPolicy) : ScriptValue → ScriptValue
  | .dict entries => .dict (egressEntries policy entries)
  | .list items =>
    match listShape items with
    | .elementwise => .list (egressItems policy items)
    | .rows rows => .list (rows.map fun row => .list (egressCells
        (shouldUseBinaryEnvelope (rowsShape rows) policy) row))
    | .flat => .list (egressCells (shouldUseBinaryEnvelope [items.length] policy) items)
  | .tuple items =>
    match listShape items with
    | .elementwise => .tuple (egressItems policy items)
    | .rows rows => .list (rows.map fun row => .list (egressCells
        (shouldUseBinaryEnvelope (rowsShape rows) policy) row))
    | .flat => .list (egressCells (shouldUseBinaryEnvelope [items.length] policy) items)
  | value => value

def egressItems (policy : PackPolicy) : List ScriptValue → List ScriptValue
  | [] => []
  | item :: rest => egressValue policy item :: egressItems policy rest

def egressEntries (policy : PackPolicy) : Entries → Entries
  | [] => []
  | (key, value) :: rest => (key, egressValue policy value) :: egressEntries policy rest

end

def ScriptValue.number : ScriptValue → Option Binary64
  | .bool b => some (floatOfBool b)
  | .int n => some (.finite n)
  | .float .nan => Option.none
  | .float x => some x
  | _ => Option.none

inductive Same : ScriptValue → ScriptValue → Prop where
  | none : Same .none .none
  | str (s : Text) : Same (.str s) (.str s)
  | number {left right : ScriptValue} {x : Binary64} :
      left.number = some x → right.number = some x → Same left right
  | notANumber : Same (.float .nan) (.float .nan)
  | list {left right : List ScriptValue} :
      List.Forall₂ Same left right → Same (.list left) (.list right)
  | tuple {left right : List ScriptValue} :
      List.Forall₂ Same left right → Same (.tuple left) (.tuple right)
  | dict {left right : Entries} : left.map Prod.fst = right.map Prod.fst →
      List.Forall₂ Same (left.map Prod.snd) (right.map Prod.snd) →
      Same (.dict left) (.dict right)

/-- No entry makes the dictionary an envelope of the codec. -/
def Untagged (entries : Entries) : Prop :=
  ∀ tag ∈ ["calc_range", "multi_data", "split_grid", "dataframe"], hasTag entries tag = false

mutual

/-- Built from nothing, truth values, integers that a double holds, numbers,
strings, lists, tuples and dictionaries that are no envelopes. -/
def Plain : ScriptValue → Prop
  | .int n => |n| ≤ 2 ^ 53
  | .float x => x ≠ .nan
  | .list items => PlainItems items
  | .tuple items => PlainItems items
  | .dict entries => Untagged entries ∧ PlainEntries entries
  | .splitGrid _ => False
  | _ => True

def PlainItems : List ScriptValue → Prop
  | [] => True
  | item :: rest => Plain item ∧ PlainItems rest

def PlainEntries : Entries → Prop
  | [] => True
  | (_, value) :: rest => Plain value ∧ PlainEntries rest

end

mutual

def PackedGrids (policy : PackPolicy) (holds : List (List ScriptValue) → Prop) : ScriptValue → Prop
  | .dict entries => PackedEntries policy holds entries
  | .list items =>
    match listShape items with
    | .elementwise => PackedItems policy holds items
    | .rows rows => shouldUseBinaryEnvelope (rowsShape rows) policy = true → holds rows
    | .flat => shouldUseBinaryEnvelope [items.length] policy = true → holds [items]
  | .tuple items =>
    match listShape items with
    | .elementwise => PackedItems policy holds items
    | .rows rows => shouldUseBinaryEnvelope (rowsShape rows) policy = true → holds rows
    | .flat => shouldUseBinaryEnvelope [items.length] policy = true → holds [items]
  | _ => True

def PackedItems (policy : PackPolicy)
    (holds : List (List ScriptValue) → Prop) : List ScriptValue → Prop
  | [] => True
  | item :: rest => PackedGrids policy holds item ∧ PackedItems policy holds rest

def PackedEntries (policy : PackPolicy) (holds : List (List ScriptValue) → Prop) : Entries → Prop
  | [] => True
  | (_, value) :: rest => PackedGrids policy holds value ∧ PackedEntries policy holds rest

end

def EvenRows (rows : List (List ScriptValue)) : Prop :=
  ∀ row ∈ rows, ∀ other ∈ rows, row.length = other.length

structure FlatCells (rows : List (List ScriptValue)) : Prop where
  even : EvenRows rows
  noNested : ∀ row ∈ rows, ∀ value ∈ row, value.row? = none

def NoBlank (rows : List (List ScriptValue)) : Prop :=
  ∀ row ∈ rows, ∀ value ∈ row, value ≠ .none

variable {items : List ScriptValue} {rows : List (List ScriptValue)}
  {rt : Runtime} {policy : PackPolicy} {value : ScriptValue}
  {packed entries : Entries}

theorem listShape_flat (isFlat : listShape items = .flat) : needsElementwisePack items = false := by
  unfold listShape at isFlat
  split at isFlat
  · cases isFlat
  · next needless => exact Bool.eq_false_iff.mpr needless

theorem listShape_rows (isRows : listShape items = .rows rows) :
    needsElementwisePack items = false ∧ items.mapM ScriptValue.row? = some rows ∧ rows ≠ [] := by
  unfold listShape at isRows
  split_ifs at isRows with needless
  refine ⟨Bool.eq_false_iff.mpr needless, ?_⟩
  split at isRows
  · cases isRows
  · rename_i first rest
    split_ifs at isRows
    split at isRows
    · rename_i isRow rows' found
      cases isRows
      refine ⟨found, ?_⟩
      rintro rfl
      rw [mapM_cons] at found
      obtain ⟨row, _, found⟩ := bind_eq_some_iff.mp found
      obtain ⟨others, _, found⟩ := bind_eq_some_iff.mp found
      cases found
    · cases isRows

theorem needless_cons {item : ScriptValue} {rest : List ScriptValue}
    (needless : needsElementwisePack (item :: rest) = false) :
    containerHasPackableNested item = false ∧ needsElementwisePack rest = false := by
  exact Bool.or_eq_false_iff.mp needless

theorem plainItems_iff : PlainItems items ↔ ∀ item ∈ items, Plain item := by
  induction items with
  | nil => exact ⟨fun _ _ member => (not_mem_nil member).elim, fun _ => trivial⟩
  | cons item rest ih =>
    rw [PlainItems, ih]
    exact forall_mem_cons.symm

theorem rows_of_mapM (found : items.mapM ScriptValue.row? = some rows)
    (needless : needsElementwisePack items = false) (plain : PlainItems items) :
    ∀ row ∈ rows, needsElementwisePack row = false ∧ PlainItems row := by
  induction items generalizing rows with
  | nil =>
    cases found
    exact fun row member => (not_mem_nil member).elim
  | cons item rest ih =>
    rw [mapM_cons] at found
    obtain ⟨row, isRow, found⟩ := bind_eq_some_iff.mp found
    obtain ⟨others, areRows, found⟩ := bind_eq_some_iff.mp found
    cases found
    obtain ⟨itemNeedless, restNeedless⟩ := needless_cons needless
    obtain ⟨itemPlain, restPlain⟩ := plain
    intro other member
    rcases mem_cons.mp member with rfl | later
    · cases item with
      | list items | tuple items =>
        cases isRow
        exact ⟨itemNeedless, itemPlain⟩
      | _ => cases isRow
    · exact ih areRows restNeedless restPlain other later

mutual

theorem hostUnpackData_raw (rt : Runtime) (value : ScriptValue)
    (needless : containerHasPackableNested value = false) :
    hostUnpackData rt value = .ok value := by
  cases value with
  | list items | tuple items =>
    rw [hostUnpackData, hostUnpackItems_raw rt items needless]
    rfl
  | dict | splitGrid => cases needless
  | none | bool | int | float | str => rfl

theorem hostUnpackItems_raw (rt : Runtime) (items : List ScriptValue)
    (needless : needsElementwisePack items = false) :
    hostUnpackItems rt items = .ok items := by
  cases items with
  | nil => rfl
  | cons item rest =>
    obtain ⟨itemNeedless, restNeedless⟩ := needless_cons needless
    rw [hostUnpackItems, hostUnpackData_raw rt item itemNeedless,
      hostUnpackItems_raw rt rest restNeedless]
    rfl

end

theorem hostUnpackItems_rows (rt : Runtime)
    (needless : ∀ row ∈ rows, needsElementwisePack row = false) :
    hostUnpackItems rt (rows.map .list) = .ok (rows.map .list) := by
  apply hostUnpackItems_raw
  induction rows with
  | nil => rfl
  | cons row rest ih =>
    apply Bool.or_eq_false_iff.mpr
    exact ⟨needless row mem_cons_self,
      ih fun other later => needless other (mem_cons_of_mem row later)⟩

def ScriptValue.text? : ScriptValue → Option Text
  | .str s => some s
  | _ => Option.none

theorem text?_of_childPackResult {packed : ScriptValue}
    (isPacked : childPackResult rt policy value = .ok packed) :
    packed.text? = value.text? := by
  have ofMap : ∀ {α : Type} {result : Except FlattenError α}
      {build : α → ScriptValue}, (∀ a, (build a).text? = none) →
      result.map build = .ok packed → packed.text? = none := by
    intro α result build untexted built
    cases result with
    | error error => cases built
    | ok a =>
      cases built
      exact untexted a
  have ofRows : ∀ rows, packRows rt policy rows = .ok packed → packed.text? = none := by
    intro rows built
    unfold packRows at built
    split at built
    · exact ofMap (fun _ => rfl) built
    · cases built
      rfl
  have ofFlat : ∀ items, packFlat rt policy items = .ok packed → packed.text? = none := by
    intro items built
    unfold packFlat at built
    split at built
    · exact ofMap (fun _ => rfl) built
    · cases built
      rfl
  cases value with
  | dict entries => exact ofMap (fun _ => rfl) isPacked
  | list items | tuple items =>
    rw [childPackResult] at isPacked
    split at isPacked
    · exact ofMap (fun _ => rfl) isPacked
    · exact ofRows _ isPacked
    · exact ofFlat _ isPacked
  | none | bool b | int n | float x | str s | splitGrid envelope =>
    cases isPacked
    rfl

theorem hasTag_eq (entries : Entries) (tag : String) : hasTag entries tag =
      ((PyDict.lookup payloadKey entries).bind ScriptValue.text? == some tag.toList) := by
  unfold hasTag
  cases PyDict.lookup payloadKey entries with
  | none => rfl
  | some value =>
    cases value with
    | str s => rfl
    | _ => rfl

theorem childPackEntries_cons {key : Text} {rest : Entries}
    (isPacked : childPackEntries rt policy ((key, value) :: rest) = .ok packed) :
    ∃ first others, childPackResult rt policy value = .ok first ∧
      childPackEntries rt policy rest = .ok others ∧
      packed = (key, first) :: others := by
  rw [childPackEntries] at isPacked
  cases one : childPackResult rt policy value with
  | error error =>
    rw [one] at isPacked
    cases isPacked
  | ok first =>
    cases all : childPackEntries rt policy rest with
    | error error =>
      rw [one, all] at isPacked
      cases isPacked
    | ok others =>
      rw [one, all] at isPacked
      cases isPacked
      exact ⟨first, others, rfl, rfl, rfl⟩

theorem hasTag_childPackEntries
    (isPacked : childPackEntries rt policy entries = .ok packed) (tag : String) :
    hasTag packed tag = hasTag entries tag := by
  rw [hasTag_eq, hasTag_eq]
  congr 1
  induction entries generalizing packed with
  | nil =>
    cases isPacked
    rfl
  | cons entry rest ih =>
    obtain ⟨key, value⟩ := entry
    obtain ⟨first, others, one, all, rfl⟩ := childPackEntries_cons isPacked
    by_cases isKey : key = payloadKey
    · simp only [PyDict.lookup, isKey, if_true, bind_some]
      exact text?_of_childPackResult one
    · simp only [PyDict.lookup, isKey, if_false]
      exact ih all

theorem unpackDict_of_untagged (rt : Runtime) (untagged : Untagged entries)
    (fields : List (Text × Except PyError ScriptValue)) :
    unpackDict rt entries fields = (unpackedEntries fields).map .dict := by
  have calcRange := untagged "calc_range" (by simp)
  have multiData := untagged "multi_data" (by simp)
  have splitGrid := untagged "split_grid" (by simp)
  have dataframe := untagged "dataframe" (by simp)
  simp [unpackDict, isCalcRangePayload, isMultiData, isTextSplitGrid,
    isDataframePayload, calcRange, multiData, splitGrid, dataframe]

/-- A comparison of values that goes through lists, tuples and
dictionaries. -/
structure Respects (R : ScriptValue → ScriptValue → Prop) : Prop where
  refl : ∀ value, Plain value → R value value
  list : ∀ {left right}, List.Forall₂ R left right → R (.list left) (.list right)
  tuple : ∀ {left right}, List.Forall₂ R left right → R (.tuple left) (.tuple right)
  dict : ∀ {left right : Entries}, left.map Prod.fst = right.map Prod.fst →
    List.Forall₂ R (left.map Prod.snd) (right.map Prod.snd) →
    R (.dict left) (.dict right)

/-- Packed grids are read back as what the comparison asks for. -/
structure ReadsGrids (rt : Runtime) (policy : PackPolicy) (R : ScriptValue → ScriptValue → Prop)
    (holds : List (List ScriptValue) → Prop) : Prop where
  rows : ∀ rows : List (List ScriptValue), rows ≠ [] →
    shouldUseBinaryEnvelope (rowsShape rows) policy = true → holds rows →
    (∀ row ∈ rows, needsElementwisePack row = false ∧ PlainItems row) →
    ∃ envelope grid, hostPackObjects rt (objectRows rt rows) = .ok envelope ∧
      hostUnpackSplitGrid envelope = .ok grid ∧
      R (.list (rows.map fun row => .list (row.map ScriptValue.blank))) (.ofGrid grid)
  flat : ∀ items : List ScriptValue,
    shouldUseBinaryEnvelope [items.length] policy = true → holds [items] →
    needsElementwisePack items = false → PlainItems items →
    ∃ envelope grid, hostPackObjects rt (.flat (items.map (ScriptValue.gridCell rt))) =
        .ok envelope ∧
      hostUnpackSplitGrid envelope = .ok grid ∧
      R (.list (items.map ScriptValue.blank)) (.ofGrid grid)

section Induction

variable {rt : Runtime} {policy : PackPolicy}
  {R : ScriptValue → ScriptValue → Prop}
  {holds : List (List ScriptValue) → Prop}

def EgressOf (rt : Runtime) (policy : PackPolicy)
    (R : ScriptValue → ScriptValue → Prop) (value expected : ScriptValue) :
    Prop :=
  ∃ packed back, childPackResult rt policy value = .ok packed ∧
    hostUnpackData rt packed = .ok back ∧ R expected back

theorem packFlat_back (respects : Respects R) (reads : ReadsGrids rt policy R holds)
    (isFlat : listShape items = .flat) (plain : PlainItems items)
    (grids : shouldUseBinaryEnvelope [items.length] policy = true →       holds [items]) :
    ∃ packed back, packFlat rt policy items = .ok packed ∧ hostUnpackData rt packed = .ok back ∧
      R (.list (egressCells (shouldUseBinaryEnvelope [items.length] policy) items)) back := by
  have needless := listShape_flat isFlat
  unfold packFlat egressCells
  cases packs : shouldUseBinaryEnvelope [items.length] policy with
  | true =>
    obtain ⟨envelope, grid, packed, unpacked, same⟩ :=
      reads.flat items packs (grids packs) needless plain
    refine ⟨.splitGrid envelope, .ofGrid grid, ?_, ?_, same⟩
    · rw [packed]
      rfl
    · rw [hostUnpackData, unpacked]
      rfl
  | false =>
    refine ⟨.list items, .list items, rfl, ?_, respects.refl (.list items) plain⟩
    exact hostUnpackData_raw rt (.list items) needless

theorem packRows_back (respects : Respects R) (reads : ReadsGrids rt policy R holds)
    (isRows : listShape items = .rows rows) (plain : PlainItems items)
    (grids : shouldUseBinaryEnvelope (rowsShape rows) policy = true → holds rows) :
    ∃ packed back, packRows rt policy rows = .ok packed ∧ hostUnpackData rt packed = .ok back ∧
      R (.list (rows.map fun row => .list (egressCells
        (shouldUseBinaryEnvelope (rowsShape rows) policy) row))) back := by
  obtain ⟨needless, found, nonempty⟩ := listShape_rows isRows
  have each := rows_of_mapM found needless plain
  unfold packRows egressCells
  cases packs : shouldUseBinaryEnvelope (rowsShape rows) policy with
  | true =>
    obtain ⟨envelope, grid, packed, unpacked, same⟩ :=
      reads.rows rows nonempty packs (grids packs) each
    refine ⟨.splitGrid envelope, .ofGrid grid, ?_, ?_, same⟩
    · rw [packed]
      rfl
    · rw [hostUnpackData, unpacked]
      rfl
  | false =>
    refine ⟨.list (rows.map .list), .list (rows.map .list), rfl, ?_, ?_⟩
    · rw [hostUnpackData, hostUnpackItems_rows rt fun row member => (each row member).1]
      rfl
    · apply respects.refl
      apply plainItems_iff.mpr
      intro item member
      obtain ⟨row, isRow, rfl⟩ := mem_map.mp member
      exact (each row isRow).2

mutual

theorem egress_value (respects : Respects R) (reads : ReadsGrids rt policy R holds)
    (value : ScriptValue) (plain : Plain value) (grids : PackedGrids policy holds value) :
    EgressOf rt policy R value (egressValue policy value) := by
  cases value with
  | dict entries =>
    obtain ⟨packed, back, isPacked, isBack, sameKeys, same⟩ :=
      egress_entries respects reads entries plain.2 grids
    have untagged : Untagged packed := by
      intro tag member
      rw [hasTag_childPackEntries isPacked]
      exact plain.1 tag member
    refine ⟨.dict packed, .dict back, ?_, ?_, respects.dict sameKeys same⟩
    · rw [childPackResult, isPacked]
      rfl
    · rw [hostUnpackData, unpackDict_of_untagged rt untagged, isBack]
      rfl
  | list items | tuple items =>
    unfold EgressOf
    rw [childPackResult, egressValue]
    rw [PackedGrids] at grids
    cases shape : listShape items with
    | elementwise =>
      rw [shape] at grids
      obtain ⟨packed, back, isPacked, isBack, same⟩ :=
        egress_items respects reads items plain grids
      simp only [isPacked]
      refine ⟨_, _, rfl, ?_, by
        first | exact respects.list same | exact respects.tuple same⟩
      rw [hostUnpackData, isBack]
      rfl
    | rows rows =>
      rw [shape] at grids
      exact packRows_back respects reads shape plain grids
    | flat =>
      rw [shape] at grids
      exact packFlat_back respects reads shape plain grids
  | splitGrid envelope => cases plain
  | none | bool b | int n | float x | str s => exact ⟨_, _, rfl, rfl, respects.refl _ plain⟩

theorem egress_items (respects : Respects R) (reads : ReadsGrids rt policy R holds)
    (items : List ScriptValue) (plain : PlainItems items) (grids : PackedItems policy holds items) :
    ∃ packed back, childPackItems rt policy items = .ok packed ∧
      hostUnpackItems rt packed = .ok back ∧
      List.Forall₂ R (egressItems policy items) back := by
  cases items with
  | nil => exact ⟨[], [], rfl, rfl, .nil⟩
  | cons item rest =>
    obtain ⟨first, firstBack, firstPacked, firstUnpacked, firstSame⟩ :=
      egress_value respects reads item plain.1 grids.1
    obtain ⟨others, othersBack, othersPacked, othersUnpacked, othersSame⟩ :=
      egress_items respects reads rest plain.2 grids.2
    refine ⟨first :: others, firstBack :: othersBack, ?_, ?_, .cons firstSame othersSame⟩
    · rw [childPackItems, firstPacked, othersPacked]
      rfl
    · rw [hostUnpackItems, firstUnpacked, othersUnpacked]
      rfl

theorem egress_entries (respects : Respects R)
    (reads : ReadsGrids rt policy R holds) (entries : Entries)
    (plain : PlainEntries entries)
    (grids : PackedEntries policy holds entries) :
    ∃ packed back, childPackEntries rt policy entries = .ok packed ∧
      unpackedEntries (hostUnpackFields rt packed) = .ok back ∧
      (egressEntries policy entries).map Prod.fst = back.map Prod.fst ∧
      List.Forall₂ R ((egressEntries policy entries).map Prod.snd) (back.map Prod.snd) := by
  cases entries with
  | nil => exact ⟨[], [], rfl, rfl, rfl, .nil⟩
  | cons entry rest =>
    obtain ⟨key, value⟩ := entry
    obtain ⟨first, firstBack, firstPacked, firstUnpacked, firstSame⟩ :=
      egress_value respects reads value plain.1 grids.1
    obtain ⟨others, othersBack, othersPacked, othersUnpacked, sameKeys,
      othersSame⟩ := egress_entries respects reads rest plain.2 grids.2
    refine ⟨(key, first) :: others, (key, firstBack) :: othersBack, ?_, ?_,
      congrArg (key :: ·) sameKeys, .cons firstSame othersSame⟩
    · rw [childPackEntries, firstPacked, othersPacked]
      rfl
    · rw [hostUnpackFields, unpackedEntries, firstUnpacked, othersUnpacked]
      rfl

end

end Induction

end WriterAgent.Scripting
