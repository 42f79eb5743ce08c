import WriterAgent.Scripting.EgressReading

/-!
# Results with and without split grids

A result that is packed in part is read back as the one that is not packed,
but for what a split grid has no place for.
-/

namespace WriterAgent.Scripting

open PyText List

variable {policy : PackPolicy} {value : ScriptValue} {rt : Runtime}
  {holds : List (List ScriptValue) → Prop} {rows : List (List ScriptValue)}
  {items : List ScriptValue}

mutual

theorem same_refl (value : ScriptValue) (plain : Plain value) : Same value value := by
  cases value with
  | none => exact .none
  | bool | int => exact .number rfl rfl
  | float x =>
    cases x with
    | nan => exact .notANumber
    | infinite | finite => exact .number rfl rfl
  | str s => exact .str s
  | list items => exact .list (same_refl_items items plain)
  | tuple items => exact .tuple (same_refl_items items plain)
  | dict entries => exact .dict rfl (same_refl_entries entries plain.2)
  | splitGrid envelope => cases plain

theorem same_refl_items (items : List ScriptValue)
    (plain : PlainItems items) : List.Forall₂ Same items items := by
  cases items with
  | nil => exact .nil
  | cons item rest => exact .cons (same_refl item plain.1) (same_refl_items rest plain.2)

theorem same_refl_entries (entries : Entries) (plain : PlainEntries entries) :
    List.Forall₂ Same (entries.map Prod.snd) (entries.map Prod.snd) := by
  cases entries with
  | nil => exact .nil
  | cons entry rest =>
    obtain ⟨key, value⟩ := entry
    exact .cons (same_refl value plain.1) (same_refl_entries rest plain.2)

end

theorem respects_same : Respects Same :=
  ⟨same_refl, .list, .tuple, .dict⟩

theorem respects_eq : Respects Eq where
  refl := fun _ _ => rfl
  list := fun same => congrArg _ (forall₂_eq_eq_eq ▸ same)
  tuple := fun same => congrArg _ (forall₂_eq_eq_eq ▸ same)
  dict := by
    intro left right sameKeys same
    have sameValues : left.map Prod.snd = right.map Prod.snd :=
      forall₂_eq_eq_eq ▸ same
    have sameEntries : left = right :=
      (zip_of_prod sameKeys sameValues).trans (zip_of_prod rfl rfl).symm
    exact congrArg _ sameEntries

theorem number_ofCell (cell : Cell) : (ScriptValue.ofCell cell).number = cell.number := by
  cases cell with
  | float x => cases x <;> rfl
  | _ => rfl

theorem exact_textCell (rt : Runtime) (plain : Plain value) : (value.textCell rt).Exact := by
  intro n isInt
  cases value with
  | int m =>
    cases isInt
    exact plain
  | _ => cases isInt

theorem same_of_givesBack {back : Cell} (plain : Plain value) (single : value.row? = none)
    (needless : containerHasPackableNested value = false)
    (gives : GivesBack (value.textCell rt) back) :
    Same value.blank (.ofCell back) := by
  cases value with
  | none =>
    rw [show back = .float .nan from gives]
    exact .notANumber
  | str s =>
    rw [show back = .str s from gives]
    exact .str s
  | bool b | int n => exact .number rfl ((number_ofCell back).trans gives)
  | float x =>
    cases x with
    | nan => exact absurd rfl plain
    | infinite negative => exact .number rfl ((number_ofCell back).trans gives)
    | finite q => exact .number rfl ((number_ofCell back).trans gives)
  | list | tuple => cases single
  | dict | splitGrid => cases needless

theorem same_row {row : List ScriptValue} {back : List Cell} (plain : PlainItems row)
    (needless : needsElementwisePack row = false) (single : ∀ value ∈ row, value.row? = none)
    (gives : List.Forall₂ GivesBack (row.map (ScriptValue.textCell rt)) back) :
    List.Forall₂ Same (row.map ScriptValue.blank) (back.map ScriptValue.ofCell) := by
  induction row generalizing back with
  | nil =>
    cases gives
    exact .nil
  | cons value rest ih =>
    cases gives with
    | cons first later =>
      obtain ⟨valueNeedless, restNeedless⟩ := needless_cons needless
      exact .cons (same_of_givesBack plain.1 (single value mem_cons_self) valueNeedless first)
        (ih plain.2 restNeedless (fun other inRest =>
            single other (mem_cons_of_mem value inRest)) later)

theorem same_rows {back : List (List Cell)}
    (each : ∀ row ∈ rows, needsElementwisePack row = false ∧ PlainItems row)
    (single : ∀ row ∈ rows, ∀ value ∈ row, value.row? = none)
    (gives : List.Forall₂ (List.Forall₂ GivesBack)
      (rows.map (·.map (ScriptValue.textCell rt))) back) :
    List.Forall₂ Same (rows.map fun row => .list (row.map ScriptValue.blank))
      (back.map fun row => .list (row.map ScriptValue.ofCell)) := by
  induction rows generalizing back with
  | nil =>
    cases gives
    exact .nil
  | cons row rest ih =>
    cases gives with
    | cons first later =>
      obtain ⟨needless, plain⟩ := each row mem_cons_self
      exact .cons (.list (same_row plain needless (single row mem_cons_self) first))
        (ih (fun other inRest =>
            each other (mem_cons_of_mem row inRest))
          (fun other inRest =>
            single other (mem_cons_of_mem row inRest)) later)

theorem readsGrids_same (rt : Runtime) (policy : PackPolicy) :
    ReadsGrids rt policy Same FlatCells where
  rows := by
    intro rows nonempty packs flatCells each
    cases rows with
    | nil => exact absurd rfl nonempty
    | cons first rest =>
      obtain ⟨envelope, firstBack, restBack, packed, unpacked, firstGives,
        restGives⟩ := hostPackObjects_rows rt first rest (fun row inRest => flatCells.even row
            (mem_cons_of_mem first inRest) first mem_cons_self)
          fun row isRow value inRow => exact_textCell rt
            (plainItems_iff.mp (each row isRow).2 value inRow)
      exact ⟨envelope, _, packed, unpacked,
        .list (same_rows each flatCells.noNested (.cons firstGives restGives))⟩
  flat := by
    intro items packs flatCells needless plain
    obtain ⟨envelope, back, packed, unpacked, gives⟩ :=
      hostPackObjects_flat rt items fun value member =>
        exact_textCell rt (plainItems_iff.mp plain value member)
    exact ⟨envelope, _, packed, unpacked, .list (same_row plain needless
      (flatCells.noNested items mem_cons_self) gives)⟩

theorem readsGrids_never (rt : Runtime) (minCells : ℤ) (holds : List (List ScriptValue) → Prop) :
    ReadsGrids rt ⟨minCells, .never⟩ Eq holds where
  rows := fun _ _ packs => by cases packs
  flat := fun _ packs => by cases packs

/-- Packing goes through where the rows are even and is refused elsewhere. -/
def EvenOrRefused {α : Type} (even : Prop) (result : Except FlattenError α) : Prop :=
  (even ∧ ∃ packed, result = .ok packed) ∨ (¬even ∧ ∃ message, result = .error (.uneven message))

theorem EvenOrRefused.map {α β : Type} {even : Prop} {result : Except FlattenError α}
    (decided : EvenOrRefused even result) (f : α → β) : EvenOrRefused even (result.map f) := by
  rcases decided with ⟨isEven, packed, rfl⟩ | ⟨uneven, message, rfl⟩
  · exact .inl ⟨isEven, _, rfl⟩
  · exact .inr ⟨uneven, message, rfl⟩

theorem EvenOrRefused.and {α β γ : Type} {even others : Prop} {first : Except FlattenError α}
    {rest : Except FlattenError β} (head : EvenOrRefused even first)
    (tail : EvenOrRefused others rest) (f : α → β → γ) :
    EvenOrRefused (even ∧ others) (first.bind fun a => rest.bind fun b => .ok (f a b)) := by
  rcases head with ⟨isEven, packed, rfl⟩ | ⟨uneven, message, rfl⟩
  · rcases tail with ⟨areEven, later, rfl⟩ | ⟨uneven, message, rfl⟩
    · exact .inl ⟨⟨isEven, areEven⟩, _, rfl⟩
    · exact .inr ⟨fun both => uneven both.2, message, rfl⟩
  · exact .inr ⟨fun both => uneven both.1, message, rfl⟩

theorem packRows_even_or_refused (rt : Runtime) (policy : PackPolicy)
    (plain : ∀ row ∈ rows, PlainItems row) :
    EvenOrRefused (shouldUseBinaryEnvelope (rowsShape rows) policy = true → EvenRows rows)
      (packRows rt policy rows) := by
  unfold packRows
  cases packs : shouldUseBinaryEnvelope (rowsShape rows) policy with
  | false => exact .inl ⟨nofun, _, rfl⟩
  | true =>
    cases rows with
    | nil => exact .inl ⟨fun _ row member => (not_mem_nil member).elim, _, rfl⟩
    | cons first rest =>
      by_cases even : ∀ row ∈ rest, row.length = first.length
      · obtain ⟨envelope, _, _, packed, _⟩ :=
          hostPackObjects_rows rt first rest even fun row isRow value inRow => exact_textCell rt
              (plainItems_iff.mp (plain row isRow) value inRow)
        refine .inl ⟨fun _ => ?_, .splitGrid envelope, ?_⟩
        · have width : ∀ row ∈ first :: rest, row.length = first.length := by
            intro row member
            rcases mem_cons.mp member with rfl | later
            · rfl
            · exact even row later
          intro row member other isOther
          exact (width row member).trans (width other isOther).symm
        · rw [packed]
          rfl
      · obtain ⟨message, refused⟩ :=
          hostPackObjects_uneven rt first rest even
        refine .inr ⟨fun isEven => even fun row inRest =>
          isEven rfl row (mem_cons_of_mem first inRest) first mem_cons_self, message, ?_⟩
        rw [refused]
        rfl

theorem packFlat_ok (rt : Runtime) (policy : PackPolicy) (plain : PlainItems items) :
    ∃ packed, packFlat rt policy items = .ok packed := by
  unfold packFlat
  split
  · obtain ⟨envelope, _, packed, _⟩ := hostPackObjects_flat rt items
      fun value member => exact_textCell rt (plainItems_iff.mp plain value member)
    rw [packed]
    exact ⟨_, rfl⟩
  · exact ⟨_, rfl⟩

theorem evenRows_singleton (items : List ScriptValue) : EvenRows [items] := by
  intro row member other isOther
  rw [mem_singleton.mp member, mem_singleton.mp isOther]

mutual

theorem pack_even_or_refused (rt : Runtime) (policy : PackPolicy)
    (value : ScriptValue) (plain : Plain value) :
    EvenOrRefused (PackedGrids policy EvenRows value) (childPackResult rt policy value) := by
  cases value with
  | dict entries =>
    rw [PackedGrids, childPackResult]
    exact (packEntries_even_or_refused rt policy entries plain.2).map _
  | list items | tuple items =>
    rw [PackedGrids, childPackResult]
    cases shape : listShape items with
    | elementwise => exact (packItems_even_or_refused rt policy items plain).map _
    | rows rows =>
      obtain ⟨needless, found, _⟩ := listShape_rows shape
      exact packRows_even_or_refused rt policy fun row isRow =>
        (rows_of_mapM found needless plain row isRow).2
    | flat => exact .inl ⟨fun _ => evenRows_singleton items, packFlat_ok rt policy plain⟩
  | splitGrid envelope => cases plain
  | none | bool b | int n | float x | str s => exact .inl ⟨trivial, _, rfl⟩

theorem packItems_even_or_refused (rt : Runtime) (policy : PackPolicy)
    (items : List ScriptValue) (plain : PlainItems items) :
    EvenOrRefused (PackedItems policy EvenRows items) (childPackItems rt policy items) := by
  cases items with
  | nil => exact .inl ⟨trivial, [], rfl⟩
  | cons item rest =>
    rw [childPackItems]
    exact (pack_even_or_refused rt policy item plain.1).and
      (packItems_even_or_refused rt policy rest plain.2) _

theorem packEntries_even_or_refused (rt : Runtime) (policy : PackPolicy)
    (entries : Entries) (plain : PlainEntries entries) :
    EvenOrRefused (PackedEntries policy EvenRows entries) (childPackEntries rt policy entries) := by
  cases entries with
  | nil => exact .inl ⟨trivial, [], rfl⟩
  | cons entry rest =>
    obtain ⟨key, value⟩ := entry
    rw [childPackEntries]
    exact (pack_even_or_refused rt policy value plain.1).and
      (packEntries_even_or_refused rt policy rest plain.2) _

end

mutual

theorem packedGrids_of_all (all : ∀ rows, holds rows) (value : ScriptValue) :
    PackedGrids policy holds value := by
  cases value with
  | dict entries => exact packedEntries_of_all all entries
  | list items | tuple items =>
    rw [PackedGrids]
    split
    · exact packedItems_of_all all items
    · exact fun _ => all _
    · exact fun _ => all _
  | _ => trivial

theorem packedItems_of_all (all : ∀ rows, holds rows) (items : List ScriptValue) :
    PackedItems policy holds items := by
  cases items with
  | nil => trivial
  | cons item rest => exact ⟨packedGrids_of_all all item, packedItems_of_all all rest⟩

theorem packedEntries_of_all (all : ∀ rows, holds rows) (entries : Entries) :
    PackedEntries policy holds entries := by
  cases entries with
  | nil => trivial
  | cons entry rest =>
    obtain ⟨key, value⟩ := entry
    exact ⟨packedGrids_of_all all value, packedEntries_of_all all rest⟩

end

theorem blank_of_ne (filled : value ≠ .none) : value.blank = value := by
  cases value with
  | none => exact absurd rfl filled
  | _ => rfl

theorem egressCells_of_noBlank {packed : Bool}
    (filled : packed = true → ∀ value ∈ items, value ≠ .none) :
    egressCells packed items = items := by
  cases packed with
  | false => rfl
  | true =>
    calc items.map ScriptValue.blank = items.map id := map_congr_left fun value member =>
          blank_of_ne (filled rfl value member)
      _ = items := map_id items

mutual

theorem egressValue_of_noBlank {minCells : ℤ} (value : ScriptValue)
    (filled : PackedGrids policy NoBlank value) :
    egressValue policy value = egressValue ⟨minCells, .never⟩ value := by
  cases value with
  | dict entries => exact congrArg _ (egressEntries_of_noBlank entries filled)
  | list items | tuple items =>
    rw [PackedGrids] at filled
    rw [egressValue, egressValue]
    cases shape : listShape items with
    | elementwise =>
      rw [shape] at filled
      exact congrArg _ (egressItems_of_noBlank items filled)
    | rows rows =>
      rw [shape] at filled
      refine congrArg ScriptValue.list (map_congr_left fun row isRow => ?_)
      exact congrArg _ (egressCells_of_noBlank fun packs => filled packs row isRow)
    | flat =>
      rw [shape] at filled
      exact congrArg _ (egressCells_of_noBlank fun packs =>
        filled packs items mem_cons_self)
  | _ => rfl

theorem egressItems_of_noBlank {minCells : ℤ} (items : List ScriptValue)
    (filled : PackedItems policy NoBlank items) :
    egressItems policy items = egressItems ⟨minCells, .never⟩ items := by
  cases items with
  | nil => rfl
  | cons item rest =>
    rw [egressItems, egressItems, egressValue_of_noBlank item filled.1,
      egressItems_of_noBlank rest filled.2]

theorem egressEntries_of_noBlank {minCells : ℤ} (entries : Entries)
    (filled : PackedEntries policy NoBlank entries) :
    egressEntries policy entries = egressEntries ⟨minCells, .never⟩ entries := by
  cases entries with
  | nil => rfl
  | cons entry rest =>
    obtain ⟨key, value⟩ := entry
    rw [egressEntries, egressEntries, egressValue_of_noBlank value filled.1,
      egressEntries_of_noBlank rest filled.2]

end

/-- The result of a script on the host, with and without packing: without, it
always arrives; with packing, uneven rows of a packed grid are refused, and
otherwise it arrives as well, with not-a-number for nothing in a cell of a
packed grid, and is the same where no such cell is empty. -/
theorem child_host_egress (rt : Runtime) (minCells : ℤ) (value : ScriptValue)
    (plain : Plain value) :
    EgressOf rt ⟨minCells, .never⟩ Eq value (egressValue ⟨minCells, .never⟩ value) ∧
      (PackedGrids ⟨minCells, .auto⟩ FlatCells value →
        EgressOf rt ⟨minCells, .auto⟩ Same value (egressValue ⟨minCells, .auto⟩ value)) ∧
      (PackedGrids ⟨minCells, .auto⟩ FlatCells value → PackedGrids ⟨minCells, .auto⟩ NoBlank value →
        EgressOf rt ⟨minCells, .auto⟩ Same value (egressValue ⟨minCells, .never⟩ value)) ∧
      (¬PackedGrids ⟨minCells, .auto⟩ EvenRows value →
        ∃ message, childPackResult rt ⟨minCells, .auto⟩ value = .error (.uneven message)) := by
  have packed : PackedGrids ⟨minCells, .auto⟩ FlatCells value →
      EgressOf rt ⟨minCells, .auto⟩ Same value (egressValue ⟨minCells, .auto⟩ value) :=
    egress_value respects_same (readsGrids_same rt _) value plain
  refine ⟨?_, packed, fun flatCells filled => ?_, fun uneven => ?_⟩
  · exact egress_value respects_eq (readsGrids_never rt minCells fun _ => True)
      value plain (packedGrids_of_all (fun _ => trivial) value)
  · rw [← egressValue_of_noBlank value filled]
    exact packed flatCells
  · rcases pack_even_or_refused rt ⟨minCells, .auto⟩ value plain with
      ⟨even, _⟩ | ⟨_, refused⟩
    · exact absurd even uneven
    · exact refused

/-- Whether the accelerator is there, and what is asked for besides, does not
matter here. -/
def bareRuntime : Runtime := ⟨true, true, fun _ => [], fun _ => .error .indexError⟩

def columnResult : ScriptValue :=
  .dict [("column".toList, .list [.int 3, .none, .str "a".toList])]

theorem child_host_egress_columnResult : Plain columnResult ∧
      EgressOf bareRuntime ⟨2, .auto⟩ Same columnResult (.dict [("column".toList,
          .list [.int 3, .float .nan, .str "a".toList])]) := by
  have plain : Plain columnResult := by
    refine ⟨?_, ?_, trivial⟩
    · intro tag member
      rfl
    · have small : |(3 : ℤ)| ≤ 2 ^ 53 := by decide
      exact ⟨small, trivial, trivial, trivial⟩
  have flatCells : FlatCells [[.int 3, .none, .str "a".toList]] := by
    refine ⟨evenRows_singleton _, ?_⟩
    intro row isRow value inRow
    rw [mem_singleton.mp isRow] at inRow
    simp only [mem_cons, not_mem_nil, or_false] at inRow
    rcases inRow with rfl | rfl | rfl <;> rfl
  exact ⟨plain, (child_host_egress bareRuntime 2 columnResult plain).2.1
    ⟨fun _ => flatCells, trivial⟩⟩

def unevenResult : ScriptValue :=
  .list [.list [.none], .list [.str "a".toList, .str "b".toList]]

def taggedResult : ScriptValue :=
  .dict [(payloadKey, .str "multi_data".toList), ("items".toList, .list [.list [.str "a".toList]])]

/-- Nothing becomes not-a-number, rows of two lengths are refused, and a
dictionary that looks like an envelope is one only while it is not packed. -/
theorem child_host_egress_differs :
    EgressOf bareRuntime ⟨1, .never⟩ Eq (.list [.none]) (.list [.none]) ∧
      EgressOf bareRuntime ⟨1, .auto⟩ Eq (.list [.none]) (.list [.float .nan]) ∧
      (EgressOf bareRuntime ⟨1, .never⟩ Eq unevenResult unevenResult ∧
        ∃ message, childPackResult bareRuntime ⟨1, .auto⟩ unevenResult = .error (.uneven message)) ∧
      EgressOf bareRuntime ⟨1, .never⟩ Eq taggedResult (.list [.list [.str "a".toList]]) ∧
      EgressOf bareRuntime ⟨1, .auto⟩ Eq taggedResult taggedResult := by
  refine ⟨⟨_, _, rfl, rfl, rfl⟩, ⟨_, _, rfl, rfl, rfl⟩, ?_, ?_⟩
  · exact ⟨⟨_, _, rfl, rfl, rfl⟩, _, rfl⟩
  · exact ⟨⟨_, _, rfl, rfl, rfl⟩, _, _, rfl, rfl, rfl⟩

end WriterAgent.Scripting
