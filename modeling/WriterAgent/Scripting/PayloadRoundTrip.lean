import WriterAgent.Scripting.PayloadFlatten

/-!
# Split grids are read back

The kind of a column is wide enough for the values in it, so each value can be
decoded by itself, whichever of the two decode paths the grid takes.
-/

namespace WriterAgent.Scripting

open PyText List

def Cell.number : Cell → Option Binary64
  | .bool b => some (floatOfBool b)
  | .int n => some (.finite n)
  | .float .nan => Option.none
  | .float x => some x
  | _ => Option.none

/-- What unpacking gives back for a cell: the same string, not-a-number for
nothing, and otherwise an equal number. -/
def GivesBack : Cell → Cell → Prop
  | .none, back => back = .float .nan
  | .str s, back => back = .str s
  | .float .nan, back => back = .float .nan
  | cell, back => back.number = cell.number

/-- Integers that a double holds exactly. -/
def Cell.Exact (cell : Cell) : Prop := ∀ n, cell = .int n → |n| ≤ 2 ^ 53

def Compatible (kind : ColumnKind) : Cell → Prop
  | .float _ => kind = .float
  | .int _ => kind ≠ .bool
  | _ => True

theorem intOfFloat_intCast (n : ℤ) : intOfFloat (.finite n) = .ok (.int n) := by
  rw [intOfFloat, Binary64.truncate_intCast]

theorem intOfFloat_floatOfBool (b : Bool) :
    intOfFloat (floatOfBool b) = .ok (.int (if b then 1 else 0)) := by
  have whole : floatOfBool b = .finite ((if b then 1 else 0 : ℤ) : ℚ) := by
    cases b <;> simp [floatOfBool]
  rw [whole, intOfFloat_intCast]

theorem Cell.toDouble_int {n : ℤ} (exact : (Cell.int n).Exact) :
    (Cell.int n).toDouble = .finite n :=
  Binary64.ofRat_intCast (exact n rfl)

variable {kind : ColumnKind} {cell : Cell} {strings : PyDict Nat Text} {i : Nat}
  {is1d : Bool} {done rest : List Cell}

theorem decodeMixed_givesBack (exact : cell.Exact)
    (found : strings.get? i = cell.text?) (compatible : Compatible kind cell) :
    ∃ back, decodeMixed strings kind i cell.toDouble = .ok back ∧ GivesBack cell back := by
  unfold decodeMixed
  rw [found]
  cases cell with
  | none => exact ⟨.float .nan, rfl, rfl⟩
  | str s => exact ⟨.str s, rfl, rfl⟩
  | float x =>
    obtain rfl : kind = .float := compatible
    cases x with
    | nan => exact ⟨.float .nan, rfl, rfl⟩
    | infinite negative => exact ⟨.float (.infinite negative), by simp
        [Cell.text?, Cell.toDouble, Binary64.isNan], rfl⟩
    | finite q => exact ⟨.float (.finite q), by simp
        [Cell.text?, Cell.toDouble, Binary64.isNan], rfl⟩
  | int n =>
    have notBool : kind ≠ .bool := compatible
    rw [Cell.toDouble_int exact]
    cases kind with
    | bool => exact absurd rfl notBool
    | int => exact ⟨.int n, by simp [Cell.text?, Binary64.isNan, intOfFloat_intCast], rfl⟩
    | float => exact ⟨.float (.finite n), by simp [Cell.text?, Binary64.isNan], rfl⟩
  | bool b =>
    have number : (floatOfBool b).isNan = false := rfl
    cases kind with
    | bool =>
      refine ⟨.bool b, ?_, rfl⟩
      cases b <;> simp [Cell.text?, Cell.toDouble, floatOfBool, Binary64.isNan]
    | int =>
      refine ⟨.int (if b then 1 else 0), ?_, ?_⟩
      · simp [Cell.text?, Cell.toDouble, number, intOfFloat_floatOfBool]
      · cases b <;> simp [GivesBack, Cell.number, floatOfBool]
    | float => exact ⟨.float (floatOfBool b), by simp [Cell.text?, Cell.toDouble, number], rfl⟩

theorem decodeUniform_eq_decodeMixed (absent : strings.get? i = none)
    (compatible : Compatible kind cell) (exact : cell.Exact) :
    decodeUniform kind cell.toDouble = decodeMixed strings kind i cell.toDouble := by
  unfold decodeUniform decodeMixed
  rw [absent]
  cases kind with
  | int =>
    cases number : cell.toDouble.isNan with
    | true => cases value : cell.toDouble <;> simp_all [Binary64.isNan]
    | false => simp
  | float => simp
  | bool =>
    cases cell with
    | none | str => rfl
    | float x | int n => exact absurd compatible (by simp [Compatible])
    | bool b => cases b <;>
        simp [Cell.toDouble, floatOfBool, Binary64.isNan]

theorem compatible_columnKind {noStr hasNone : Bool} {state : Nat}
    (float : ∀ x, cell = .float x → state = 3) (int : ∀ n, cell = .int n → 2 ≤ state) :
    Compatible (columnKind noStr state hasNone) cell := by
  unfold columnKind
  split
  · cases cell <;> simp [Compatible]
  · cases cell with
    | none | bool | str => trivial
    | float x => simp [Compatible, float x rfl]
    | int n =>
      have high := int n rfl
      have notBool : state ≠ 1 := by omega
      simp only [Compatible, notBool, if_false]
      split <;> simp

def Flattened.kinds (st : Flattened) : List ColumnKind :=
  List.zipWith (columnKind (noStrings st.strings)) st.columnStates st.columnHasNone

section Recorded

variable {w : Nat} {cells : List Cell} {st : Flattened}

theorem Recorded.length_kinds (recorded : Recorded w cells st) : st.kinds.length = w := by
  rw [Flattened.kinds, length_zipWith, recorded.statesLength, recorded.noneLength, Nat.min_self]

theorem Recorded.kind_at (recorded : Recorded w cells st) (positive : 0 < w)
    {k : Nat} (found : cells[k]? = some cell) :
    ∃ kind, st.kinds[k % w]? = some kind ∧ Compatible kind cell := by
  have inside := Nat.mod_lt k positive
  obtain ⟨state, stateAt⟩ : ∃ state, st.columnStates[k % w]? = some state :=
    ⟨_, List.getElem?_eq_getElem (by rw [recorded.statesLength]; exact inside)⟩
  obtain ⟨hasNone, noneAt⟩ : ∃ hasNone, st.columnHasNone[k % w]? = some hasNone :=
    ⟨_, List.getElem?_eq_getElem (by rw [recorded.noneLength]; exact inside)⟩
  refine ⟨columnKind (noStrings st.strings) state hasNone, ?_, compatible_columnKind ?_ ?_⟩
  · rw [Flattened.kinds, List.getElem?_zipWith, stateAt, noneAt]
  · rintro x rfl
    have float := recorded.floats k x found
    rw [stateAt] at float
    exact Option.some.inj float
  · rintro n rfl
    obtain ⟨own, ownAt, high⟩ := recorded.ints k n found
    rw [stateAt] at ownAt
    exact Option.some.inj ownAt ▸ high

theorem cellKind_of_kind {kinds : List ColumnKind} (positive : 0 < w)
    (single : is1d = true → w = 1) (found : kinds[i % w]? = some kind) :
    cellKind kinds is1d w i = .ok kind := by
  unfold cellKind
  cases is1d with
  | true =>
    rw [single rfl, Nat.mod_one] at found
    simp [found]
  | false => simp [Nat.ne_of_gt positive, found]

section

variable (recorded : Recorded w cells st) (single : is1d = true → w = 1)
  (positive : cells ≠ [] → 0 < w) (exact : ∀ cell ∈ cells, cell.Exact)

include recorded single positive exact

theorem Recorded.decodeMixedFrom_givesBack (split : cells = done ++ rest) :
    ∃ back, decodeMixedFrom st.strings st.kinds is1d w done.length
        (rest.map Cell.toDouble) = .ok back ∧
      List.Forall₂ GivesBack rest back := by
  induction rest generalizing done with
  | nil => exact ⟨[], rfl, List.Forall₂.nil⟩
  | cons cell rest ih =>
    have wide := positive (by simp [split])
    have found : cells[done.length]? = some cell := by
      rw [split, List.getElem?_append_right le_rfl, Nat.sub_self]
      rfl
    obtain ⟨kind, kindAt, compatible⟩ := recorded.kind_at wide found
    have text : st.strings.get? done.length = cell.text? := by
      rw [recorded.strings, found]
      rfl
    obtain ⟨back, decoded, same⟩ := decodeMixed_givesBack
      (exact cell (by simp [split])) text compatible
    obtain ⟨others, decodedRest, sameRest⟩ :=
      @ih (done ++ [cell]) (by simp [split])
    refine ⟨back :: others, ?_, List.Forall₂.cons same sameRest⟩
    rw [length_append, length_singleton] at decodedRest
    rw [map_cons, decodeMixedFrom, cellKind_of_kind wide single kindAt, decodedRest]
    change (decodeMixed st.strings kind done.length cell.toDouble).bind _ = _
    rw [decoded]
    rfl

theorem Recorded.mapM_decodeUniform (uniform : ∀ other ∈ st.kinds, other = kind)
    (none : ∀ k, st.strings.get? k = none) (split : cells = done ++ rest) :
    (rest.map Cell.toDouble).mapM (decodeUniform kind) =
      decodeMixedFrom st.strings st.kinds is1d w done.length (rest.map Cell.toDouble) := by
  induction rest generalizing done with
  | nil => rfl
  | cons cell rest ih =>
    have wide := positive (by simp [split])
    have found : cells[done.length]? = some cell := by
      rw [split, List.getElem?_append_right le_rfl, Nat.sub_self]
      rfl
    obtain ⟨own, kindAt, compatible⟩ := recorded.kind_at wide found
    obtain rfl := uniform own (mem_of_getElem? kindAt)
    have tail := @ih (done ++ [cell]) (by simp [split])
    rw [length_append] at tail
    rw [map_cons, mapM_cons, tail, decodeMixedFrom, cellKind_of_kind wide single kindAt,
      decodeUniform_eq_decodeMixed (none done.length) compatible (exact cell (by simp [split]))]
    rfl

end

theorem noStrings_get? (empty : noStrings strings = true) (k : Nat) : strings.get? k = none := by
  rw [noStrings, List.isEmpty_iff] at empty
  rw [PyDict.get?, empty]
  rfl

theorem uniformColumnKind_spec {kinds : List ColumnKind}
    (uniform : uniformColumnKind kinds = some kind) :
    ∀ other ∈ kinds, other = kind := by
  cases kinds with
  | nil => simp [uniformColumnKind] at uniform
  | cons first rest =>
    simp only [uniformColumnKind] at uniform
    split at uniform
    · rename_i all
      obtain rfl := Option.some.inj uniform
      intro other member
      rcases mem_cons.mp member with rfl | later
      · rfl
      · rw [all_eq_true] at all
        simpa using all other later
    · simp at uniform

theorem Recorded.decodeFlat_givesBack (recorded : Recorded w cells st)
    (is1d : Bool) (single : is1d = true → w = 1)
    (positive : cells ≠ [] → 0 < w) (exact : ∀ cell ∈ cells, cell.Exact) :
    ∃ back, decodeFlat st.strings st.kinds is1d w (cells.map Cell.toDouble) =
        .ok back ∧ List.Forall₂ GivesBack cells back := by
  have mixed := recorded.decodeMixedFrom_givesBack single positive exact
    (nil_append cells).symm
  unfold decodeFlat
  split
  · rename_i kind empty uniform
    rw [recorded.mapM_decodeUniform single positive exact
      (uniformColumnKind_spec uniform) (noStrings_get? empty)
      (nil_append cells).symm]
    exact mixed
  · exact mixed

end Recorded

theorem cutRows_succ (flat : List Cell) (nrows ncols : Nat) : cutRows flat (nrows + 1) ncols =
      flat.take ncols :: cutRows (flat.drop ncols) nrows ncols := by
  rw [cutRows, range_succ_eq_map, map_cons, map_map]
  congr 1
  · simp [slice]
  · apply map_congr_left
    intro r _
    have width : (r + 1 + 1) * ncols - (r + 1) * ncols = (r + 1) * ncols - r * ncols := by
      rw [← Nat.sub_mul, ← Nat.sub_mul]
      congr 1
      omega
    simp only [Function.comp_apply, Nat.succ_eq_add_one, slice, drop_drop, width]
    rw [Nat.succ_mul, Nat.add_comm]

theorem cutRows_givesBack {w : Nat} {rows : List (List Cell)} {back : List Cell}
    (even : ∀ row ∈ rows, row.length = w) (same : List.Forall₂ GivesBack rows.flatten back) :
    List.Forall₂ (List.Forall₂ GivesBack) rows (cutRows back rows.length w) := by
  induction rows generalizing back with
  | nil => exact List.Forall₂.nil
  | cons row rest ih =>
    have width := even row mem_cons_self
    have first := forall₂_take w same
    have later := forall₂_drop w same
    rw [flatten_cons, ← width, take_left] at first
    rw [flatten_cons, ← width, drop_left] at later
    rw [length_cons, cutRows_succ]
    constructor
    · rwa [width] at first
    · rw [width] at later
      exact ih (fun other member =>
        even other (mem_cons_of_mem _ member)) later

/-- The grid that comes back has the same shape and gives back every cell. -/
inductive GridGivesBack : Grid → Grid → Prop where
  | flat {cells back : List Cell} (same : List.Forall₂ GivesBack cells back) :
      GridGivesBack (.flat cells) (.flat back)
  | nested {first firstBack : List Cell} {rest restBack : List (List Cell)}
      (firstSame : List.Forall₂ GivesBack first firstBack)
      (restSame : List.Forall₂ (List.Forall₂ GivesBack) rest restBack) :
      GridGivesBack (.nested first rest) (.nested firstBack restBack)

theorem gridGivesBack_ofRows {first : List Cell} {rest back : List (List Cell)}
    (same : List.Forall₂ (List.Forall₂ GivesBack) (first :: rest) back) :
    GridGivesBack (.nested first rest) (.ofRows back) := by
  cases same with
  | cons firstSame restSame => exact .nested firstSame restSame

theorem hostUnpackSplitGrid_recorded {grid : Grid} {st : Flattened} (even : grid.Rectangular)
    (exact : ∀ cell ∈ grid.cells, cell.Exact) (recorded : Recorded grid.ncols grid.cells st)
    (buf : st.buf = grid.cells.map Cell.toDouble) :
    ∃ back, hostUnpackSplitGrid ⟨st.kinds, grid.shape, st.strings, st.buf⟩ =
        .ok back ∧ GridGivesBack grid back := by
  have positive := Grid.ncols_pos even
  have kinds : ∀ envelope : Envelope, envelope.columnKinds = st.kinds →
      envelopeColumnKinds envelope grid.ncols = st.kinds := by
    intro envelope same
    rw [envelopeColumnKinds, same, if_pos recorded.length_kinds]
  cases grid with
  | flat cells =>
    obtain ⟨back, decoded, same⟩ := recorded.decodeFlat_givesBack true (fun _ => rfl) positive exact
    refine ⟨.flat back, ?_, .flat same⟩
    have kindsEq := kinds ⟨st.kinds, [cells.length], st.strings, st.buf⟩ rfl
    simp only [Grid.ncols, Grid.cells] at decoded kindsEq buf
    simp only [hostUnpackSplitGrid, Grid.shape, kindsEq]
    rw [buf, decoded]
    rfl
  | nested first rest =>
    obtain ⟨back, decoded, same⟩ := recorded.decodeFlat_givesBack false (by simp) positive exact
    have cut := cutRows_givesBack (w := first.length) (by
      intro row member
      rcases mem_cons.mp member with rfl | later
      · rfl
      · exact even row later) same
    refine ⟨_, ?_, gridGivesBack_ofRows cut⟩
    have kindsEq := kinds ⟨st.kinds, [(first :: rest).length, first.length], st.strings, st.buf⟩ rfl
    simp only [Grid.ncols, Grid.cells] at decoded kindsEq buf
    simp only [hostUnpackSplitGrid, Grid.shape, kindsEq]
    rw [buf, decoded]
    rfl

/-- **Round trip.** An even grid of cells is given back, whichever pass
flattens it; uneven rows raise a `ValueError`. -/
theorem hostUnpack_hostPack (accelerated : Bool) (grid : Grid) :
    (grid.Rectangular → (∀ cell ∈ grid.cells, cell.Exact) →
      ∃ envelope back, hostPackSplitGrid accelerated grid = .ok envelope ∧
        hostUnpackSplitGrid envelope = .ok back ∧ GridGivesBack grid back) ∧
    (¬ grid.Rectangular → ∃ message,
        hostPackSplitGrid accelerated grid = .error (.valueError message)) := by
  constructor
  · intro even exact
    by_cases empty : grid = .flat []
    · subst empty
      exact ⟨⟨[], [0], PyDict.empty, []⟩, .flat [], rfl, rfl, .flat List.Forall₂.nil⟩
    · obtain ⟨st, passed, recorded, buf⟩ :=
        flattenPass_of_rectangular accelerated even
      obtain ⟨back, unpacked, same⟩ :=
        hostUnpackSplitGrid_recorded even exact recorded buf
      refine ⟨_, back, ?_, unpacked, same⟩
      rw [hostPackSplitGrid, if_neg empty, flattenGridToComponents, passed]
      rfl
  · intro uneven
    have nonempty : grid ≠ .flat [] := by
      rintro rfl
      exact uneven trivial
    obtain ⟨message, failed⟩ := flattenPass_of_uneven accelerated uneven
    refine ⟨message, ?_⟩
    rw [hostPackSplitGrid, if_neg nonempty, flattenGridToComponents, failed]
    rfl

/-- A column of numbers and nothing, and one of a string and a truth value. -/
def mixedGrid : Grid := .nested [.int 3, .str "a".toList] [[.none, .bool true]]

theorem hostUnpack_hostPack_mixedGrid :
    ∃ envelope back, hostPackSplitGrid true mixedGrid = .ok envelope ∧
      hostUnpackSplitGrid envelope = .ok back ∧ GridGivesBack mixedGrid back := by
  apply (hostUnpack_hostPack true mixedGrid).1
  · intro row member
    obtain rfl := mem_singleton.mp member
    rfl
  · intro cell member n isInt
    subst isInt
    obtain rfl : n = 3 := by simpa [mixedGrid, Grid.cells] using member
    decide

end WriterAgent.Scripting
