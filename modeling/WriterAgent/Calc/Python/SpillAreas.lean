import WriterAgent.Calc.Python.Spill

/-!
# What a write and a clean-up change

The cells and registry entries that `perform_deferred_spill` and the clean-up
of orphans touch, apart from any run.
-/

namespace WriterAgent.Calc.Python

open PyText

section Areas

variable {κ ρ : Type}

theorem mem_spillTargets {origin coord : Coord} {grid : List (List ρ)} :
    coord ∈ spillTargets origin grid ↔ ∃ r c, r < grid.length ∧ c < numCols grid ∧ (r, c) ≠ (0, 0) ∧
        (origin.1 + r, origin.2 + c) = coord := by
  simp only [spillTargets, List.mem_flatMap, List.mem_range, List.mem_filterMap]
  constructor
  · rintro ⟨r, rowBound, c, colBound, found⟩
    split at found
    · simp at found
    · rename_i different
      exact ⟨r, c, rowBound, colBound, different, Option.some.inj found⟩
  · rintro ⟨r, c, rowBound, colBound, different, coordEq⟩
    refine ⟨r, rowBound, c, colBound, ?_⟩
    rw [if_neg different, coordEq]

theorem origin_notMem_spillTargets (origin : Coord) (grid : List (List ρ)) :
    origin ∉ spillTargets origin grid := by
  intro member
  obtain ⟨r, c, _, _, different, same⟩ := mem_spillTargets.mp member
  apply different
  have row : origin.1 + r = origin.1 := congrArg Prod.fst same
  have col : origin.2 + c = origin.2 := congrArg Prod.snd same
  have noRow : r = 0 := by omega
  have noCol : c = 0 := by omega
  rw [noRow, noCol]

theorem spillTargets_of_empty {origin : Coord} {grid : List (List ρ)}
    (empty : grid.length = 0 ∨ numCols grid = 0) :
    spillTargets origin grid = [] := by
  rw [List.eq_nil_iff_forall_not_mem]
  intro coord member
  obtain ⟨r, c, rowBound, colBound, _⟩ := mem_spillTargets.mp member
  omega

theorem writeGrid_of_notMem {model : CellModel κ ρ} {origin coord : Coord} {grid : List (List ρ)}
    {sheet : Coord → κ} (columns : numCols grid ≠ 0) (outside : coord ∉ spillTargets origin grid) :
    writeGrid model origin grid sheet coord = sheet coord := by
  rw [writeGrid, if_neg]
  intro inside
  apply outside
  rw [mem_spillTargets]
  rcases inside with ⟨wide, sameRow, front, back⟩ | ⟨high, top, bottom, front, back⟩
  · have some : 0 < grid.length := by
      cases grid with
      | nil => simp [numCols] at wide
      | cons row rest => simp
    refine ⟨0, coord.2 - origin.2, some, by omega, ?_, ?_⟩
    · simp only [ne_eq, Prod.mk.injEq, true_and]
      omega
    · apply Prod.ext
      · simpa using sameRow.symm
      · omega
  · refine ⟨coord.1 - origin.1, coord.2 - origin.2, by omega, by omega, ?_, ?_⟩
    · simp only [ne_eq, Prod.mk.injEq, not_and]
      omega
    · apply Prod.ext
      · omega
      · omega

/-- What a deferred write does when it is not skipped. -/
structure Spilled (model : CellModel κ ρ) (cells : Cells κ) (registry : SpillRegistry)
    (spill : PendingSpill ρ) (outcome : SpillOutcome κ) : Prop where
  registryEq : outcome.registry = registry.set spill.key (spillTargets spill.key.origin spill.grid)
  otherSheet : ∀ name, name ≠ spill.key.sheetName → outcome.cells name = cells name
  outside : ∀ coord ∉ spillTargets spill.key.origin spill.grid,
    outcome.cells spill.key.sheetName coord =
      clearSpills model spill.key.origin (spillsOf registry spill.key)
        (cells spill.key.sheetName) coord
  touchedEq : outcome.touched = ((spillsOf registry spill.key).filter (· ≠ spill.key.origin)).map
        (fun coord => ⟨spill.key, coord, cells spill.key.sheetName coord⟩) ++
      (spillTargets spill.key.origin spill.grid).map fun coord =>
        ⟨spill.key, coord, clearSpills model spill.key.origin
          (spillsOf registry spill.key) (cells spill.key.sheetName) coord⟩
  writtenEq : outcome.written = spillTargets spill.key.origin spill.grid

theorem performDeferredSpill_cases (model : CellModel κ ρ) (url : Text)
    (cells : Cells κ) (registry : SpillRegistry) (spill : PendingSpill ρ) :
    performDeferredSpill model url cells registry spill = ⟨cells, registry, false, [], []⟩ ∨
      url = spill.key.docUrl ∧ Spilled model cells registry spill
        (performDeferredSpill model url cells registry spill) := by
  by_cases sameUrl : url = spill.key.docUrl
  · by_cases stale : (!spill.code.isEmpty && !isMatchingPyFormula
        (model.getFormula (cells spill.key.sheetName spill.key.origin)) spill.code) = true
    · left
      rw [performDeferredSpill, if_neg (not_not.mpr sameUrl), if_pos stale]
    · right
      refine ⟨sameUrl, ?_⟩
      rw [performDeferredSpill, if_neg (not_not.mpr sameUrl), if_neg stale]
      by_cases empty : spill.grid.length = 0 ∨ numCols spill.grid = 0
      · have none := @spillTargets_of_empty ρ spill.key.origin _ empty
        rw [if_pos empty]
        constructor
        · rw [none]
        · intro name different
          simp [setSheet, different]
        · intro coord _
          simp [setSheet]
        · rw [none]
          simp
        · rw [none]
      · rw [if_neg empty]
        constructor
        · rfl
        · intro name different
          simp [setSheet, different]
        · intro coord outside
          have columns : numCols spill.grid ≠ 0 := fun zero =>
            empty (Or.inr zero)
          simp only [setSheet, if_true]
          exact writeGrid_of_notMem columns outside
        · rfl
        · rfl
  · left
    rw [performDeferredSpill, if_pos sameUrl]

theorem spillsOf_set (registry : SpillRegistry) (key other : SpillKey) (coords : List Coord) :
    spillsOf (registry.set key coords) other =
      if other = key then coords else spillsOf registry other := by
  rw [spillsOf, PyDict.get?_set]
  split <;> rfl

theorem clearSpills_cases {model : CellModel κ ρ} (origin : Coord) (spills : List Coord)
    (sheet : Coord → κ) (coord : Coord) :
    clearSpills model origin spills sheet coord = sheet coord ∨ (coord ∈ spills ∧
        clearSpills model origin spills sheet coord = model.empty) := by
  unfold clearSpills
  split
  · next both => exact Or.inr ⟨both.1, rfl⟩
  · exact Or.inl rfl

theorem mem_toRemove_cleanUp {model : CellModel κ ρ} {url sheetName : Text}
    {entries : List (SpillKey × List Coord)} {state : CleanUp κ}
    (here : ∀ key ∈ state.toRemove, key.docUrl = url ∧ key.sheetName = sheetName) :
    ∀ key ∈ (entries.foldl (cleanUpEntry model url sheetName) state).toRemove,
      key.docUrl = url ∧ key.sheetName = sheetName := by
  induction entries generalizing state with
  | nil => exact here
  | cons entry rest ih =>
    apply ih
    unfold cleanUpEntry
    simp only
    split_ifs
    · rename_i same _
      intro key member
      rcases List.mem_append.mp member with earlier | last
      · exact here key earlier
      · obtain rfl := List.mem_singleton.mp last
        exact same
    · exact here
    · exact here

end Areas

end WriterAgent.Calc.Python
