import WriterAgent.Calc.Python.FormulaLocator

/-!
# The located formula is the only one

The search knows cells and texts, not formulas.  It succeeds exactly when the
cells whose text matches are one block inside one range of the query.
-/

namespace WriterAgent.Calc.Python

open PyText List

variable {cell : Coord} {hits : List Coord} {sheet : FormulaSheet}
  {f : FormulaOfSheet} {origin : FormulaCoord} {range block : GridBox}
  {workbook : Workbook} {cache : FormulaLocationCache}

section Search

variable {docUrl code : Text} {now : Int}

theorem isMatchingPyFormula_mentions {formula : Text}
    (matching : isMatchingPyFormula formula code = true) :
    (formula.isEmpty || !mentionsPy (upper formula)) = false := by
  unfold isMatchingPyFormula at matching
  split_ifs at matching with nonempty mentions
  simp only [Bool.or_eq_true, not_or, Bool.not_eq_true] at nonempty
  rw [nonempty.1, Bool.eq_false_iff.mpr mentions]
  rfl

theorem visitCell_hits (sheet : FormulaSheet)
    (state : List Coord × FormulaLocationCache) (cell : Coord) :
    (visitCell docUrl code now sheet state cell).1 = state.1 ++
        [cell].filter fun cell => isMatchingPyFormula (sheet.getFormula cell) code := by
  unfold visitCell
  dsimp only
  split
  · rename_i skipped
    have unmatched : isMatchingPyFormula (sheet.getFormula cell) code = false := by
      by_contra matching
      have mentions := isMatchingPyFormula_mentions (eq_true_of_ne_false matching)
      rw [skipped] at mentions
      cases mentions
    simp [unmatched]
  · by_cases matching : isMatchingPyFormula (sheet.getFormula cell) code = true <;>
      simp [matching]

def hitsOf (code : Text) (sheet : FormulaSheet) (range : GridBox) : List Coord :=
  range.cells.filter fun cell => isMatchingPyFormula (sheet.getFormula cell) code

theorem mem_hitsOf : cell ∈ hitsOf code sheet range ↔ range.Contains cell ∧
      isMatchingPyFormula (sheet.getFormula cell) code = true := by
  simp [hitsOf]

theorem nodup_hitsOf (sheet : FormulaSheet) (range : GridBox) : (hitsOf code sheet range).Nodup :=
  range.nodup_cells.filter _

theorem foldl_visitCell_hits (sheet : FormulaSheet) (cells : List Coord) :
    ∀ state : List Coord × FormulaLocationCache,
      (cells.foldl (visitCell docUrl code now sheet) state).1 = state.1 ++
          cells.filter fun cell => isMatchingPyFormula (sheet.getFormula cell) code := by
  induction cells with
  | nil => simp
  | cons cell cells induction =>
    intro state
    rw [foldl_cons, induction, visitCell_hits, append_assoc, ← filter_append]
    rfl

theorem matchingCellsInRange_origins (sheet : FormulaSheet)
    (cache : FormulaLocationCache) (range : GridBox) :
    (matchingCellsInRange docUrl code now sheet cache range).1 =
      originsOfHits (hitsOf code sheet range) := by
  unfold matchingCellsInRange
  have hits := @foldl_visitCell_hits docUrl code now sheet range.cells ([], cache)
  dsimp only
  rw [hits]
  rfl

def sheetOrigins (code : Text) (sheet : FormulaSheet) : List Coord :=
  sheet.formulaCells.flatMap fun range => originsOfHits (hitsOf code sheet range)

theorem collectMatchingFormulaOrigins_origins (sheet : FormulaSheet)
    (cache : FormulaLocationCache) :
    (collectMatchingFormulaOrigins docUrl code now sheet cache).1 = sheetOrigins code sheet := by
  have general : ∀ (ranges : List GridBox) (state : List Coord × FormulaLocationCache),
      (ranges.foldl (fun found range =>
        let next := matchingCellsInRange docUrl code now sheet found.2 range
        (found.1 ++ next.1, next.2)) state).1 =
      state.1 ++ ranges.flatMap fun range =>
        originsOfHits (hitsOf code sheet range) := by
    intro ranges
    induction ranges with
    | nil => simp
    | cons range ranges induction =>
      intro state
      rw [foldl_cons, induction, flatMap_cons, ← append_assoc,
        ← @matchingCellsInRange_origins docUrl code now sheet state.2]
  exact general sheet.formulaCells ([], cache)

theorem addOrigins_one (sheetName : Text) (found : FormulaCoord) (cells : List Coord) :
    addOrigins sheetName cells [found] =
      if ∀ cell ∈ cells, (sheetName, cell) = found then some [found] else none := by
  induction cells with
  | nil => simp [addOrigins]
  | cons cell cells induction =>
    by_cases same : (sheetName, cell) = found
    · have seen : found ∈ [found] := mem_singleton_self found
      simp only [addOrigins, same, if_pos seen, length_singleton, lt_irrefl,
        ↓reduceIte, induction, forall_mem_cons, true_and]
    · have unseen : (sheetName, cell) ∉ [found] := by simpa using same
      simp [addOrigins, unseen, same]

theorem addOrigins_nil (sheetName : Text) (cells : List Coord) : addOrigins sheetName cells [] =
      match cells with
      | [] => some []
      | cell :: cells =>
        if ∀ other ∈ cells, other = cell then some [(sheetName, cell)] else none := by
  cases cells with
  | nil => rfl
  | cons cell cells =>
    simp only [addOrigins, not_mem_nil, ↓reduceIte, nil_append,
      length_singleton, lt_irrefl, addOrigins_one, Prod.mk.injEq, true_and]

def foundOrigins (code : Text) (sheets : List FormulaSheet) : List FormulaCoord :=
  sheets.flatMap fun sheet =>
    (sheetOrigins code sheet).map fun cell => (sheet.name, cell)

theorem searchSheets_one (sheets : List FormulaSheet) (found : FormulaCoord) :
    ∀ cache, (searchSheets docUrl code now sheets [found] cache).1 =
      if ∀ origin ∈ foundOrigins code sheets, origin = found then some [found]
      else none := by
  induction sheets with
  | nil => simp [searchSheets, foundOrigins]
  | cons sheet sheets induction =>
    intro cache
    simp only [searchSheets, collectMatchingFormulaOrigins_origins, addOrigins_one]
    by_cases same : ∀ cell ∈ sheetOrigins code sheet, (sheet.name, cell) = found
    · have onSheet : ∀ origin ∈ (sheetOrigins code sheet).map fun cell =>
          (sheet.name, cell), origin = found := by
        intro origin member
        obtain ⟨cell, inSheet, rfl⟩ := mem_map.mp member
        exact same cell inSheet
      simp only [if_pos same, induction]
      congr 1
      simp only [foundOrigins, flatMap_cons, mem_append, eq_iff_iff]
      constructor
      · intro later origin member
        rcases member with here | there
        · exact onSheet origin here
        · exact later origin there
      · intro all origin member
        exact all origin (.inr member)
    · have other : ¬ ∀ origin ∈ foundOrigins code (sheet :: sheets), origin = found := by
        intro all
        apply same
        intro cell inSheet
        apply all
        exact mem_append_left _ (mem_map_of_mem inSheet)
      simp only [if_neg same, if_neg other]

theorem searchSheets_nil (sheets : List FormulaSheet) : ∀ cache (located : FormulaCoord),
      (searchSheets docUrl code now sheets [] cache).1 = some [located] ↔
        located ∈ foundOrigins code sheets ∧
          ∀ origin ∈ foundOrigins code sheets, origin = located := by
  induction sheets with
  | nil => simp [searchSheets, foundOrigins]
  | cons sheet sheets induction =>
    intro cache located
    simp only [searchSheets, collectMatchingFormulaOrigins_origins, addOrigins_nil]
    have split_found : foundOrigins code (sheet :: sheets) =
        ((sheetOrigins code sheet).map fun cell => (sheet.name, cell)) ++
          foundOrigins code sheets := flatMap_cons
    rw [split_found]
    cases onSheet : sheetOrigins code sheet with
    | nil => simpa using induction _ located
    | cons cell cells =>
      by_cases same : ∀ other ∈ cells, other = cell
      · simp only [if_pos same, searchSheets_one]
        have mapped : ∀ origin, origin ∈ (cell :: cells).map
            (fun cell => (sheet.name, cell)) ↔ origin = (sheet.name, cell) := by
          intro origin
          simp only [map_cons, mem_cons, mem_map]
          constructor
          · intro member
            rcases member with first | ⟨other, inCells, rfl⟩
            · exact first
            · rw [same other inCells]
          · exact Or.inl
        simp only [mem_append, mapped]
        constructor
        · intro collected
          split_ifs at collected with later
          obtain rfl : (sheet.name, cell) = located := by simpa using collected
          refine ⟨.inl rfl, fun origin member => ?_⟩
          rcases member with here | there
          · exact here
          · exact later origin there
        · intro ⟨_, all⟩
          obtain rfl : (sheet.name, cell) = located := all _ (.inl rfl)
          rw [if_pos fun origin member => all origin (.inr member)]
      · simp only [if_neg same]
        constructor
        · intro impossible
          cases impossible
        · intro ⟨_, all⟩
          exfalso
          apply same
          have first := all (sheet.name, cell) (by simp)
          intro other inCells
          have second := all (sheet.name, other) (by simp [inCells])
          exact congrArg Prod.snd (second.trans first.symm)

theorem locateFormulaCellInDoc_eq_some {located : FormulaCoord} :
    (locateFormulaCellInDoc docUrl code now workbook cache).1 = some located ↔
      located ∈ foundOrigins code workbook.sheets ∧
        ∀ origin ∈ foundOrigins code workbook.sheets, origin = located := by
  rw [← @searchSheets_nil docUrl code now workbook.sheets cache located]
  unfold locateFormulaCellInDoc
  split
  · rename_i found after searched
    simp [searched]
  · rename_i notOne searched
    constructor
    · intro impossible
      cases impossible
    · intro collected
      rw [searched] at collected
      exact (notOne located collected).elim

end Search

section Block

variable {code : Text}

theorem originsOfHits_subset (member : cell ∈ originsOfHits hits) : cell ∈ hits := by
  unfold originsOfHits at member
  dsimp only at member
  split at member
  · exact member
  · split at member
    · split at member
      · rename_i hit found
        rw [mem_singleton.mp member]
        exact mem_of_find?_eq_some found
      · exact member
    · exact member

theorem originsOfHits_ne_nil (some_hit : hits ≠ []) : originsOfHits hits ≠ [] := by
  unfold originsOfHits
  dsimp only
  split
  · exact some_hit
  · split
    · split
      · exact cons_ne_nil _ _
      · exact some_hit
    · exact some_hit

theorem originsOfHits_of_block (exact_cells : ∀ cell, cell ∈ hits ↔ block.Contains cell)
    (distinct : hits.Nodup) : originsOfHits hits = [block.corner] := by
  have inHits : block.corner ∈ hits := (exact_cells _).mpr block.contains_corner
  have some_hit : hits ≠ [] := ne_nil_of_mem inHits
  have around := boxAround_eq some_hit exact_cells
  have filled : hits.length = block.size := by
    rw [← around]
    apply (length_eq_size_boxAround_iff some_hit distinct).mpr
    rw [around]
    exact exact_cells
  have corner : (leastOf (hits.map Prod.fst), leastOf (hits.map Prod.snd)) =
      block.corner := congrArg GridBox.corner around
  have size : (greatestOf (hits.map Prod.fst) - leastOf (hits.map Prod.fst) + 1) *
      (greatestOf (hits.map Prod.snd) - leastOf (hits.map Prod.snd) + 1) = block.size :=
    congrArg GridBox.size around
  unfold originsOfHits
  dsimp only
  split
  · rename_i short
    match hits, inHits, short with
    | [hit], inHits, _ => rw [mem_singleton.mp inHits]
  · rw [size, if_pos filled, corner]
    cases found : hits.find? fun hit => hit == block.corner with
    | none =>
      have missing := List.find?_eq_none.mp found _ inHits
      simp at missing
    | some hit =>
      have same := List.find?_some found
      rw [eq_of_beq same]

theorem block_of_originsOfHits {corner : Coord} (distinct : hits.Nodup)
    (member : corner ∈ originsOfHits hits) (only : ∀ cell ∈ originsOfHits hits, cell = corner) :
    ∃ block : GridBox, (∀ cell, cell ∈ hits ↔ block.Contains cell) ∧ block.corner = corner := by
  have some_hit : hits ≠ [] := ne_nil_of_mem (originsOfHits_subset member)
  by_cases filled : hits.length = (boxAround hits some_hit).size
  · have exact_cells := (length_eq_size_boxAround_iff some_hit distinct).mp filled
    refine ⟨boxAround hits some_hit, exact_cells, ?_⟩
    rw [originsOfHits_of_block exact_cells distinct] at member
    exact (mem_singleton.mp member).symm
  · -- the hits are left as they are, and there are two
    have unchanged : originsOfHits hits = hits := by
      unfold originsOfHits
      split
      · rfl
      · exact if_neg filled
    rw [unchanged] at only member
    have single : hits = [corner] := by
      apply perm_singleton.mp
      apply (perm_ext_iff_of_nodup distinct (nodup_singleton corner)).mpr
      intro cell
      rw [mem_singleton]
      exact ⟨only cell, fun same => same ▸ member⟩
    subst single
    refine ⟨⟨corner.1, corner.1, corner.2, corner.2, le_refl _, le_refl _⟩, ?_, rfl⟩
    intro cell
    simp only [mem_singleton, GridBox.Contains, Prod.ext_iff]
    omega

namespace FormulaSheet

variable {sheet : FormulaSheet}

theorem range_unique {other : GridBox} (inSheet : range ∈ sheet.formulaCells)
    (otherInSheet : other ∈ sheet.formulaCells) (contains : range.Contains cell)
    (otherContains : other.Contains cell) : range = other :=
  @GridBox.eq_of_apart _ id _ sheet.rangesApart _ _ inSheet otherInSheet _ contains otherContains

theorem formula_unique {g : FormulaOfSheet} (inSheet : f ∈ sheet.formulas)
    (otherInSheet : g ∈ sheet.formulas) (contains : f.area.Contains cell)
    (otherContains : g.area.Contains cell) : f = g :=
  GridBox.eq_of_apart sheet.formulasApart inSheet otherInSheet contains otherContains

theorem getFormula_of_mem (inSheet : f ∈ sheet.formulas) (contains : f.area.Contains cell) :
    sheet.getFormula cell = f.formula.written := by
  unfold getFormula
  split
  · rename_i g found
    have otherContains := List.find?_some found
    rw [formula_unique (mem_of_find?_eq_some found) inSheet
      (of_decide_eq_true otherContains) contains]
  · rename_i missing
    have absent := List.find?_eq_none.mp missing f inSheet
    exact absurd (decide_eq_true contains) absent

theorem formula_of_matching (matching : isMatchingPyFormula (sheet.getFormula cell) code = true) :
    ∃ f ∈ sheet.formulas, f.area.Contains cell ∧
      isMatchingPyFormula f.formula.written code = true := by
  cases found : sheet.formulas.find? fun f => decide (f.area.Contains cell) with
  | none =>
    rw [getFormula, found] at matching
    cases matching
  | some f =>
    rw [getFormula, found] at matching
    have contains := List.find?_some found
    exact ⟨f, mem_of_find?_eq_some found, of_decide_eq_true contains, matching⟩

theorem hit_of_matching (matching : isMatchingPyFormula (sheet.getFormula cell) code = true) :
    ∃ range ∈ sheet.formulaCells, cell ∈ hitsOf code sheet range := by
  obtain ⟨f, inSheet, contains, -⟩ := formula_of_matching matching
  obtain ⟨range, inQuery, inRange⟩ :=
    (sheet.cellsCovered cell).mpr ⟨f, inSheet, contains⟩
  exact ⟨range, inQuery, mem_hitsOf.mpr ⟨inRange, matching⟩⟩

end FormulaSheet

theorem Workbook.sheet_unique {other : FormulaSheet} (inBook : sheet ∈ workbook.sheets)
    (otherInBook : other ∈ workbook.sheets) (sameName : sheet.name = other.name) :
    sheet = other :=
  inj_on_of_nodup_map workbook.namesDistinct inBook otherInBook sameName

end Block

/-- The matching cells of the workbook are one block, inside one range of the
query on one sheet. -/
structure LoneBlock (workbook : Workbook) (code : Text) (sheet : FormulaSheet)
    (block : GridBox) : Prop where
  onSheet : sheet ∈ workbook.sheets
  oneRange : ∃ range ∈ sheet.formulaCells, ∀ cell, block.Contains cell → range.Contains cell
  matching : ∀ other ∈ workbook.sheets, ∀ cell,
    isMatchingPyFormula (other.getFormula cell) code = true ↔
      other.name = sheet.name ∧ block.Contains cell

section Located

variable {docUrl code : Text} {now : Int} {workbook : Workbook}

theorem mem_foundOrigins : origin ∈ foundOrigins code workbook.sheets ↔
      ∃ sheet ∈ workbook.sheets, ∃ range ∈ sheet.formulaCells,
        ∃ cell ∈ originsOfHits (hitsOf code sheet range), (sheet.name, cell) = origin := by
  simp only [foundOrigins, sheetOrigins, mem_flatMap, mem_map]
  constructor
  · intro ⟨sheet, inBook, cell, ⟨range, inQuery, member⟩, same⟩
    exact ⟨sheet, inBook, range, inQuery, cell, member, same⟩
  · intro ⟨sheet, inBook, range, inQuery, cell, member, same⟩
    exact ⟨sheet, inBook, cell, ⟨range, inQuery, member⟩, same⟩

theorem LoneBlock.located (lone : LoneBlock workbook code sheet block) :
    (sheet.name, block.corner) ∈ foundOrigins code workbook.sheets ∧
      ∀ origin ∈ foundOrigins code workbook.sheets, origin = (sheet.name, block.corner) := by
  obtain ⟨range, inQuery, inside⟩ := lone.oneRange
  have exact_cells : ∀ cell, cell ∈ hitsOf code sheet range ↔ block.Contains cell := by
    intro cell
    rw [mem_hitsOf, lone.matching sheet lone.onSheet cell]
    exact ⟨fun hit => hit.2.2, fun contains => ⟨inside cell contains, rfl, contains⟩⟩
  have origins := originsOfHits_of_block exact_cells (nodup_hitsOf sheet range)
  constructor
  · exact mem_foundOrigins.mpr ⟨sheet, lone.onSheet, range, inQuery, block.corner,
      by simp [origins], rfl⟩
  · intro origin found
    obtain ⟨other, otherInBook, range', inQuery', cell, member, rfl⟩ :=
      mem_foundOrigins.mp found
    obtain ⟨inRange', matches_code⟩ := mem_hitsOf.mp (originsOfHits_subset member)
    obtain ⟨sameName, contains⟩ := (lone.matching other otherInBook cell).mp matches_code
    obtain rfl := Workbook.sheet_unique otherInBook lone.onSheet sameName
    obtain rfl := FormulaSheet.range_unique inQuery' inQuery inRange' (inside cell contains)
    rw [origins] at member
    rw [mem_singleton.mp member]

theorem loneBlock_of_located {located : FormulaCoord}
    (member : located ∈ foundOrigins code workbook.sheets)
    (only : ∀ origin ∈ foundOrigins code workbook.sheets, origin = located) :
    ∃ sheet block, LoneBlock workbook code sheet block ∧ located = (sheet.name, block.corner) := by
  obtain ⟨sheet, inBook, range, inQuery, corner, inOrigins, rfl⟩ := mem_foundOrigins.mp member
  have onlyHere : ∀ cell ∈ originsOfHits (hitsOf code sheet range), cell = corner := by
    intro cell inHere
    have same := only (sheet.name, cell)
      (mem_foundOrigins.mpr ⟨sheet, inBook, range, inQuery, cell, inHere, rfl⟩)
    exact congrArg Prod.snd same
  obtain ⟨block, exact_cells, rfl⟩ :=
    block_of_originsOfHits (nodup_hitsOf sheet range) inOrigins onlyHere
  have cornerInRange := (mem_hitsOf.mp (originsOfHits_subset inOrigins)).1
  refine ⟨sheet, block, ⟨inBook, ⟨range, inQuery, ?_⟩, ?_⟩, rfl⟩
  · intro cell contains
    exact (mem_hitsOf.mp ((exact_cells cell).mpr contains)).1
  · intro other otherInBook cell
    constructor
    · intro matches_code
      obtain ⟨range', inQuery', hit⟩ := FormulaSheet.hit_of_matching matches_code
      -- a range with a hit leaves an origin, which is the located one
      obtain ⟨origin, inThere⟩ : ∃ origin, origin ∈ originsOfHits (hitsOf code other range') :=
        exists_mem_of_ne_nil _ (originsOfHits_ne_nil (ne_nil_of_mem hit))
      have same := only (other.name, origin)
        (mem_foundOrigins.mpr ⟨other, otherInBook, range', inQuery', origin, inThere, rfl⟩)
      obtain rfl := Workbook.sheet_unique otherInBook inBook (congrArg Prod.fst same)
      obtain rfl : origin = block.corner := congrArg Prod.snd same
      have cornerInRange' := (mem_hitsOf.mp (originsOfHits_subset inThere)).1
      obtain rfl := FormulaSheet.range_unique inQuery' inQuery cornerInRange' cornerInRange
      exact ⟨rfl, (exact_cells cell).mp hit⟩
    · intro ⟨sameName, contains⟩
      obtain rfl := Workbook.sheet_unique otherInBook inBook sameName
      exact (mem_hitsOf.mp ((exact_cells cell).mpr contains)).2

theorem locateFormulaCellInDoc_eq_some_iff {located : FormulaCoord} :
    (locateFormulaCellInDoc docUrl code now workbook cache).1 = some located ↔
      ∃ sheet block, LoneBlock workbook code sheet block ∧
        located = (sheet.name, block.corner) := by
  rw [locateFormulaCellInDoc_eq_some]
  constructor
  · intro ⟨member, only⟩
    exact loneBlock_of_located member only
  · intro ⟨sheet, block, lone, same⟩
    rw [same]
    exact lone.located

theorem mem_codeOrigins : origin ∈ workbook.codeOrigins code ↔
      ∃ sheet ∈ workbook.sheets, ∃ f ∈ sheet.formulas,
        workbook.Passes code f ∧ (sheet.name, f.origin) = origin := by
  simp only [Workbook.codeOrigins, mem_flatMap, mem_map, mem_filter,
    decide_eq_true_eq]
  constructor
  · intro ⟨sheet, inBook, f, ⟨inSheet, passes⟩, same⟩
    exact ⟨sheet, inBook, f, inSheet, passes, same⟩
  · intro ⟨sheet, inBook, f, inSheet, passes, same⟩
    exact ⟨sheet, inBook, f, ⟨inSheet, passes⟩, same⟩

theorem nodup_codeOrigins : (workbook.codeOrigins code).Nodup := by
  unfold Workbook.codeOrigins
  rw [nodup_flatMap]
  constructor
  · intro sheet _
    apply pairwise_map.mpr
    apply List.Pairwise.imp _ (sheet.formulasApart.filter _)
    intro f g apart same
    have origin : f.origin = g.origin := congrArg Prod.snd same
    apply apart f.origin f.area.contains_corner
    rw [origin]
    exact g.area.contains_corner
  · apply List.Pairwise.imp _ (pairwise_map.mp workbook.namesDistinct)
    intro sheet other different origin inFirst inSecond
    obtain ⟨f, -, rfl⟩ := mem_map.mp inFirst
    obtain ⟨g, -, same⟩ := mem_map.mp inSecond
    exact different (congrArg Prod.fst same).symm

theorem codeOrigins_eq_singleton_iff : workbook.codeOrigins code = [origin] ↔
      origin ∈ workbook.codeOrigins code ∧ ∀ other ∈ workbook.codeOrigins code, other = origin := by
  constructor
  · intro single
    simp [single]
  · intro ⟨member, only⟩
    apply perm_singleton.mp
    apply (perm_ext_iff_of_nodup nodup_codeOrigins (nodup_singleton origin)).mpr
    intro other
    rw [mem_singleton]
    exact ⟨only other, fun same => same ▸ member⟩

end Located

/-- What is located is the only origin with the code; where there are two,
nothing is. -/
structure AloneOrNothing (origins : List FormulaCoord) (result : Option FormulaCoord) : Prop where
  alone : ∀ located, result = some located → origins = [located]
  nothing : 2 ≤ origins.length → result = none

/-- A block of matching cells is one caller: the formula at its corner passes
the code, no other formula in the block does, and none whose text does not
match. -/
structure OneCaller (workbook : Workbook) (code : Text) (sheet : FormulaSheet)
    (block : GridBox) : Prop where
  corner : ∃ f ∈ sheet.formulas, f.origin = block.corner ∧ workbook.Passes code f
  others : ∀ f ∈ sheet.formulas, block.Contains f.origin → f.origin ≠ block.corner →
    ¬ workbook.Passes code f
  unread : ∀ other ∈ workbook.sheets, ∀ f ∈ other.formulas,
    isMatchingPyFormula f.formula.written code = false → ¬ workbook.Passes code f

section Uniqueness

variable {code : Text} {workbook : Workbook} {sheet : FormulaSheet} {block : GridBox}

theorem matching_origin (inSheet : f ∈ sheet.formulas) :
    isMatchingPyFormula (sheet.getFormula f.origin) code =
      isMatchingPyFormula f.formula.written code := by
  rw [FormulaOfSheet.origin, FormulaSheet.getFormula_of_mem inSheet f.area.contains_corner]

theorem LoneBlock.oneCaller_iff (lone : LoneBlock workbook code sheet block) :
    OneCaller workbook code sheet block ↔
      workbook.codeOrigins code = [(sheet.name, block.corner)] := by
  rw [codeOrigins_eq_singleton_iff]
  constructor
  · intro ⟨corner, others, unread⟩
    obtain ⟨f, inSheet, atCorner, passes⟩ := corner
    constructor
    · exact mem_codeOrigins.mpr ⟨sheet, lone.onSheet, f, inSheet, passes, by rw [atCorner]⟩
    · intro origin member
      obtain ⟨other, inBook, g, inOther, gPasses, rfl⟩ := mem_codeOrigins.mp member
      have read : isMatchingPyFormula g.formula.written code = true :=
        eq_true_of_ne_false fun unmatched => unread other inBook g inOther unmatched gPasses
      rw [← matching_origin inOther, lone.matching other inBook] at read
      obtain ⟨sameName, contains⟩ := read
      obtain rfl := Workbook.sheet_unique inBook lone.onSheet sameName
      by_cases atCorner' : g.origin = block.corner
      · rw [atCorner']
      · exact absurd gPasses (others g inOther contains atCorner')
  · intro ⟨member, only⟩
    refine ⟨?_, ?_, ?_⟩
    · obtain ⟨other, inBook, f, inOther, passes, same⟩ := mem_codeOrigins.mp member
      obtain rfl := Workbook.sheet_unique inBook lone.onSheet (congrArg Prod.fst same)
      exact ⟨f, inOther, congrArg Prod.snd same, passes⟩
    · intro f inSheet _ elsewhere passes
      have same := only _ (mem_codeOrigins.mpr ⟨sheet, lone.onSheet, f, inSheet, passes, rfl⟩)
      exact elsewhere (congrArg Prod.snd same)
    · intro other inBook f inOther unmatched passes
      have same := only _ (mem_codeOrigins.mpr ⟨other, inBook, f, inOther, passes, rfl⟩)
      have read : isMatchingPyFormula (other.getFormula f.origin) code = true := by
        rw [lone.matching other inBook]
        refine ⟨congrArg Prod.fst same, ?_⟩
        rw [show f.origin = block.corner from congrArg Prod.snd same]
        exact block.contains_corner
      rw [matching_origin inOther, unmatched] at read
      cases read

theorem LoneBlock.oneCaller_iff_area (lone : LoneBlock workbook code sheet block)
    (read : ∀ other ∈ workbook.sheets, ∀ f ∈ other.formulas,
      isMatchingPyFormula f.formula.written code = true ↔ workbook.Passes code f) :
    OneCaller workbook code sheet block ↔ ∃ f ∈ sheet.formulas, f.area = block := by
  -- a formula of the sheet passes the code when its origin is in the block
  have passes_iff : ∀ f ∈ sheet.formulas, workbook.Passes code f ↔ block.Contains f.origin := by
    intro f inSheet
    rw [← read sheet lone.onSheet f inSheet, ← matching_origin inSheet,
      lone.matching sheet lone.onSheet]
    simp
  constructor
  · intro ⟨⟨f, inSheet, atCorner, passes⟩, others, _⟩
    refine ⟨f, inSheet, GridBox.eq_of_same_cells fun cell => ?_⟩
    constructor
    · intro contains
      have matching := (read sheet lone.onSheet f inSheet).mpr passes
      rw [← FormulaSheet.getFormula_of_mem inSheet contains,
        lone.matching sheet lone.onSheet] at matching
      exact matching.2
    · intro inBlock
      have matching := (lone.matching sheet lone.onSheet cell).mpr ⟨rfl, inBlock⟩
      obtain ⟨g, gInSheet, contains, gMatches⟩ := FormulaSheet.formula_of_matching matching
      have gPasses := (read sheet lone.onSheet g gInSheet).mp gMatches
      have gAtCorner : g.origin = block.corner := by
        by_contra elsewhere
        exact others g gInSheet ((passes_iff g gInSheet).mp gPasses) elsewhere gPasses
      have sameFormula : g = f := FormulaSheet.formula_unique gInSheet inSheet
        g.area.contains_corner
        (by rw [show g.area.corner = f.area.corner from gAtCorner.trans atCorner.symm]
            exact f.area.contains_corner)
      exact sameFormula ▸ contains
  · intro ⟨f, inSheet, area⟩
    have atCorner : f.origin = block.corner := congrArg GridBox.corner area
    refine ⟨⟨f, inSheet, atCorner, ?_⟩, ?_, ?_⟩
    · rw [passes_iff f inSheet, atCorner]
      exact block.contains_corner
    · intro g gInSheet inBlock elsewhere _
      rw [← area] at inBlock
      have sameFormula := FormulaSheet.formula_unique gInSheet inSheet
        g.area.contains_corner inBlock
      exact elsewhere (by rw [sameFormula, atCorner])
    · intro other inBook g inOther unmatched passes
      rw [← read other inBook g inOther, unmatched] at passes
      cases passes

end Uniqueness

/-- Whatever the partition of the query and whatever is in the cache, the
located formula is the only one with the code exactly when each block of
matching cells that the search could take for one formula is one caller: with
texts that tell the code, when it is the area of one formula. -/
theorem locatedFormula_alone_iff (docUrl code : Text) (now : Int) (workbook : Workbook)
    (cache : FormulaLocationCache) :
    (AloneOrNothing (workbook.codeOrigins code)
        (locateFormulaCellInDoc docUrl code now workbook cache).1 ↔
      ∀ sheet block, LoneBlock workbook code sheet block → OneCaller workbook code sheet block) ∧
    ((∀ sheet ∈ workbook.sheets, ∀ f ∈ sheet.formulas,
        isMatchingPyFormula f.formula.written code = true ↔ workbook.Passes code f) →
      (AloneOrNothing (workbook.codeOrigins code)
          (locateFormulaCellInDoc docUrl code now workbook cache).1 ↔
        ∀ sheet block, LoneBlock workbook code sheet block →
          ∃ f ∈ sheet.formulas, f.area = block)) := by
  have blocks : AloneOrNothing (workbook.codeOrigins code)
        (locateFormulaCellInDoc docUrl code now workbook cache).1 ↔
      ∀ sheet block, LoneBlock workbook code sheet block → OneCaller workbook code sheet block := by
    constructor
    · intro alone sheet block lone
      rw [lone.oneCaller_iff]
      exact alone.alone _ (locateFormulaCellInDoc_eq_some_iff.mpr ⟨sheet, block, lone, rfl⟩)
    · intro callers
      have alone : ∀ located,
          (locateFormulaCellInDoc docUrl code now workbook cache).1 = some located →
            workbook.codeOrigins code = [located] := by
        intro located found
        obtain ⟨sheet, block, lone, rfl⟩ := locateFormulaCellInDoc_eq_some_iff.mp found
        exact lone.oneCaller_iff.mp (callers sheet block lone)
      refine ⟨alone, fun two => ?_⟩
      cases found : (locateFormulaCellInDoc docUrl code now workbook cache).1 with
      | none => rfl
      | some located =>
        rw [alone located found] at two
        simp at two
  refine ⟨blocks, fun read => blocks.trans ?_⟩
  constructor
  · intro callers sheet block lone
    exact (lone.oneCaller_iff_area read).mp (callers sheet block lone)
  · intro areas sheet block lone
    exact (lone.oneCaller_iff_area read).mpr (areas sheet block lone)

/-- `=PY("x")` in one cell. -/
def callX (row : Nat) : FormulaOfSheet where
  area := ⟨row, row, 0, 0, le_refl _, le_refl _⟩
  formula := ⟨[⟨"=".toList, "PY".toList, by decide, .inline "x".toList⟩], ")".toList⟩

/-- `A1` and `A2` hold the same formula, and the query returns them as one
range. -/
def twinSheet : FormulaSheet where
  name := "Sheet1".toList
  formulas := [callX 0, callX 1]
  formulasApart := by
    simp only [pairwise_cons, mem_singleton, forall_eq, callX, GridBox.Contains]
    refine ⟨fun cell first second => ?_, by simp⟩
    omega
  formulaCells := [⟨0, 1, 0, 0, by decide, le_refl _⟩]
  cellsCovered := by
    intro cell
    simp only [mem_cons, not_mem_nil, or_false, exists_eq_left,
      exists_eq_or_imp, callX, GridBox.Contains]
    omega
  rangesApart := pairwise_singleton _ _

def twinBook : Workbook where
  sheets := [twinSheet]
  namesDistinct := nodup_singleton _
  value := fun _ _ => []

/-- Both formulas pass the code, and the upper one is located. -/
theorem twinBook_located : ¬ AloneOrNothing (twinBook.codeOrigins "x".toList)
      (locateFormulaCellInDoc "doc".toList "x".toList 0 twinBook
        FormulaLocationCache.initial).1 := by
  intro alone
  have located : (locateFormulaCellInDoc "doc".toList "x".toList 0 twinBook
      FormulaLocationCache.initial).1 = some ("Sheet1".toList, (0, 0)) := by
    decide +kernel
  have two : 2 ≤ (twinBook.codeOrigins "x".toList).length := by decide +kernel
  rw [alone.nothing two] at located
  cases located

end WriterAgent.Calc.Python
