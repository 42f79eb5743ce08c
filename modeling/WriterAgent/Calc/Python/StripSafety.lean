import WriterAgent.Calc.Python.RepairPass

/-!
# When the evaluation strip is sound

At evaluation the last argument of a strip-safe formula is dropped, on the
ground that every cell with the same key is in the attach map.
-/

namespace WriterAgent.Calc.Python

open PyText List

variable {cell : GeometricCell} {post ref : Text} {args : List Text} {previous : Option Predecessor}

section EvalIndex

variable {formulas : PyDict Text Text} {workbookKey : Text}

/-- The groups built so far hold the address of every cell they were built
from. -/
def Grouped (workbookKey : Text) (formulas : PyDict Text Text) (cells : List GeometricCell)
    (groups : PyDict EvalIndexKey (List Text)) : Prop :=
  ∀ cell ∈ cells, ∃ addresses,
    groups.get? (evalIndexKey workbookKey formulas cell) = some addresses ∧ cell.address ∈ addresses

theorem grouped_foldl {visited cells : List GeometricCell}
    {groups : PyDict EvalIndexKey (List Text)}
    (grouped : Grouped workbookKey formulas visited groups) :
    Grouped workbookKey formulas (visited ++ cells) (cells.foldl (fun groups cell =>
          let key := evalIndexKey workbookKey formulas cell
          groups.set key ((groups.get? key).getD [] ++ [cell.address]))
        groups) := by
  induction cells generalizing visited groups with
  | nil => simpa using grouped
  | cons cell rest ih =>
    have next : Grouped workbookKey formulas (visited ++ [cell])
        (groups.set (evalIndexKey workbookKey formulas cell)
          ((groups.get? (evalIndexKey workbookKey formulas cell)).getD [] ++ [cell.address])) := by
      intro other member
      rw [PyDict.get?_set]
      rcases mem_append.mp member with old | new
      · obtain ⟨addresses, found, inGroup⟩ := grouped other old
        split
        · rename_i same
          rw [← same, found]
          simp [inGroup]
        · exact ⟨addresses, found, inGroup⟩
      · rw [mem_singleton] at new
        subst new
        exact ⟨_, if_pos rfl, by simp⟩
    simpa using ih next

theorem contains_of_mem_computeEvalIndex {cells : List GeometricCell}
    {records : PyDict Text GeometricRecord} (member : cell ∈ cells)
    (safe : evalIndexKey workbookKey formulas cell ∈
      computeEvalIndex cells formulas records workbookKey) :
    records.contains cell.address = true := by
  have start : Grouped workbookKey formulas [] .empty := by
    intro other inNil
    simp at inNil
  have grouped := @grouped_foldl formulas workbookKey [] cells .empty start
  obtain ⟨addresses, found, inGroup⟩ := grouped cell (by simpa using member)
  simp only [computeEvalIndex, mem_map, mem_filter, Bool.and_eq_true, all_eq_true] at safe
  obtain ⟨⟨key, others⟩, ⟨entry, _, all⟩, keyEq⟩ := safe
  have keyEq' : key = evalIndexKey workbookKey formulas cell := keyEq
  subst keyEq'
  rw [PyDict.get?_eq_some_iff.mpr entry, Option.some.injEq] at found
  subst found
  exact all cell.address inGroup

end EvalIndex

section StripSound

/-- The last data argument of the repaired formula is a single cell, and it is
the predecessor that the returned map records for the cell. -/
def LastIsRecorded (result : SheetRepairResult) (cell : GeometricCell) : Prop :=
  ∀ args, formulaDataArgs (patchedFormula result.patches cell) = some args →
    args ≠ [] → ∃ last record, args.getLast? = some last ∧ isSingleCellArg last = true ∧
        result.records.get? cell.address = some record ∧
        sameCellRef last record.predecessor = true

/-- Whatever is stripped at evaluation was attached by the pass. -/
def StripSound (workbookKey : Text) (cells : List GeometricCell)
    (result : SheetRepairResult) : Prop :=
  ∀ cell ∈ cells,
    let nArgs := repairNArgs (patchedFormula result.patches cell)
    ((⟨workbookKey, cell.resolvedCode, nArgs⟩ : EvalIndexKey) ∈
        result.stripSafe → LastIsRecorded result cell) ∧
      ∀ unambiguous, shouldStripEvalArgs (some workbookKey) cell.resolvedCode nArgs
            result.stripSafe unambiguous = true →
          LastIsRecorded result cell

/-- A cell with data arguments whose incoming record does not name the last of
them. -/
structure StaleRecord (records : PyDict Text GeometricRecord)
    (cell : GeometricCell) (args : List Text) : Prop where
  read : formulaDataArgs cell.formula = some args
  nonempty : args ≠ []
  notOurs : ∃ record, (incomingRecords records).get? cell.address =
    some record ∧ lastIsOurs args (some record) = false

/-- A formula refers to a cell as it stands or without its last data
argument. -/
def MayMention (formula address : Text) : Prop :=
  formulaMentionsCell formula address = true ∨
    ∃ args stripped, formulaDataArgs formula = some args ∧
      rebuildFormulaWithDataArgs formula args.dropLast = some stripped ∧
      formulaMentionsCell stripped address = true

/-- The pass repairs every cell with a stale record: the first cell because it
ends in a single cell, any other because its predecessor does not refer to
it. -/
def StaleRecordsRepaired (records : PyDict Text GeometricRecord)
    (cells : List GeometricCell) : Prop :=
  ∀ front cell back args, cells = front ++ cell :: back → StaleRecord records cell args →
      (front = [] → (lastCellArg args).isSome = true) ∧ ∀ previous, front.getLast? = some previous →
          ¬ MayMention previous.formula cell.address

variable {cells : List GeometricCell} {records : PyDict Text GeometricRecord}
  {workbookKey sheetName : Text}

theorem contains_of_mem_stripSafe (sorted : RowMajor cells) (member : cell ∈ cells) :
    let result := computeSheetRepair cells records workbookKey sheetName false
    (⟨workbookKey, cell.resolvedCode,
        repairNArgs (patchedFormula result.patches cell)⟩ : EvalIndexKey) ∈
      result.stripSafe → result.records.contains cell.address = true := by
  intro result safe
  have formulas := (@passInvariant_final cells records sorted).formulas cell member
  have keyEq : evalIndexKey workbookKey (finalState cells records).newFormulas
      cell = ⟨workbookKey, cell.resolvedCode,
        repairNArgs (patchedFormula result.patches cell)⟩ := by
    rw [evalIndexKey, formulas, Option.getD_some, computeSheetRepair_patches]
  rw [← keyEq] at safe
  have safe' : evalIndexKey workbookKey (finalState cells records).newFormulas
      cell ∈ computeEvalIndex cells (finalState cells records).newFormulas
        result.records workbookKey := by
    simpa [result, computeSheetRepair, discoveryCapHit, finalState] using safe
  exact contains_of_mem_computeEvalIndex member safe'

theorem CellOutcome.mayMention {incoming : PyDict Text GeometricRecord}
    {slot : Option WorkingRecord} (outcome : CellOutcome incoming cell previous post slot)
    {address : Text} (plain : isA1 address = true)
    (mentioned : formulaMentionsCell post address = true) :
    MayMention cell.formula address ∨ ∃ found, previous = some found ∧
        a1Position found.address = a1Position address := by
  rcases outcome.formula_cases with
    rfl | ⟨args, base, found, isPrevious, _, rewrite⟩ | ⟨args, rewrite⟩
  · exact Or.inl (Or.inl mentioned)
  · rcases rewrite.mentions plain mentioned with before | attached
    · exact Or.inl (Or.inl before)
    · exact Or.inr ⟨found, isPrevious, attached⟩
  · exact Or.inl (Or.inr ⟨args, post, rewrite.read, rewrite.rebuilt, mentioned⟩)

theorem lastNames_spec (names : lastNames args ref = true) :
    ∃ last, args.getLast? = some last ∧ isSingleCellArg last = true ∧
      sameCellRef last ref = true := by
  unfold lastNames at names
  split at names
  · rename_i last found
    rw [lastCellArg, Option.filter_eq_some_iff] at found
    exact ⟨last, found.1, found.2, names⟩
  · simp at names

theorem isSingleCellArg_of_isA1 (attached : isA1 ref = true) : isSingleCellArg ref = true := by
  have chars := isA1_chars attached
  have absent : ∀ d, isA1Char d = false → d ∉ ref := by
    intro d other member
    simp [chars d member] at other
  obtain ⟨_, _, _, _, _, _, _, _, _, short, _⟩ := isA1_split attached
  have ascii : isAscii ref = true := by
    rw [isAscii, all_eq_true]
    intro c member
    have range := isA1Char_toNat (chars c member)
    simp only [decide_eq_true_eq]
    omega
  simp [isSingleCellArg, pyCodeArgIsCellRef, strip_of_forall_isA1Char chars,
    splitSheetPrefix_of_forall_isA1Char chars, isA1_ne_nil attached,
    absent ':' rfl, absent '\n' rfl, removeChar_of_notMem (absent '$' rfl),
    ascii, maxCellRef, short, parseAddress_of_isA1 attached]

theorem AttachedFormula.args_cases {formula : Text} {base : List Text}
    (written : AttachedFormula formula args base ref post) :
    formulaDataArgs post = some (base ++ [ref]) ∨ formulaDataArgs post = some [] := by
  obtain ⟨parts, parsed, _⟩ := formulaDataArgs_eq_some.mp written.read
  by_cases balanced : CodeBalanced formula parts
  · exact Or.inl (written.balanced parsed balanced).2.2
  · exact Or.inr (written.unbalanced parsed balanced).2.2.2

theorem CellOutcome.lastIsRecorded_or_stuck {slot : WorkingRecord}
    (outcome : CellOutcome (incomingRecords records) cell previous post
      (some slot)) (read : formulaDataArgs post = some args)
    (nonempty : args ≠ []) :
    (∃ last, args.getLast? = some last ∧ isSingleCellArg last = true ∧
        sameCellRef last slot.record.predecessor = true) ∨
      (StaleRecord records cell args ∧ ((previous = none ∧ lastCellArg args = none) ∨
          ∃ found, previous = some found ∧
            formulaMentionsCell found.post cell.address = true)) := by
  cases outcome with
  | unparsed noParse kept => simp [noParse] at read
  | first readBefore kept stuck =>
    obtain rfl := Option.some.inj (readBefore.symm.trans read)
    have noCell := stuck.resolve_left (by simp)
    refine Or.inr ⟨⟨read, nonempty, slot.record, (kept slot rfl).2, ?_⟩, Or.inl ⟨rfl, noCell⟩⟩
    simp [lastIsOurs, noCell]
  | blocked readBefore mentioned kept stuck =>
    obtain rfl := Option.some.inj (readBefore.symm.trans read)
    have notOurs := stuck.resolve_left (by simp)
    exact Or.inr ⟨⟨read, nonempty, slot.record, (kept slot rfl).2, notOurs⟩,
      Or.inr ⟨_, rfl, mentioned⟩⟩
  | satisfied readBefore free names written =>
    obtain rfl := Option.some.inj (readBefore.symm.trans read)
    obtain ⟨last, lastEq, single, same⟩ := lastNames_spec names
    rw [written slot rfl]
    exact Or.inl ⟨last, lastEq, single, same⟩
  | @attached _ base previous _ _ free rewrite written =>
    rw [written slot rfl]
    rcases rewrite.args_cases with attached | swallowed
    · obtain rfl := Option.some.inj (attached.symm.trans read)
      exact Or.inl ⟨previous.address, by simp, isSingleCellArg_of_isA1 rewrite.attached,
        sameCellRef_refl (isA1_ne_nil rewrite.attached)⟩
    · exact absurd (Option.some.inj (swallowed.symm.trans read)).symm nonempty

theorem notMentioned_after (sorted : RowMajor cells) {front back : List GeometricCell}
    {previous : GeometricCell} (split : cells = front ++ cell :: back)
    (isPrevious : front.getLast? = some previous)
    (before : ¬ MayMention previous.formula cell.address) :
    ¬ formulaMentionsCell (patchedFormula
      (computeSheetRepair cells records workbookKey sheetName false).patches
        previous) cell.address = true := by
  intro mentioned
  obtain ⟨earlier, slot, outcome, other⟩ := @predecessor_outcome cells records
    workbookKey sheetName sorted front back cell previous split isPrevious
  rcases outcome.mayMention (sorted.plain cell (by simp [split])) mentioned with
    may | ⟨found, isEarlier, samePosition⟩
  · exact before may
  · exact other found isEarlier samePosition

end StripSound

def chainedPair : List GeometricCell :=
  [⟨"A1".toList, "=PY(\"x\")".toList, "x".toList⟩,
    ⟨"A2".toList, "=PY(\"y\";B1:B3;A1)".toList, "y".toList⟩]

def chainedPairRecords : PyDict Text GeometricRecord :=
  .ofPairs [("A2".toList, ⟨"A1".toList⟩)]

/-- The chain's first cell was deleted and the formula of its second rewritten
by the user to end in a range, which leaves the second cell's record behind. -/
def rewrittenFirst : List GeometricCell :=
  [⟨"A2".toList, "=PY(\"y\";B1:B3)".toList, "y".toList⟩]

end WriterAgent.Calc.Python
