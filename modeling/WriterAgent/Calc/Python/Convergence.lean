import WriterAgent.Calc.Python.CircularReferences

/-!
# A second attach pass

The modify listener runs the pass on its own output.  The second run writes no
formula.
-/

namespace WriterAgent.Calc.Python

open PyText List

/-- A cell or a range, with or without sheet and dollar signs. -/
def PlainToken (token : Text) : Prop :=
  (parseRangeString (strip (removeChar '$' (splitSheetPrefix token).2))).isSome = true

theorem notLast_of_plainToken {c : Char} (foreign : Foreign c) (notColon : c ≠ ':')
    (notDollar : c ≠ '$') (notSeparator : isSheetSeparator c = false) {token : Text}
    (plain : PlainToken token) : token.getLast? ≠ some c := by
  intro last
  have inAddress : c ∈ (splitSheetPrefix token).2 := by
    rcases splitSheetPrefix_snd token with
      whole | ⟨d, rest, separator, suffix, after⟩
    · rw [whole]
      exact mem_strip (mem_of_getLast? last) foreign.visible
    · rw [after]
      apply mem_strip _ foreign.visible
      obtain ⟨front, rfl⟩ := suffix
      rw [List.getLast?_append_of_ne_nil _ (by simp)] at last
      cases rest with
      | nil =>
        obtain rfl : d = c := by simpa using last
        simp [notSeparator] at separator
      | cons e rest => exact mem_of_getLast? last
  have inBare : c ∈ strip (removeChar '$' (splitSheetPrefix token).2) := by
    apply mem_strip _ foreign.visible
    rw [removeChar, mem_filter]
    exact ⟨inAddress, by simpa using notDollar⟩
  obtain ⟨range, parsed⟩ := Option.isSome_iff_exists.mp plain
  exact foreign.notMem_of_parseRangeString notColon parsed inBare

def PlainArguments (cells : List GeometricCell) : Prop :=
  ∀ cell ∈ cells, ∀ args, formulaDataArgs cell.formula = some args →
    ∀ token ∈ args, PlainToken token

variable {cell previous : GeometricCell} {front back cells : List GeometricCell}
  {found : PyDict Text GeometricRecord} {context : RepairContext}
  {state : RepairState} {args : List Text}

theorem PlainArguments.ends (plain : PlainArguments cells) : PlainEnds cells := by
  intro cell member args read token inArgs
  have closing : Foreign ')' := ⟨by decide, by decide, by decide⟩
  have bracket : Foreign ']' := ⟨by decide, by decide, by decide⟩
  have plainToken := plain cell member args read token inArgs
  exact ⟨notLast_of_plainToken closing (by decide) (by decide) (by decide) plainToken,
    notLast_of_plainToken bracket (by decide) (by decide) (by decide) plainToken⟩

/-- A record on a cell that the pass has to leave alone: the formula does not
parse, or it is the first and does not end in a single cell, or the previous
formula refers to the cell and the last data argument is not the recorded
one. -/
structure StrandedRecord (records : PyDict Text GeometricRecord) (front : List GeometricCell)
    (cell : GeometricCell) (record : GeometricRecord) : Prop where
  present : (incomingRecords records).get? cell.address = some record
  displaced : ∀ previous, front.getLast? = some previous →
    sameCellRef record.predecessor previous.address = false
  stuck : formulaDataArgs cell.formula = none ∨ (∃ args, formulaDataArgs cell.formula = some args ∧
      ((front = [] ∧ lastCellArg args = none) ∨ ∃ previous, front.getLast? = some previous ∧
          formulaMentionsCell previous.formula cell.address = true ∧
          lastIsOurs args (some record) = false))

/-- The condition under which the pass converges at once: no later cell's code
reference leaves a parenthesis open, and no stranded record looks as if it had
moved to another listed cell. -/
structure Settled (records : PyDict Text GeometricRecord) (cells : List GeometricCell) : Prop where
  balanced : ∀ front cell back parts, cells = front ++ cell :: back →
    front ≠ [] → parsePythonFormula cell.formula = some parts → CodeBalanced cell.formula parts
  unmatched : ∀ front cell back record, cells = front ++ cell :: back →
    StrandedRecord records front cell record →
      ∀ front' other back' previous, cells = front' ++ other :: back' →
        front'.getLast? = some previous →
          rule2CandidateScore cell.address record other.address previous.address = none

def applyPatches (patches : List GeometricPatch)
    (cells : List GeometricCell) : List GeometricCell :=
  cells.map fun cell => { cell with formula := patchedFormula patches cell }

section Second

variable {cells : List GeometricCell} {records : PyDict Text GeometricRecord}
  {workbookKey sheetName : Text}

theorem rowMajor_applyPatches (sorted : RowMajor cells) (patches : List GeometricPatch) :
    RowMajor (applyPatches patches cells) := by
  constructor
  · intro cell member
    obtain ⟨source, inCells, rfl⟩ := mem_map.mp member
    exact sorted.plain source inCells
  · rw [applyPatches, pairwise_map]
    exact sorted.ordered

theorem applyPatches_split {patches : List GeometricPatch}
    (split : applyPatches patches cells = front ++ cell :: back) :
    ∃ front' source back', cells = front' ++ source :: back' ∧ front = applyPatches patches front' ∧
      cell = { source with formula := patchedFormula patches source } ∧
      back = applyPatches patches back' := by
  obtain ⟨front', rest, rfl, rfl, restEq⟩ := map_eq_append_iff.mp split
  obtain ⟨source, back', rfl, rfl, rfl⟩ := map_eq_cons_iff.mp restEq
  exact ⟨front', source, back', rfl, rfl, rfl, rfl⟩

theorem incomingRecords_eq_self (live : ∀ entry ∈ found.entries, isA1 entry.1 = true) :
    incomingRecords found = found := by
  have same : (found.entries.map fun entry => (cellMapKey entry.1, entry.2)) =
      found.entries := by
    rw [map_congr_left (g := id), map_id]
    intro entry member
    exact Prod.ext (localA1_of_isA1 (live entry member)) rfl
  apply PyDict.ext
  rw [incomingRecords, same, PyDict.ofPairs_entries found.distinct]

theorem computeSheetRepair_keys (sorted : RowMajor cells)
    {entry : Text × GeometricRecord}
    (member : entry ∈ (computeSheetRepair cells records workbookKey sheetName
      false).records.entries) :
    ∃ cell ∈ cells, cell.address = entry.1 := by
  simp only [computeSheetRepair, discoveryCapHit, Bool.false_eq_true, if_false, PyDict.mapValues,
    PyDict.filterKeys, mem_map, mem_filter] at member
  obtain ⟨slot, ⟨_, live⟩, rfl⟩ := member
  simp only [repairContext, contains_eq_mem, mem_map,
    decide_eq_true_eq] at live
  obtain ⟨cell, inCells, keyEq⟩ := live
  exact ⟨cell, inCells, by rw [← keyEq, sorted.key inCells]⟩

theorem incomingRecords_returned (sorted : RowMajor cells) :
    incomingRecords (computeSheetRepair cells records workbookKey sheetName false).records =
      (computeSheetRepair cells records workbookKey sheetName false).records := by
  apply incomingRecords_eq_self
  intro entry member
  obtain ⟨cell, inCells, addressEq⟩ := computeSheetRepair_keys sorted member
  rw [← addressEq]
  exact sorted.plain cell inCells

theorem notMentioned_after_plain (sorted : RowMajor cells) (plain : PlainArguments cells)
    (split : cells = front ++ cell :: back) (isPrevious : front.getLast? = some previous)
    (before : ¬ formulaMentionsCell previous.formula cell.address = true) :
    ¬ formulaMentionsCell (patchedFormula (computeSheetRepair cells records
      workbookKey sheetName false).patches previous) cell.address = true := by
  intro mentioned
  obtain ⟨earlier, slot, outcome, other⟩ := @predecessor_outcome cells records
    workbookKey sheetName sorted front back cell previous split isPrevious
  have member : previous ∈ cells := by
    rw [split]
    exact mem_append_left _ (mem_of_getLast? isPrevious)
  rcases outcome.mentions plain.ends member (sorted.plain cell (by simp [split])) mentioned with
      old | ⟨found, isEarlier, _, samePosition⟩
  · exact before old
  · exact other found isEarlier samePosition

theorem stranded_of_displaced (sorted : RowMajor cells) (plain : PlainArguments cells)
    (split : cells = front ++ cell :: back) {record : GeometricRecord}
    (present : (computeSheetRepair cells records workbookKey sheetName
      false).records.get? cell.address = some record)
    (displaced : ∀ previous, front.getLast? = some previous →
      sameCellRef record.predecessor previous.address = false) :
    StrandedRecord records front cell record := by
  obtain ⟨slot, outcome, slotEq⟩ := @computeSheetRepair_outcome cells records
    workbookKey sheetName sorted front back cell split
  rw [present] at slotEq
  obtain ⟨slot, rfl, rfl⟩ := Option.map_eq_some_iff.mp slotEq.symm
  have written : ∀ found, predecessorOf (computeSheetRepair cells records
      workbookKey sheetName false).patches front = some found →
        WrittenSlot found.address (some slot) → False := by
    intro found isPrevious ours
    simp only [predecessorOf, Option.map_eq_some_iff] at isPrevious
    obtain ⟨before, last, rfl⟩ := isPrevious
    have different := displaced before last
    rw [ours slot rfl, sameCellRef_refl (isA1_ne_nil (sorted.plain before (by
      rw [split]
      exact mem_append_left _ (mem_of_getLast? last))))] at different
    simp at different
  generalize previousEq : predecessorOf (computeSheetRepair cells records
    workbookKey sheetName false).patches front = previous at outcome written
  generalize patchedFormula (computeSheetRepair cells records
    workbookKey sheetName false).patches cell = post at outcome
  cases outcome with
  | unparsed read kept => exact ⟨(kept slot rfl).2, displaced, Or.inl read⟩
  | first read kept stuck =>
    have empty : front = [] := by simpa [predecessorOf] using previousEq
    exact ⟨(kept slot rfl).2, displaced, Or.inr ⟨_, read,
      Or.inl ⟨empty, stuck.resolve_left (by simp)⟩⟩⟩
  | blocked read mentioned kept stuck =>
    refine ⟨(kept slot rfl).2, displaced, Or.inr ⟨_, read, Or.inr ?_⟩⟩
    simp only [predecessorOf, Option.map_eq_some_iff] at previousEq
    obtain ⟨before, last, rfl⟩ := previousEq
    refine ⟨before, last, ?_, stuck.resolve_left (by simp)⟩
    by_contra notBefore
    have may : ¬ formulaMentionsCell before.formula cell.address = true :=
      notBefore
    exact notMentioned_after_plain sorted plain split last may mentioned
  | satisfied read free names ours | attached free rewrite ours => exact absurd ours (written _ rfl)

theorem bestCandidate_eq_none {score : Text → GeometricRecord → Option (Nat × Nat)}
    {entries : List (Text × GeometricRecord)}
    (noScore : ∀ entry ∈ entries, score entry.1 entry.2 = none) :
    bestCandidate score entries = none := by
  unfold bestCandidate
  induction entries with
  | nil => rfl
  | cons entry rest ih =>
    rw [foldl_cons, noScore entry mem_cons_self]
    exact ih fun later member => noScore later (mem_cons_of_mem _ member)

theorem collectRule2Claimed_eq_nil
    (noClaim : ∀ cell ∈ cells, claimFor cell context.incoming context.liveKeys
      context.desiredByKey [] = none) :
    collectRule2Claimed cells context.incoming context.liveKeys context.desiredByKey = [] := by
  unfold collectRule2Claimed
  induction cells with
  | nil => rfl
  | cons cell rest ih =>
    rw [foldl_cons, noClaim cell mem_cons_self]
    exact ih fun later member => noClaim later (mem_cons_of_mem _ member)

theorem rehomeChoice_eq_none (live : ∀ entry ∈ context.incoming.entries, entry.1 ∈ context.liveKeys)
    (noClaim : context.rule2Claimed = []) (noEviction : state.evicted = []) (key desired : Text) :
    rehomeChoice context state key desired = none := by
  rw [rehomeChoice, bestCandidate_eq_none, Option.map_none]
  intro entry member
  have notHomeless : recordIsHomeless entry.1 context.liveKeys state.evicted
      context.rule2Claimed = false := by
    simp [recordIsHomeless, noClaim, noEviction, live entry member]
  simp [notHomeless]

def secondContext (cells : List GeometricCell)
    (records : PyDict Text GeometricRecord) (workbookKey sheetName : Text) :
    RepairContext :=
  let result := computeSheetRepair cells records workbookKey sheetName false
  repairContext (applyPatches result.patches cells) result.records

theorem secondContext_incoming (sorted : RowMajor cells) :
    (secondContext cells records workbookKey sheetName).incoming =
      (computeSheetRepair cells records workbookKey sheetName false).records :=
  incomingRecords_returned sorted

theorem secondContext_desired (sorted : RowMajor cells) {front back : List GeometricCell}
    {cell : GeometricCell} (split : cells = front ++ cell :: back) :
    desiredOf (secondContext cells records workbookKey sheetName).desiredByKey
        cell.address = front.getLast?.map GeometricCell.address := by
  let patches := (computeSheetRepair cells records workbookKey sheetName false).patches
  have sorted' := rowMajor_applyPatches sorted patches
  have split' : applyPatches patches cells = applyPatches patches front ++
        { cell with formula := patchedFormula patches cell } :: applyPatches patches back := by
    rw [split]
    simp [applyPatches]
  have desired := desiredOf_repairContext sorted' (computeSheetRepair cells
    records workbookKey sheetName false).records split'
  rw [sorted'.key (by simp [split'])] at desired
  rw [secondContext, desired, applyPatches, List.getLast?_map, Option.map_map]
  rfl

theorem secondContext_live (sorted : RowMajor cells) :
    ∀ entry ∈ (secondContext cells records workbookKey sheetName).incoming.entries,
      entry.1 ∈ (secondContext cells records workbookKey sheetName).liveKeys := by
  intro entry member
  rw [secondContext_incoming sorted] at member
  obtain ⟨cell, inCells, addressEq⟩ := computeSheetRepair_keys sorted member
  simp only [secondContext, repairContext, applyPatches, map_map, mem_map]
  have key := sorted.key inCells
  exact ⟨cell, inCells, by simpa [addressEq] using key⟩

theorem secondContext_noClaim (sorted : RowMajor cells)
    (plain : PlainArguments cells) (settled : Settled records cells) :
    (secondContext cells records workbookKey sheetName).rule2Claimed = [] := by
  let context := secondContext cells records workbookKey sheetName
  change collectRule2Claimed _ context.incoming context.liveKeys context.desiredByKey = []
  apply collectRule2Claimed_eq_nil
  intro cell member
  obtain ⟨front, back, split⟩ := append_of_mem member
  obtain ⟨front, source, back, sourceSplit, rfl, rfl, rfl⟩ :=
    applyPatches_split split
  have sourceKey := sorted.key (show source ∈ cells by simp [sourceSplit])
  simp only [claimFor, sourceKey, context, secondContext_desired sorted sourceSplit]
  cases last : front.getLast? with
  | none => simp
  | some previous =>
    simp only [Option.map_some]
    split
    · rfl
    · split
      · rw [bestCandidate_eq_none, Option.map_none]
        intro entry inEntries
        have liveEntry := secondContext_live sorted entry inEntries
        rw [secondContext_incoming sorted] at inEntries
        obtain ⟨owner, inCells, addressEq⟩ :=
          computeSheetRepair_keys sorted inEntries
        obtain ⟨ownerFront, ownerBack, ownerSplit⟩ :=
          append_of_mem inCells
        rw [← addressEq] at liveEntry
        have present : (computeSheetRepair cells records workbookKey
            sheetName false).records.get? owner.address = some entry.2 := by
          rw [PyDict.get?_eq_some_iff, addressEq]
          exact inEntries
        simp only [contains_nil, Bool.false_eq_true, if_false]
        split
        · rename_i isDisplaced
          rw [← addressEq]
          apply settled.unmatched ownerFront owner ownerBack entry.2
            ownerSplit _ front source back previous sourceSplit last
          apply stranded_of_displaced sorted plain ownerSplit present
          intro before beforeEq
          rw [← addressEq] at isDisplaced
          simpa [incomingIsDisplaced, liveEntry, secondContext_desired sorted ownerSplit, beforeEq]
            using isDisplaced
        · rfl
      · rfl

theorem lastNames_append {ref : Text} (attached : isA1 ref = true) :
    lastNames (args ++ [ref]) ref = true := by
  have last : lastCellArg (args ++ [ref]) = some ref := by
    rw [lastCellArg, Option.filter_eq_some_iff]
    exact ⟨by simp, isSingleCellArg_of_isA1 attached⟩
  rw [lastNames, last]
  exact sameCellRef_refl (isA1_ne_nil attached)

/-- Why a cell needs nothing in a second pass: it is the first and there is
nothing to take off, its predecessor refers to it and its last argument is not
ours, or it ends in its predecessor and so does its record. -/
inductive NothingToDo (address : Text) (args : List Text)
    (record : Option GeometricRecord) : Option Predecessor → Prop where
  | first (stuck : record = none ∨ lastCellArg args = none) : NothingToDo address args record none
  | blocked {previous : Predecessor} (mentioned : formulaMentionsCell previous.post address = true)
      (notOurs : lastIsOurs args record = false) :
      NothingToDo address args record (some previous)
  | satisfied {previous : Predecessor} (free : formulaMentionsCell previous.post address = false)
      (names : lastNames args previous.address = true)
      (own : ∀ found, record = some found → found = ⟨previous.address⟩) :
      NothingToDo address args record (some previous)

theorem CellOutcome.nothingToDo {incoming : PyDict Text GeometricRecord}
    {previous : Option Predecessor} {post : Text} {slot : Option WorkingRecord}
    (outcome : CellOutcome incoming cell previous post slot) (balanced : previous ≠ none → ∀ parts,
      parsePythonFormula cell.formula = some parts →
        CodeBalanced cell.formula parts) (read : formulaDataArgs post = some args) :
    NothingToDo cell.address args (slot.map WorkingRecord.record)
      previous := by
  have ownRecord : ∀ {ref : Text}, WrittenSlot ref slot →
      ∀ found, slot.map WorkingRecord.record = some found → found = ⟨ref⟩ := by
    intro ref written found present
    obtain ⟨inner, slotEq, rfl⟩ := Option.map_eq_some_iff.mp present
    rw [written inner slotEq]
  cases outcome with
  | unparsed noParse kept => simp [noParse] at read
  | first readBefore kept stuck =>
    obtain rfl := Option.some.inj (readBefore.symm.trans read)
    rcases stuck with rfl | noCell
    · exact .first (Or.inl rfl)
    · exact .first (Or.inr noCell)
  | blocked readBefore mentioned kept stuck =>
    obtain rfl := Option.some.inj (readBefore.symm.trans read)
    apply NothingToDo.blocked mentioned
    rcases stuck with rfl | notOurs
    · simp [lastIsOurs]
    · exact notOurs
  | satisfied readBefore free names written =>
    obtain rfl := Option.some.inj (readBefore.symm.trans read)
    exact .satisfied free names (ownRecord written)
  | attached free rewrite written =>
    obtain ⟨parts, parsed, _⟩ := formulaDataArgs_eq_some.mp rewrite.read
    have attached := (rewrite.balanced parsed (balanced (by simp) parts parsed)).2.2
    obtain rfl := Option.some.inj (attached.symm.trans read)
    exact .satisfied free (lastNames_append rewrite.attached) (ownRecord written)
  | stripped rewrite reason =>
    cases previous with
    | none => exact .first (Or.inl rfl)
    | some previous => exact .blocked (reason previous rfl) (by simp [lastIsOurs])

/-- What the second pass keeps: no patch, the formulas, no eviction, and the
records of the map. -/
structure SecondInvariant (cells : List GeometricCell)
    (found : PyDict Text GeometricRecord) (state : RepairState) : Prop where
  patches : state.patches = []
  formulas : ∀ cell ∈ cells, state.newFormulas.get? cell.address = some cell.formula
  evicted : state.evicted = []
  records : state.working.mapValues WorkingRecord.record = found

theorem SecondInvariant.record? (invariant : SecondInvariant cells found state) (key : Text) :
    state.record? key = found.get? key := by
  rw [RepairState.record?, ← PyDict.get?_mapValues, invariant.records]

theorem planCell_of_nothingToDo {found : PyDict Text GeometricRecord}
    {state : RepairState} (invariant : SecondInvariant cells found state)
    {cell : GeometricCell} (key : cellMapKey cell.address = cell.address)
    {before : Option GeometricCell} (members : ∀ p ∈ before, p ∈ cells)
    {args : List Text}
    (nothing : NothingToDo cell.address args (found.get? cell.address)
      (before.map fun p => ⟨p.address, p.formula⟩)) :
    let plan := planCell state before cell (before.map GeometricCell.address) args
    plan = none ∨ (plan = some .noop ∧ ∀ p ∈ before, lastNames args p.address = true ∧
        ∀ record, found.get? cell.address = some record → record = ⟨p.address⟩) := by
  intro plan
  have planEq : plan = planCell state before cell (before.map GeometricCell.address) args := rfl
  cases before with
  | none =>
    cases nothing with
    | first stuck =>
      refine Or.inr ⟨?_, by simp⟩
      simp only [planEq, planCell, key, invariant.record?, Option.map_none, planAction]
      rcases stuck with noRecord | noCell
      · split <;> simp_all
      · rw [noCell]
  | some p =>
    have predFormula : (state.newFormulas.get? p.address).getD p.formula =
        p.formula := by
      rw [invariant.formulas p (members p rfl), Option.getD_some]
    simp only [planCell, key, invariant.record?, Option.map_some, predFormula] at planEq
    cases nothing with
    | blocked mentioned notOurs =>
      apply Or.inl
      rw [planEq, if_pos mentioned, if_neg (by simp [notOurs])]
    | satisfied free names own =>
      refine Or.inr ⟨?_, ?_⟩
      · rw [planEq, if_neg (by simp [free])]
        unfold lastNames at names
        split at names
        · next last lastEq => simp [planAction, lastEq, names]
        · simp at names
      · intro q same
        obtain rfl : p = q := by simpa using same
        exact ⟨names, own⟩

theorem SecondInvariant.rehome (invariant : SecondInvariant cells found state)
    (incomingEq : context.incoming = found)
    (live : ∀ entry ∈ context.incoming.entries, entry.1 ∈ context.liveKeys)
    (noClaim : context.rule2Claimed = []) (key ref : Text)
    (own : ∀ record, found.get? key = some record → record = ⟨ref⟩) :
    SecondInvariant cells found (rehomeOrKeepRecord context state key (some ref) args) := by
  have noChoice := rehomeChoice_eq_none live noClaim invariant.evicted key ref
  simp only [rehomeOrKeepRecord, noChoice]
  split_ifs
  · exact invariant
  · rename_i kept
    refine ⟨invariant.patches, invariant.formulas, invariant.evicted, ?_⟩
    simp only [Bool.and_eq_true, incomingEq] at kept
    obtain ⟨record, present⟩ := PyDict.contains_iff.mp kept.1.1
    simp only [RepairState.writeRecord, PyDict.mapValues_set, invariant.records]
    apply PyDict.set_eq_self
    rw [present, own record present]
  · exact invariant

theorem secondInvariant_final (sorted : RowMajor cells)
    (plain : PlainArguments cells) (settled : Settled records cells) :
    let result := computeSheetRepair cells records workbookKey sheetName false
    SecondInvariant (applyPatches result.patches cells) result.records
      (finalState (applyPatches result.patches cells) result.records) := by
  intro result
  have sorted' := rowMajor_applyPatches sorted result.patches
  have incomingEq := @incomingRecords_returned cells records workbookKey sheetName sorted
  let Kept : List GeometricCell → RepairState → Prop := fun _ state =>
    SecondInvariant (applyPatches result.patches cells) result.records state
  apply @repairLoop_induction _ _ Kept
  · have initial := @passInvariant_initial (applyPatches result.patches cells)
      result.records sorted'
    refine ⟨rfl, ?_, rfl, ?_⟩
    · intro cell member
      rw [initial.formulas cell member]
      rfl
    · apply PyDict.ext
      have entriesEq : (incomingRecords result.records).entries =
          result.records.entries := congrArg PyDict.entries incomingEq
      simp only [initialRepairState, PyDict.mapValues, map_map, entriesEq]
      exact map_id _
  · intro visited cell rest state split invariant
    obtain ⟨front, source, back, sourceSplit, rfl, rfl, rfl⟩ :=
      applyPatches_split split
    have member : source ∈ cells := by simp [sourceSplit]
    have key := sorted.key member
    obtain ⟨slot, outcome, slotEq⟩ := @computeSheetRepair_outcome cells records
      workbookKey sheetName sorted front back source sourceSplit
    have previousEq : (applyPatches result.patches front).getLast?.map
        (fun p => (⟨p.address, p.formula⟩ : Predecessor)) = predecessorOf result.patches front := by
      simp [applyPatches, List.getLast?_map, predecessorOf, Function.comp_def]
    have desired : desiredOf (repairContext (applyPatches result.patches cells)
        result.records).desiredByKey source.address =
          (applyPatches result.patches front).getLast?.map
            GeometricCell.address := by
      have wanted := @secondContext_desired cells records workbookKey sheetName
        sorted front back source sourceSplit
      rw [secondContext] at wanted
      rw [wanted, applyPatches, List.getLast?_map, Option.map_map]
      rfl
    unfold repairCell
    simp only [key, desired]
    split
    · exact invariant
    · rename_i args read
      have balanced : predecessorOf result.patches front ≠ none → ∀ parts,
          parsePythonFormula source.formula = some parts → CodeBalanced source.formula parts := by
        intro later parts parsed
        apply settled.balanced front source back parts sourceSplit _ parsed
        rintro rfl
        exact later rfl
      have nothing := outcome.nothingToDo balanced read
      rw [← slotEq, ← previousEq] at nothing
      have members : ∀ p ∈ (applyPatches result.patches front).getLast?,
          p ∈ applyPatches result.patches cells := by
        intro p last
        rw [split]
        exact mem_append_left _ (mem_of_getLast? last)
      rcases @planCell_of_nothingToDo _ _ _ invariant
        { source with formula := patchedFormula result.patches source } key
        _ members args nothing with skipped | ⟨planned, ends⟩
      · rw [skipped]
        exact invariant
      · rw [planned]
        cases last : (applyPatches result.patches front).getLast? with
        | none => exact invariant
        | some p =>
          apply invariant.rehome (secondContext_incoming sorted) (secondContext_live sorted)
            (secondContext_noClaim sorted plain settled)
          exact (ends p last).2

def secondPass (workbookKey sheetName : Text) (cells : List GeometricCell)
    (records : PyDict Text GeometricRecord) : SheetRepairResult :=
  let result := computeSheetRepair cells records workbookKey sheetName false
  computeSheetRepair (applyPatches result.patches cells) result.records workbookKey sheetName false

/-- One pass is enough: a second one on the patched sheet writes nothing and
returns the same map, and every cell that may have its predecessor attached
ends in it. -/
structure Converges (workbookKey sheetName : Text)
    (cells : List GeometricCell) (records : PyDict Text GeometricRecord) :
    Prop where
  noPatches : (secondPass workbookKey sheetName cells records).patches = []
  sameRecords : (secondPass workbookKey sheetName cells records).records =
    (computeSheetRepair cells records workbookKey sheetName false).records
  attached : ∀ front cell back previous, cells = front ++ cell :: back →
    front.getLast? = some previous → (parsePythonFormula cell.formula).isSome = true →
        let post := patchedFormula (computeSheetRepair cells records
          workbookKey sheetName false).patches
        formulaMentionsCell (post previous) cell.address = false →
          ∃ args, formulaDataArgs (post cell) = some args ∧ lastNames args previous.address = true

theorem second_records (sorted : RowMajor cells)
    (plain : PlainArguments cells) (settled : Settled records cells) :
    (secondPass workbookKey sheetName cells records).records =
      (computeSheetRepair cells records workbookKey sheetName false).records := by
  have invariant := @secondInvariant_final cells records workbookKey sheetName sorted plain settled
  rw [secondPass, computeSheetRepair_working, invariant.records]
  apply PyDict.filterKeys_eq_self
  intro key record present
  have member := PyDict.get?_eq_some_iff.mp present
  rw [← @secondContext_incoming cells records workbookKey sheetName sorted] at member
  simpa [secondContext] using secondContext_live sorted _ member

theorem attached_of_settled (sorted : RowMajor cells) (settled : Settled records cells)
    (split : cells = front ++ cell :: back) (isPrevious : front.getLast? = some previous)
    (parses : (parsePythonFormula cell.formula).isSome = true) :
    let post := patchedFormula (computeSheetRepair cells records workbookKey
      sheetName false).patches
    formulaMentionsCell (post previous) cell.address = false →
      ∃ args, formulaDataArgs (post cell) = some args ∧ lastNames args previous.address = true := by
  intro post free
  obtain ⟨slot, outcome, _⟩ := @computeSheetRepair_outcome cells records
    workbookKey sheetName sorted front back cell split
  have predecessorEq : predecessorOf (computeSheetRepair cells records
      workbookKey sheetName false).patches front = some ⟨previous.address, post previous⟩ := by
    simp [predecessorOf, isPrevious, post]
  rw [predecessorEq] at outcome
  change CellOutcome _ cell _ (post cell) slot at outcome
  generalize post cell = postCell at outcome
  obtain ⟨parts, parsed⟩ := Option.isSome_iff_exists.mp parses
  cases outcome with
  | unparsed read kept => simp [formulaDataArgs, parsed] at read
  | blocked read mentioned kept stuck => simp [free] at mentioned
  | satisfied read _ names written => exact ⟨_, read, names⟩
  | attached _ rewrite written =>
    have balanced := settled.balanced front cell back parts split (by
      rintro rfl
      simp at isPrevious) parsed
    exact ⟨_, (rewrite.balanced parsed balanced).2.2, lastNames_append rewrite.attached⟩
  | stripped rewrite reason =>
    have mentioned := reason _ rfl
    simp [free] at mentioned

end Second

instance (token : Text) : Decidable (PlainToken token) :=
  inferInstanceAs (Decidable (_ = true))

theorem plainArguments_of_all (all : ∀ cell ∈ cells, ∀ args ∈ formulaDataArgs cell.formula,
      ∀ token ∈ args, PlainToken token) : PlainArguments cells := by
  intro cell member args read token inArgs
  exact all cell member args read token inArgs

/-- A row was inserted above the second cell of a chain: its formula still
names the first cell, its record is still at its old address. -/
def movedPair : List GeometricCell :=
  [⟨"A1".toList, "=PY(\"x\")".toList, "x".toList⟩,
    ⟨"A3".toList, "=PY(\"y\";A1)".toList, "y".toList⟩]

/-- A first cell that ends in a range and still has a record, above a cell
that is about to be attached. -/
def strandedFirst : List GeometricCell :=
  [⟨"C2".toList, "=PY(\"x\";B1:B10)".toList, "x".toList⟩,
    ⟨"C3".toList, "=PY(\"y\")".toList, "y".toList⟩]

def strandedFirstRecords : PyDict Text GeometricRecord :=
  .ofPairs [("C2".toList, ⟨"C1".toList⟩)]

end WriterAgent.Calc.Python
