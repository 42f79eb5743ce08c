import WriterAgent.Calc.Python.Attachment

/-!
# What the repair pass does to one sheet

Every listed cell ends the pass in one of six ways.  The loop invariant says
so for the cells already visited, and that the map entries of all other cells
are still the incoming ones.
-/

namespace WriterAgent.Calc.Python

open PyText List

/-- Reading order of two cells. -/
def RowMajorLess (left right : Text) : Prop :=
  (a1Position left).2 < (a1Position right).2 ∨ ((a1Position left).2 = (a1Position right).2 ∧
      (a1Position left).1 < (a1Position right).1)

structure RowMajor (cells : List GeometricCell) : Prop where
  plain : ∀ cell ∈ cells, isA1 cell.address = true
  ordered : cells.Pairwise fun left right =>
    RowMajorLess left.address right.address

instance (left right : Text) : Decidable (RowMajorLess left right) :=
  inferInstanceAs (Decidable (_ ∨ _))

instance (cells : List GeometricCell) : Decidable (RowMajor cells) :=
  decidable_of_iff ((∀ cell ∈ cells, isA1 cell.address = true) ∧ cells.Pairwise fun left right =>
        RowMajorLess left.address right.address)
    ⟨fun both => ⟨both.1, both.2⟩, fun both => ⟨both.plain, both.ordered⟩⟩

variable {cell left right : GeometricCell}
  {incoming : PyDict Text GeometricRecord} {patch : GeometricPatch}
  {post last : Text} {slot : Option WorkingRecord} {args : List Text}

section RowMajor

variable {cells : List GeometricCell}

theorem RowMajor.positions (sorted : RowMajor cells) :
    (cells.map fun cell => a1Position cell.address).Nodup := by
  rw [nodup_iff_pairwise_ne, pairwise_map]
  apply sorted.ordered.imp
  intro left right less same
  simp only [RowMajorLess, same] at less
  omega

theorem RowMajor.position_injective (sorted : RowMajor cells)
    (leftMember : left ∈ cells) (rightMember : right ∈ cells)
    (same : a1Position left.address = a1Position right.address) : left = right :=
  inj_on_of_nodup_map sorted.positions leftMember rightMember same

theorem RowMajor.address_injective (sorted : RowMajor cells) (leftMember : left ∈ cells)
    (rightMember : right ∈ cells) (same : left.address = right.address) : left = right :=
  sorted.position_injective leftMember rightMember (by rw [same])

theorem RowMajor.nodup (sorted : RowMajor cells) : cells.Nodup :=
  sorted.positions.of_map

theorem RowMajor.key (sorted : RowMajor cells) {cell : GeometricCell}
    (member : cell ∈ cells) : cellMapKey cell.address = cell.address :=
  localA1_of_isA1 (sorted.plain cell member)

theorem RowMajor.addresses (sorted : RowMajor cells) : (cells.map GeometricCell.address).Nodup := by
  rw [nodup_map_iff_inj_on sorted.nodup]
  intro left leftMember right rightMember same
  exact sorted.address_injective leftMember rightMember same

end RowMajor

theorem repairLoop_induction {context : RepairContext}
    {cells : List GeometricCell}
    {Invariant : List GeometricCell → RepairState → Prop}
    {state : RepairState} (start : Invariant [] state)
    (step : ∀ visited cell rest state, cells = visited ++ cell :: rest → Invariant visited state →
        Invariant (visited ++ [cell]) (repairCell context visited.getLast? cell state)) :
    Invariant cells (repairLoop context none cells state) := by
  have general : ∀ rest visited state, cells = visited ++ rest → Invariant visited state →
        Invariant cells (repairLoop context visited.getLast? rest state) := by
    intro rest
    induction rest with
    | nil =>
      intro visited state split holds
      rw [append_nil] at split
      rw [split]
      exact holds
    | cons cell rest ih =>
      intro visited state split holds
      have next := ih (visited ++ [cell])
        (repairCell context visited.getLast? cell state) (by simp [split])
        (step visited cell rest state split holds)
      simpa [repairLoop] using next
  exact general cells [] state rfl start

section Desired

variable {cells visited rest : List GeometricCell} {cell : GeometricCell}

theorem desiredEntries_keys (previous : Option GeometricCell) (cells : List GeometricCell) :
    (desiredEntries previous cells).map Prod.fst =
      cells.map fun cell => cellMapKey cell.address := by
  induction cells generalizing previous with
  | nil => rfl
  | cons cell rest ih => simp [desiredEntries, ih]

theorem mem_desiredEntries (previous : Option GeometricCell)
    (visited rest : List GeometricCell) (cell : GeometricCell) :
    (cellMapKey cell.address, (visited.getLast?.or previous).map fun p => localA1 p.address) ∈
      desiredEntries previous (visited ++ cell :: rest) := by
  induction visited generalizing previous with
  | nil => simp [desiredEntries]
  | cons first visited ih =>
    have later := ih (some first)
    apply mem_cons_of_mem
    cases visited with
    | nil => simpa using later
    | cons second visited =>
      have last : ∃ l, (second :: visited).getLast? = some l :=
        ⟨_, List.getLast?_eq_some_getLast (by simp)⟩
      obtain ⟨l, lastEq⟩ := last
      simpa [List.getLast?_cons_cons, lastEq] using later

theorem desiredOf_repairContext (sorted : RowMajor cells) (records : PyDict Text GeometricRecord)
    (split : cells = visited ++ cell :: rest) :
    desiredOf (repairContext cells records).desiredByKey (cellMapKey cell.address) =
      visited.getLast?.map GeometricCell.address := by
  have distinct : ((desiredEntries none cells).map Prod.fst).Nodup := by
    rw [desiredEntries_keys]
    have keys : (cells.map fun cell => cellMapKey cell.address) = cells.map GeometricCell.address :=
      map_congr_left fun cell member => sorted.key member
    rw [keys]
    exact sorted.addresses
  have member := mem_desiredEntries none visited rest cell
  rw [← split] at member
  rw [desiredOf, repairContext, PyDict.get?_ofPairs distinct member]
  cases last : visited.getLast? with
  | none => rfl
  | some previous =>
    have inCells : previous ∈ cells := by
      rw [split]
      exact mem_append_left _ (mem_of_getLast? last)
    simp [localA1_of_isA1 (sorted.plain previous inCells)]

end Desired

/-- Nothing, or the incoming record of the key. -/
def IncomingSlot (incoming : PyDict Text GeometricRecord) (key : Text)
    (slot : Option WorkingRecord) : Prop :=
  ∀ found, slot = some found → found.isIncoming = true ∧ incoming.get? key = some found.record

/-- Nothing, or a record the pass wrote for this reference. -/
def WrittenSlot (ref : Text) (slot : Option WorkingRecord) : Prop :=
  ∀ found, slot = some found → found = ⟨⟨ref⟩, false⟩

/-- The predecessor of a cell with the formula it has after the pass. -/
structure Predecessor where
  address : Text
  post : Text

/-- How the pass leaves a cell: the formula it has then and its map entry. -/
inductive CellOutcome (incoming : PyDict Text GeometricRecord) (cell : GeometricCell) :
    Option Predecessor → Text → Option WorkingRecord → Prop where
  | unparsed {previous : Option Predecessor} {slot : Option WorkingRecord}
      (read : formulaDataArgs cell.formula = none)
      (kept : IncomingSlot incoming cell.address slot) :
      CellOutcome incoming cell previous cell.formula slot
  | first {args : List Text} {slot : Option WorkingRecord}
      (read : formulaDataArgs cell.formula = some args)
      (kept : IncomingSlot incoming cell.address slot)
      (stuck : slot = none ∨ lastCellArg args = none) :
      CellOutcome incoming cell none cell.formula slot
  | blocked {args : List Text} {previous : Predecessor}
      {slot : Option WorkingRecord}
      (read : formulaDataArgs cell.formula = some args)
      (mentioned : formulaMentionsCell previous.post cell.address = true)
      (kept : IncomingSlot incoming cell.address slot)
      (stuck : slot = none ∨ lastIsOurs args (slot.map WorkingRecord.record) = false) :
      CellOutcome incoming cell (some previous) cell.formula slot
  | satisfied {args : List Text} {previous : Predecessor}
      {slot : Option WorkingRecord}
      (read : formulaDataArgs cell.formula = some args)
      (free : formulaMentionsCell previous.post cell.address = false)
      (names : lastNames args previous.address = true)
      (written : WrittenSlot previous.address slot) :
      CellOutcome incoming cell (some previous) cell.formula slot
  | attached {args base : List Text} {previous : Predecessor} {post : Text}
      {slot : Option WorkingRecord}
      (free : formulaMentionsCell previous.post cell.address = false)
      (rewrite : AttachedFormula cell.formula args base previous.address post)
      (written : WrittenSlot previous.address slot) :
      CellOutcome incoming cell (some previous) post slot
  | stripped {args : List Text} {previous : Option Predecessor} {post : Text}
      (rewrite : StrippedFormula cell.formula args post)
      (reason : ∀ found, previous = some found →
        formulaMentionsCell found.post cell.address = true) :
      CellOutcome incoming cell previous post none

theorem CellOutcome.popped {previous : Option Predecessor} {slot' : Option WorkingRecord}
    (outcome : CellOutcome incoming cell previous post slot) (fewer : slot' = slot ∨ slot' = none) :
    CellOutcome incoming cell previous post slot' := by
  rcases fewer with rfl | rfl
  · exact outcome
  · cases outcome with
    | unparsed read kept => exact .unparsed read (by simp [IncomingSlot])
    | first read kept stuck => exact .first read (by simp [IncomingSlot]) (Or.inl rfl)
    | blocked read mentioned kept stuck =>
      exact .blocked read mentioned (by simp [IncomingSlot]) (Or.inl rfl)
    | satisfied read free names written => exact .satisfied read free names (by simp [WrittenSlot])
    | attached free rewrite written => exact .attached free rewrite (by simp [WrittenSlot])
    | stripped rewrite reason => exact .stripped rewrite reason

theorem CellOutcome.formula_cases {previous : Option Predecessor}
    (outcome : CellOutcome incoming cell previous post slot) :
    post = cell.formula ∨ (∃ args base found, previous = some found ∧
        formulaMentionsCell found.post cell.address = false ∧
        AttachedFormula cell.formula args base found.address post) ∨
      ∃ args, StrippedFormula cell.formula args post := by
  cases outcome with
  | unparsed | first | blocked | satisfied => exact Or.inl rfl
  | attached free rewrite written => exact Or.inr (Or.inl ⟨_, _, _, rfl, free, rewrite⟩)
  | stripped rewrite reason => exact Or.inr (Or.inr ⟨_, rewrite⟩)

def predecessorOf (patches : List GeometricPatch)
    (visited : List GeometricCell) : Option Predecessor :=
  visited.getLast?.map fun previous =>
    ⟨previous.address, patchedFormula patches previous⟩

structure PassInvariant (cells : List GeometricCell) (incoming : PyDict Text GeometricRecord)
    (visited : List GeometricCell) (state : RepairState) : Prop where
  formulas : ∀ cell ∈ cells, state.newFormulas.get? cell.address =
    some (patchedFormula state.patches cell)
  patchAddresses : ∀ patch ∈ state.patches, ∃ cell ∈ visited, patch.address = cell.address
  pending : ∀ key, (∀ cell ∈ visited, cell.address ≠ key) →
    IncomingSlot incoming key (state.working.get? key)
  consumed : ∀ key, (∀ cell ∈ visited, cell.address ≠ key) →
    key ∈ state.consumed → state.working.get? key = none
  evicted : ∀ key ∈ state.evicted, ∃ cell ∈ visited, cell.address = key
  outcomes : ∀ front cell back, visited = front ++ cell :: back →
    CellOutcome incoming cell (predecessorOf state.patches front)
      (patchedFormula state.patches cell) (state.working.get? cell.address)

section Patches

variable {patches : List GeometricPatch} {cell : GeometricCell}

theorem find?_of_noPatch (noPatch : ∀ patch ∈ patches, patch.address ≠ cell.address) :
    patches.find? (fun patch => patch.address = cell.address &&
      patch.oldFormula = cell.formula) = none := by
  rw [List.find?_eq_none]
  intro patch member
  simp [noPatch patch member]

theorem patchedFormula_of_noPatch (noPatch : ∀ patch ∈ patches, patch.address ≠ cell.address) :
    patchedFormula patches cell = cell.formula := by
  simp [patchedFormula, find?_of_noPatch noPatch]

theorem patchedFormula_append_other (other : patch.address ≠ cell.address) :
    patchedFormula (patches ++ [patch]) cell = patchedFormula patches cell := by
  simp [patchedFormula, List.find?_append, other]

theorem patchedFormula_append_own (noPatch : ∀ old ∈ patches, old.address ≠ cell.address)
    (own : patch.address = cell.address) (old : patch.oldFormula = cell.formula) :
    patchedFormula (patches ++ [patch]) cell = patch.newFormula := by
  simp [patchedFormula, List.find?_append, find?_of_noPatch noPatch, own, old]

theorem getLast?_of_predecessorOf {visited : List GeometricCell} {previous : Predecessor}
    (predecessor : predecessorOf patches visited = some previous) :
    visited.getLast?.map GeometricCell.address = some previous.address := by
  obtain ⟨last, lastEq, rfl⟩ := Option.map_eq_some_iff.mp predecessor
  simp [lastEq]

end Patches

section Step

variable {cells visited rest : List GeometricCell} {cell : GeometricCell}
  {incoming : PyDict Text GeometricRecord} {state next : RepairState}

theorem visited_ne (sorted : RowMajor cells) (split : cells = visited ++ cell :: rest) :
    ∀ other ∈ visited, other.address ≠ cell.address := by
  intro other member same
  have distinct := sorted.addresses
  rw [split, map_append, nodup_append] at distinct
  exact distinct.2.2 _ (mem_map_of_mem member) cell.address (by simp) same

theorem PassInvariant.noPatch (sorted : RowMajor cells) (split : cells = visited ++ cell :: rest)
    (invariant : PassInvariant cells incoming visited state) :
    ∀ patch ∈ state.patches, patch.address ≠ cell.address := by
  intro patch member same
  obtain ⟨other, inVisited, addressEq⟩ :=
    invariant.patchAddresses patch member
  exact visited_ne sorted split other inVisited (addressEq ▸ same)

/-- What one iteration may change: the cell's own formula and entry; other
entries can only go. -/
structure StepFrame (incoming : PyDict Text GeometricRecord)
    (cell : GeometricCell) (state next : RepairState) : Prop where
  patches : next.patches = state.patches ∨ ∃ patch, patch.address = cell.address ∧
    next.patches = state.patches ++ [patch]
  working : ∀ key ≠ cell.address, next.working.get? key = state.working.get? key ∨
      next.working.get? key = none
  consumed : ∀ key ∈ next.consumed, key ≠ cell.address →
    IncomingSlot incoming key (state.working.get? key) →
      key ∈ state.consumed ∨ next.working.get? key = none
  evicted : ∀ key ∈ next.evicted, key ∈ state.evicted ∨ key = cell.address

theorem StepFrame.patchedFormula_eq (frame : StepFrame incoming cell state next)
    {other : GeometricCell} (different : other.address ≠ cell.address) :
    patchedFormula next.patches other = patchedFormula state.patches other := by
  rcases frame.patches with same | ⟨patch, own, appended⟩
  · rw [same]
  · rw [appended, patchedFormula_append_other]
    rw [own]
    exact different.symm

theorem StepFrame.predecessorOf_eq (frame : StepFrame incoming cell state next)
    {front : List GeometricCell} (different : ∀ other ∈ front, other.address ≠ cell.address) :
    predecessorOf next.patches front = predecessorOf state.patches front := by
  cases last : front.getLast? with
  | none => simp [predecessorOf, last]
  | some previous =>
    have other := different previous (mem_of_getLast? last)
    simp [predecessorOf, last, frame.patchedFormula_eq other]

theorem PassInvariant.extend (sorted : RowMajor cells) (split : cells = visited ++ cell :: rest)
    (invariant : PassInvariant cells incoming visited state)
    (frame : StepFrame incoming cell state next)
    (formulas : ∀ other ∈ cells, next.newFormulas.get? other.address =
      if other.address = cell.address then
        some (patchedFormula next.patches cell)
      else state.newFormulas.get? other.address)
    (outcome : CellOutcome incoming cell (predecessorOf state.patches visited)
      (patchedFormula next.patches cell)
      (next.working.get? cell.address)) :
    PassInvariant cells incoming (visited ++ [cell]) next := by
  have cellMember : cell ∈ cells := by simp [split]
  have visitedOther := visited_ne sorted split
  refine ⟨?_, ?_, ?_, ?_, ?_, ?_⟩
  · intro other member
    rw [formulas other member]
    by_cases own : other.address = cell.address
    · rw [if_pos own, sorted.address_injective member cellMember own]
    · rw [if_neg own, invariant.formulas other member, frame.patchedFormula_eq own]
  · intro patch member
    rcases frame.patches with same | ⟨added, own, appended⟩
    · rw [same] at member
      obtain ⟨other, inVisited, addressEq⟩ :=
        invariant.patchAddresses patch member
      exact ⟨other, mem_append_left _ inVisited, addressEq⟩
    · rw [appended, mem_append] at member
      rcases member with old | new
      · obtain ⟨other, inVisited, addressEq⟩ :=
          invariant.patchAddresses patch old
        exact ⟨other, mem_append_left _ inVisited, addressEq⟩
      · rw [mem_singleton] at new
        subst new
        exact ⟨cell, by simp, own⟩
  · intro key unvisited
    have different : key ≠ cell.address :=
      (unvisited cell (by simp)).symm
    have pending := invariant.pending key fun other member =>
      unvisited other (mem_append_left _ member)
    rcases frame.working key different with same | gone
    · rw [same]
      exact pending
    · simp [IncomingSlot, gone]
  · intro key unvisited member
    have different : key ≠ cell.address :=
      (unvisited cell (by simp)).symm
    have pending := invariant.pending key fun other inVisited =>
      unvisited other (mem_append_left _ inVisited)
    rcases frame.consumed key member different pending with old | gone
    · have goneBefore := invariant.consumed key (fun other inVisited =>
        unvisited other (mem_append_left _ inVisited)) old
      rcases frame.working key different with same | gone
      · rw [same, goneBefore]
      · exact gone
    · exact gone
  · intro key member
    rcases frame.evicted key member with old | own
    · obtain ⟨other, inVisited, addressEq⟩ := invariant.evicted key old
      exact ⟨other, mem_append_left _ inVisited, addressEq⟩
    · exact ⟨cell, by simp, own.symm⟩
  · intro front other back parts
    rcases eq_nil_or_concat back with rfl | ⟨back, last, rfl⟩
    · obtain ⟨rfl, rfl⟩ : visited = front ∧ cell = other := by simpa using parts
      rw [frame.predecessorOf_eq visitedOther]
      exact outcome
    · have visitedSplit : visited = front ++ other :: back := by
        have whole : visited ++ [cell] = (front ++ other :: back) ++ [last] := by simpa using parts
        exact (append_inj' whole rfl).1
      have frontOther : ∀ earlier ∈ front, earlier.address ≠ cell.address := by
        intro earlier member
        exact visitedOther earlier (by simp [visitedSplit, member])
      have different : other.address ≠ cell.address :=
        visitedOther other (by simp [visitedSplit])
      rw [frame.predecessorOf_eq frontOther, frame.patchedFormula_eq different]
      exact (invariant.outcomes front other back visitedSplit).popped (frame.working _ different)

/-- What is planned for a cell, by what its predecessor refers to and by its
last data argument. -/
inductive PlanCase (cell : GeometricCell) (args : List Text) (record : Option GeometricRecord) :
    Option Predecessor → Option PlannedAction → Prop where
  | blocked {previous : Predecessor}
      (mentioned : formulaMentionsCell previous.post cell.address = true)
      (notOurs : lastIsOurs args record = false) :
      PlanCase cell args record (some previous) none
  | first (stuck : record = none ∨ lastCellArg args = none) :
      PlanCase cell args record none (some .noop)
  | satisfied {previous : Predecessor}
      (free : formulaMentionsCell previous.post cell.address = false)
      (names : lastNames args previous.address = true) :
      PlanCase cell args record (some previous) (some .noop)
  | attach {previous : Predecessor} {action : GeometricAction}
      {base : List Text} (notRemove : action ≠ .remove)
      (free : formulaMentionsCell previous.post cell.address = false)
      (kept : base = args ∨ ∃ last, args = base ++ [last] ∧
        sameCellRef last previous.address = false) :
      PlanCase cell args record (some previous) (some (.write action (base ++ [previous.address])))
  | strip {previous : Option Predecessor} (nonempty : args ≠ [])
      (reason : ∀ found, previous = some found →
        formulaMentionsCell found.post cell.address = true) :
      PlanCase cell args record previous (some (.write .remove args.dropLast))

theorem ne_nil_of_lastCellArg (found : lastCellArg args = some last) : args ≠ [] := by
  rintro rfl
  simp [lastCellArg] at found

theorem dropLast_of_lastCellArg (found : lastCellArg args = some last) :
    args = args.dropLast ++ [last] := by
  rw [lastCellArg, Option.filter_eq_some_iff] at found
  exact (dropLast_append_getLast? _ found.1).symm

theorem planAction_first (cell : GeometricCell) (args : List Text)
    (record : Option GeometricRecord) :
    PlanCase cell args record none (some (planAction none args record)) := by
  unfold planAction
  cases last : lastCellArg args with
  | none => exact .first (Or.inr last)
  | some token =>
    cases record with
    | none => exact .first (Or.inl rfl)
    | some record => exact .strip (ne_nil_of_lastCellArg last) (by simp)

theorem planAction_later (args : List Text) (record : Option GeometricRecord)
    {previous : Predecessor} (free : formulaMentionsCell previous.post cell.address = false) :
    PlanCase cell args record (some previous)
      (some (planAction (some previous.address) args record)) := by
  unfold planAction
  cases last : lastCellArg args with
  | none => exact .attach (by decide) free (Or.inl rfl)
  | some token =>
    simp only
    by_cases same : sameCellRef token previous.address = true
    · rw [if_pos same]
      exact .satisfied free (by simp [lastNames, last, same])
    · rw [if_neg same]
      have split := dropLast_of_lastCellArg last
      cases record with
      | none => exact .attach (by decide) free (Or.inl rfl)
      | some record =>
        simp only
        split
        · exact .attach (by decide) free (Or.inr ⟨token, split, by simpa using same⟩)
        · exact .attach (by decide) free (Or.inl rfl)

theorem planCell_case (split : cells = visited ++ cell :: rest) (sorted : RowMajor cells)
    (invariant : PassInvariant cells incoming visited state) (args : List Text) :
    PlanCase cell args (state.record? cell.address) (predecessorOf state.patches visited)
      (planCell state visited.getLast? cell (visited.getLast?.map GeometricCell.address) args) := by
  have cellKey : cellMapKey cell.address = cell.address :=
    sorted.key (by simp [split])
  cases last : visited.getLast? with
  | none =>
    simp only [planCell, predecessorOf, last, Option.map_none, cellKey]
    exact planAction_first cell args _
  | some previous =>
    have inCells : previous ∈ cells := by
      rw [split]
      exact mem_append_left _ (mem_of_getLast? last)
    have post : (state.newFormulas.get? previous.address).getD
        previous.formula = patchedFormula state.patches previous := by
      rw [invariant.formulas previous inCells, Option.getD_some]
    simp only [planCell, predecessorOf, last, Option.map_some, cellKey, post]
    split_ifs
    · rename_i mentioned ours
      apply PlanCase.strip
      · rintro rfl
        unfold lastIsOurs at ours
        split at ours
        · next found => simp [lastCellArg] at found
        · simp at ours
      · intro found same
        cases same
        exact mentioned
    · rename_i mentioned notOurs
      exact .blocked mentioned (by simpa using notOurs)
    · rename_i free
      exact planAction_later args _ (by simpa using free)

theorem popChosen_get? (context : RepairContext) (state : RepairState) (key chosen other : Text) :
    (popChosen context state key chosen).get? other = state.working.get? other ∨
      (popChosen context state key chosen).get? other = none := by
  unfold popChosen
  simp only
  repeat' split
  all_goals
    by_cases same : other = chosen <;> simp [same]

theorem popChosen_incoming {context : RepairContext} {state : RepairState}
    {key chosen : Text} (different : chosen ≠ key)
    (pending : IncomingSlot incoming chosen (state.working.get? chosen)) :
    (popChosen context state key chosen).get? chosen = none := by
  cases slot : state.working.get? chosen with
  | none =>
    have alternatives := popChosen_get? context state key chosen chosen
    rw [slot] at alternatives
    simpa using alternatives
  | some found =>
    have flag := (pending found slot).1
    simp [popChosen, slot, flag, different]

theorem rehomeOrKeepRecord_frame {context : RepairContext} {ref : Text}
    {args : List Text} (names : lastNames args ref = true) :
    let next := rehomeOrKeepRecord context state cell.address (some ref) args
    StepFrame incoming cell state next ∧ next.patches = state.patches ∧
      next.newFormulas = state.newFormulas ∧
      (next.working.get? cell.address = some ⟨⟨ref⟩, false⟩ ∨
        (next.working = state.working ∧ (context.incoming.contains cell.address = false ∨
            cell.address ∈ state.consumed ∨ cell.address ∈ state.evicted))) := by
  intro next
  have nextEq : next = rehomeOrKeepRecord context state cell.address (some ref) args := rfl
  unfold rehomeOrKeepRecord at nextEq
  simp only [names, Bool.not_true, Bool.false_eq_true, if_false] at nextEq
  cases choice : rehomeChoice context state cell.address ref with
  | none =>
    simp only [choice] at nextEq
    split at nextEq
    · rw [nextEq]
      refine ⟨⟨Or.inl rfl, ?_, ?_, ?_⟩, rfl, rfl, Or.inl ?_⟩
      · intro other different
        simp [RepairState.writeRecord, different]
      · intro other member _ _
        exact Or.inl member
      · intro other member
        exact Or.inl member
      · simp [RepairState.writeRecord]
    · rename_i kept
      rw [nextEq]
      refine ⟨⟨Or.inl rfl, fun _ _ => Or.inl rfl, fun _ member _ _ =>
        Or.inl member, fun _ member => Or.inl member⟩, rfl, rfl,
        Or.inr ⟨rfl, ?_⟩⟩
      simp only [Bool.and_eq_true, Bool.not_eq_true', contains_eq_mem,
        decide_eq_false_iff_not, not_and_or, not_not,
        Bool.not_eq_true] at kept
      rcases kept with (absent | consumed) | evicted
      · exact Or.inl absent
      · exact Or.inr (Or.inl consumed)
      · exact Or.inr (Or.inr evicted)
  | some chosen =>
    simp only [choice] at nextEq
    rw [nextEq]
    refine ⟨⟨Or.inl rfl, ?_, ?_, ?_⟩, rfl, rfl, Or.inl ?_⟩
    · intro other different
      simp only [PyDict.get?_set, different, if_false]
      exact popChosen_get? context state cell.address chosen other
    · intro other member different pending
      rcases mem_cons.mp member with rfl | old
      · apply Or.inr
        simp only [PyDict.get?_set, different, if_false]
        exact popChosen_incoming different pending
      · exact Or.inl old
    · intro other member
      split at member
      · rcases mem_cons.mp member with own | old
        · exact Or.inr own
        · exact Or.inl old
      · exact Or.inl member
    · simp

theorem notMem_evicted (sorted : RowMajor cells) (split : cells = visited ++ cell :: rest)
    (invariant : PassInvariant cells incoming visited state) :
    cell.address ∉ state.evicted := by
  intro member
  obtain ⟨other, inVisited, addressEq⟩ := invariant.evicted _ member
  exact visited_ne sorted split other inVisited addressEq

theorem StepFrame.refl : StepFrame incoming cell state state :=
  ⟨Or.inl rfl, fun _ _ => Or.inl rfl, fun _ member _ _ => Or.inl member,
    fun _ member => Or.inl member⟩

theorem PassInvariant.write (sorted : RowMajor cells) (split : cells = visited ++ cell :: rest)
    (invariant : PassInvariant cells incoming visited state)
    {working : PyDict Text WorkingRecord} (own : patch.address = cell.address)
    (old : patch.oldFormula = cell.formula) (others : ∀ key ≠ cell.address,
      working.get? key = state.working.get? key)
    (outcome : CellOutcome incoming cell (predecessorOf state.patches visited) patch.newFormula
      (working.get? cell.address)) :
    PassInvariant cells incoming (visited ++ [cell]) { state with
        patches := state.patches ++ [patch]
        newFormulas := state.newFormulas.set cell.address patch.newFormula
        working := working } := by
  have post : patchedFormula (state.patches ++ [patch]) cell =
      patch.newFormula :=
    patchedFormula_append_own (invariant.noPatch sorted split) own old
  apply invariant.extend sorted split
  · exact ⟨Or.inr ⟨patch, own, rfl⟩, fun key different =>
      Or.inl (others key different), fun _ member _ _ => Or.inl member,
      fun _ member => Or.inl member⟩
  · intro other member
    simp only [PyDict.get?_set, post]
  · rw [post]
    exact outcome

/-- **Step.** One iteration of the loop keeps the invariant. -/
theorem PassInvariant.repairCell (sorted : RowMajor cells) {records : PyDict Text GeometricRecord}
    (split : cells = visited ++ cell :: rest)
    (invariant : PassInvariant cells (incomingRecords records) visited state) :
    PassInvariant cells (incomingRecords records) (visited ++ [cell])
      (repairCell (repairContext cells records) visited.getLast? cell state) := by
  have cellKey : cellMapKey cell.address = cell.address :=
    sorted.key (by simp [split])
  have unvisited := visited_ne sorted split
  have noPatch : patchedFormula state.patches cell = cell.formula :=
    patchedFormula_of_noPatch (invariant.noPatch sorted split)
  have pending := invariant.pending cell.address unvisited
  have desired := desiredOf_repairContext sorted records split
  rw [cellKey] at desired
  have formulasSame : ∀ other ∈ cells, state.newFormulas.get? other.address =
        if other.address = cell.address then
          some (patchedFormula state.patches cell)
        else state.newFormulas.get? other.address := by
    intro other member
    split
    · next own => rw [own, invariant.formulas cell (by simp [split])]
    · rfl
  have stay : CellOutcome (incomingRecords records) cell
      (predecessorOf state.patches visited) cell.formula
      (state.working.get? cell.address) →
        PassInvariant cells (incomingRecords records) (visited ++ [cell])
          state := by
    intro outcome
    apply invariant.extend sorted split .refl formulasSame
    rw [noPatch]
    exact outcome
  unfold Python.repairCell
  cases read : formulaDataArgs cell.formula with
  | none => exact stay (.unparsed read pending)
  | some args =>
    have plan := planCell_case split sorted invariant args
    simp only [cellKey, desired]
    generalize planned : planCell state visited.getLast? cell
      (visited.getLast?.map GeometricCell.address) args = decision at plan
    generalize predecessor : predecessorOf state.patches visited = previous at plan stay
    cases plan with
    | blocked mentioned notOurs =>
      apply stay
      exact .blocked read mentioned pending (Or.inr notOurs)
    | first stuck =>
      have noPrevious : visited.getLast?.map GeometricCell.address =
          none := by
        simpa [predecessorOf] using predecessor
      simp only [noPrevious, rehomeOrKeepRecord]
      apply stay
      refine .first read pending ?_
      rcases stuck with noRecord | noCell
      · exact Or.inl (by simpa [RepairState.record?] using noRecord)
      · exact Or.inr noCell
    | @satisfied previous free names =>
      have isPrevious := getLast?_of_predecessorOf predecessor
      simp only [isPrevious]
      obtain ⟨frame, patchesSame, formulasKept, written⟩ :=
        @rehomeOrKeepRecord_frame cell (incomingRecords records) state
          (repairContext cells records) _ _ names
      apply invariant.extend sorted split frame
      · rw [formulasKept, patchesSame]
        exact formulasSame
      · rw [patchesSame, noPatch, predecessor]
        refine .satisfied read free names ?_
        rcases written with own | ⟨workingSame, reason⟩
        · intro found slot
          rw [own] at slot
          exact (Option.some.inj slot).symm
        · rw [workingSame]
          intro found slot
          exfalso
          rcases reason with absent | consumed | evicted
          · have present := (pending found slot).2
            have absent' : (incomingRecords records).contains cell.address = false := absent
            simp [PyDict.contains, present] at absent'
          · have gone := invariant.consumed _ unvisited consumed
            rw [gone] at slot
            simp at slot
          · exact notMem_evicted sorted split invariant evicted
    | @attach previous action base notRemove free kept =>
      have isPrevious := getLast?_of_predecessorOf predecessor
      have plain : isA1 previous.address = true := by
        simp only [Option.map_eq_some_iff] at isPrevious
        obtain ⟨last, lastEq, addressEq⟩ := isPrevious
        rw [← addressEq]
        apply sorted.plain
        rw [split]
        exact mem_append_left _ (mem_of_getLast? lastEq)
      obtain ⟨post, rewrite, changed⟩ :=
        exists_attachedFormula read plain kept
      simp only [rewrite.rebuilt, if_neg changed, isPrevious]
      apply invariant.write sorted split rfl rfl
      · intro key different
        simp [different]
      · rw [predecessor]
        apply CellOutcome.attached free rewrite
        intro found slot
        simpa using slot.symm
    | strip nonempty reason =>
      obtain ⟨post, rewrite⟩ := exists_strippedFormula read nonempty
      simp only [rewrite.rebuilt, if_neg rewrite.post_ne]
      apply invariant.write sorted split rfl rfl
      · intro key different
        simp [different]
      · rw [predecessor]
        simpa using CellOutcome.stripped rewrite reason

end Step

section Run

variable {cells : List GeometricCell} {records : PyDict Text GeometricRecord}
  {workbookKey sheetName : Text}

def finalState (cells : List GeometricCell) (records : PyDict Text GeometricRecord) : RepairState :=
  repairLoop (repairContext cells records) none cells (initialRepairState cells records)

theorem passInvariant_initial (sorted : RowMajor cells) :
    PassInvariant cells (incomingRecords records) [] (initialRepairState cells records) := by
  refine ⟨?_, ?_, ?_, ?_, ?_, ?_⟩
  · intro cell member
    have distinct : ((cells.map fun cell =>
        (cell.address, cell.formula)).map Prod.fst).Nodup := by
      simpa [Function.comp_def] using sorted.addresses
    simp only [initialRepairState]
    rw [PyDict.get?_ofPairs distinct (mem_map_of_mem member)]
    simp [patchedFormula]
  · intro patch member
    simp [initialRepairState] at member
  · intro key _ found slot
    simp only [initialRepairState, PyDict.get?_mapValues, Option.map_eq_some_iff] at slot
    obtain ⟨record, present, rfl⟩ := slot
    exact ⟨rfl, present⟩
  · intro key _ member
    simp [initialRepairState] at member
  · intro key member
    simp [initialRepairState] at member
  · intro front cell back split
    simp at split

/-- **Run.** The invariant holds of all cells when the loop is done. -/
theorem passInvariant_final (sorted : RowMajor cells) :
    PassInvariant cells (incomingRecords records) cells (finalState cells records) := by
  apply repairLoop_induction (passInvariant_initial sorted)
  intro visited cell rest state split holds
  exact holds.repairCell sorted split

theorem computeSheetRepair_patches :
    (computeSheetRepair cells records workbookKey sheetName false).patches =
      (finalState cells records).patches := by
  simp [computeSheetRepair, discoveryCapHit, finalState]

theorem computeSheetRepair_working :
    (computeSheetRepair cells records workbookKey sheetName false).records =
      ((finalState cells records).working.mapValues WorkingRecord.record).filterKeys
          (repairContext cells records).liveKeys.contains := by
  rw [← PyDict.mapValues_filterKeys]
  simp [computeSheetRepair, discoveryCapHit, finalState]

theorem computeSheetRepair_records (sorted : RowMajor cells) (member : cell ∈ cells) :
    (computeSheetRepair cells records workbookKey sheetName false).records.get? cell.address =
      ((finalState cells records).working.get? cell.address).map
        WorkingRecord.record := by
  have live : cell.address ∈ (repairContext cells records).liveKeys := by
    rw [← sorted.key member]
    exact mem_map_of_mem (f := fun cell => cellMapKey cell.address) member
  rw [computeSheetRepair_working, PyDict.get?_filterKeys, PyDict.get?_mapValues]
  simp [live]

theorem computeSheetRepair_outcome (sorted : RowMajor cells) {front back : List GeometricCell}
    {cell : GeometricCell} (split : cells = front ++ cell :: back) :
    let result :=
      computeSheetRepair cells records workbookKey sheetName false
    ∃ slot, CellOutcome (incomingRecords records) cell (predecessorOf result.patches front)
        (patchedFormula result.patches cell) slot ∧
      result.records.get? cell.address = slot.map WorkingRecord.record := by
  intro result
  have invariant := @passInvariant_final cells records sorted
  refine ⟨(finalState cells records).working.get? cell.address, ?_, ?_⟩
  · exact invariant.outcomes front cell back split
  · exact computeSheetRepair_records sorted (by simp [split])

theorem predecessor_outcome (sorted : RowMajor cells) {front back : List GeometricCell}
    {cell previous : GeometricCell} (split : cells = front ++ cell :: back)
    (isPrevious : front.getLast? = some previous) :
    ∃ earlier slot, CellOutcome (incomingRecords records) previous earlier
        (patchedFormula (computeSheetRepair cells records workbookKey
          sheetName false).patches previous) slot ∧
      ∀ found, earlier = some found → a1Position found.address ≠ a1Position cell.address := by
  have previousSplit : cells = front.dropLast ++ previous :: cell :: back := by
    rw [split]
    conv_lhs => rw [← dropLast_append_getLast? _ isPrevious]
    simp
  obtain ⟨slot, outcome, _⟩ := @computeSheetRepair_outcome cells records
    workbookKey sheetName sorted _ _ previous previousSplit
  refine ⟨_, slot, outcome, ?_⟩
  intro found isEarlier samePosition
  simp only [predecessorOf, Option.map_eq_some_iff] at isEarlier
  obtain ⟨earlier, earlierEq, rfl⟩ := isEarlier
  have inFront : earlier ∈ front :=
    mem_of_mem_dropLast (mem_of_getLast? earlierEq)
  have same := sorted.position_injective (by simp [split, inFront]) (by simp [split]) samePosition
  exact visited_ne sorted split earlier inFront (by rw [same])

end Run

end WriterAgent.Calc.Python
