import WriterAgent.Calc.Python.DataArgs
import WriterAgent.Foundations.Dict

/-!
# Geometric recalculation order

The sheet's Python cells form a list in row-major order; the repair pass
attaches the previous list entry to every later formula as a trailing data
argument and keeps a map of the references it wrote itself.
-/

namespace WriterAgent.Calc.Python

open PyText

structure GeometricCell where
  address : Text
  formula : Text
  resolvedCode : Text
deriving Repr, DecidableEq

/-- Attach map entry: the predecessor the pass wrote onto the cell. -/
structure GeometricRecord where
  predecessor : Text
deriving Repr, DecidableEq

inductive GeometricAction where
  | append
  | replace
  | remove
deriving Repr, DecidableEq

structure GeometricPatch where
  address : Text
  oldFormula : Text
  newFormula : Text
  action : GeometricAction
  predecessor : Option Text
deriving Repr, DecidableEq

structure EvalIndexKey where
  workbookKey : Text
  resolvedCode : Text
  nArgs : Nat
deriving Repr, DecidableEq

structure SheetRepairResult where
  skipped : Bool
  skipReason : Option Text
  patches : List GeometricPatch
  records : PyDict Text GeometricRecord
  stripSafe : List EvalIndexKey
  userMessage : Option Text
  sheetName : Text
deriving DecidableEq

def localA1 (address : Text) : Text :=
  upper (strip (removeChar '$' (splitSheetPrefix address).2))

def cellMapKey (address : Text) : Text := localA1 address

def sameCellRef (left right : Text) : Bool :=
  !left.isEmpty && !right.isEmpty && localA1 left == localA1 right

/-- `_arg_covers_cell`: a data argument, cell or range, includes the cell. -/
def argCoversCell (arg targetA1 : Text) : Bool :=
  let rest := strip (removeChar '$' (splitSheetPrefix arg).2)
  if rest.isEmpty || targetA1.isEmpty then false
  else
    match parseRangeString rest, parseAddress targetA1 with
    | some ((c0, r0), (c1, r1)), some (tcol, trow) =>
      decide (min c0 c1 ≤ tcol ∧ tcol ≤ max c0 c1) &&
        decide (min r0 r1 ≤ trow ∧ trow ≤ max r0 r1)
    | _, _ => false

/-- `formula_data_args`; `none` if the formula does not parse. -/
def formulaDataArgs (formula : Text) : Option (List Text) :=
  (parsePythonFormula formula).map fun parts => readDataArgs parts.dataSuffix

def isSingleCellArg (arg : Text) : Bool := pyCodeArgIsCellRef arg

def formulaMentionsCell (formula address : Text) : Bool :=
  let target := localA1 address
  if target.isEmpty || formula.isEmpty then false
  else
    match formulaDataArgs formula with
    | none => false
    | some args =>
      args.any (argCoversCell · target) || (pyFormulaHasUnquotedCodeRef formula &&
          match parsePythonFormula formula with
          | some parts => sameCellRef parts.code address
          | none => false)

def repairNArgs (formula : Text) : Nat :=
  match formulaDataArgs formula with
  | none => 0
  | some args => args.length

def geometricDiscoveryCap : Nat := 100

def discoveryCapHit (nFound : Nat) (truncated : Option Bool) : Bool :=
  match truncated with
  | some cut => cut
  | none => decide (geometricDiscoveryCap ≤ nFound)

def geometricCapHitUserMessage (sheetName : Text) : Text :=
  "Geometric Recalc Order skipped sheet '".toList ++ sheetName ++
    "': found 100 or more Python cells (discovery cap). The sheet was left unchained so a partial list is not treated as complete.".toList

/-- The tokens of `_geometric_data_suffix`: old spellings are kept, and only a
new last token is formatted. -/
def emittedArgs : List Text → List Text → List Text
  | _, [] => []
  | old :: olds, tok :: rest =>
    (if tok = old || sameCellRef tok old then old
      else if rest.isEmpty then formatPyDataRange tok
      else tok) :: emittedArgs olds rest
  | [], tok :: rest => (if rest.isEmpty then formatPyDataRange tok else tok) :: emittedArgs [] rest

def geometricDataSuffix (oldArgs newArgs : List Text) : Text :=
  dataSuffixText (emittedArgs oldArgs newArgs)

def rebuildFormulaWithDataArgs (formula : Text) (dataArgs : List Text) : Option Text :=
  match parsePythonFormula formula with
  | none => none
  | some parts =>
    let oldArgs := (formulaDataArgs formula).getD []
    let suffix := geometricDataSuffix oldArgs dataArgs
    if pyFormulaHasUnquotedCodeRef formula then
      some (parts.callPrefix ++ (parts.code ++ suffix))
    else
      some (parts.callPrefix ++ ('"' :: (escapeCodeForExcelFormula parts.code ++ '"' :: suffix)))

inductive PlannedAction where
  | write (action : GeometricAction) (args : List Text)
  | noop
deriving Repr, DecidableEq

def lastCellArg (dataArgs : List Text) : Option Text :=
  dataArgs.getLast?.filter isSingleCellArg

def planAction (desired : Option Text) (dataArgs : List Text)
    (record : Option GeometricRecord) : PlannedAction :=
  match desired, lastCellArg dataArgs with
  | none, some _ => if record.isSome then .write .remove dataArgs.dropLast else .noop
  | none, none => .noop
  | some desired, none => .write .append (dataArgs ++ [desired])
  | some desired, some last =>
    if sameCellRef last desired then .noop
    else
      match record with
      | some record =>
        if sameCellRef last record.predecessor then
          .write .replace (dataArgs.dropLast ++ [desired])
        else .write .append (dataArgs ++ [desired])
      | none => .write .append (dataArgs ++ [desired])

def a1Shift (address : Text) (dcol drow : Int) : Option Text :=
  match parseAddress (localA1 address) with
  | none => none
  | some (col, row) =>
    let ncol := (col : Int) + dcol
    let nrow := (row : Int) + drow
    if ncol < 0 ∨ nrow < 0 then none
    else some (formatAddress ncol.toNat nrow.toNat)

/-- `_rule2_candidate_score`: the cell moved together with its formula. -/
def rule2CandidateScore (old : Text) (record : GeometricRecord)
    (live desired : Text) : Option (Nat × Nat) :=
  match parseAddress (localA1 old), parseAddress (localA1 live) with
  | some (ocol, orow), some (lcol, lrow) =>
    let dcol := (lcol : Int) - ocol
    let drow := (lrow : Int) - orow
    if dcol = 0 ∧ drow = 0 then none
    else
      match a1Shift record.predecessor dcol drow with
      | some shifted =>
        if sameCellRef shifted desired then
          some (0, dcol.natAbs + drow.natAbs)
        else none
      | none => none
  | _, _ => none

/-- `_rehome_candidate_score`: rule 2, else a true orphan with the same
predecessor. -/
def rehomeCandidateScore (old : Text) (record : GeometricRecord)
    (live desired : Text) (liveKeys : List Text) : Option (Nat × Nat) :=
  match rule2CandidateScore old record live desired with
  | some score => some score
  | none =>
    if sameCellRef record.predecessor desired && !liveKeys.contains old then
      some (1, 0)
    else none

def scoreLess (left right : Nat × Nat) : Bool :=
  decide (left.1 < right.1) || (left.1 == right.1 && decide (left.2 < right.2))

/-- The first entry of least score, as the strict comparison of the loops
selects it. -/
def bestCandidate (score : Text → GeometricRecord → Option (Nat × Nat))
    (entries : List (Text × GeometricRecord)) : Option (Text × (Nat × Nat)) :=
  entries.foldl (fun best entry =>
      match score entry.1 entry.2, best with
      | none, _ => best
      | some found, none => some (entry.1, found)
      | some found, some (_, least) =>
        if scoreLess found least then some (entry.1, found) else best)
    none

abbrev DesiredByKey := PyDict Text (Option Text)

/-- `desired_by_key.get(key)`. -/
def desiredOf (desiredByKey : DesiredByKey) (key : Text) : Option Text :=
  (desiredByKey.get? key).join

def incomingIsDisplaced (old : Text) (record : GeometricRecord)
    (liveKeys : List Text) (desiredByKey : DesiredByKey) : Bool :=
  if !liveKeys.contains old then true
  else
    match desiredOf desiredByKey old with
    | none => true
    | some liveDesired => !sameCellRef record.predecessor liveDesired

def lastNames (dataArgs : List Text) (desired : Text) : Bool :=
  match lastCellArg dataArgs with
  | some last => sameCellRef last desired
  | none => false

/-- One cell of `_collect_rule2_claimed`: the incoming key it claims. -/
def claimFor (cell : GeometricCell) (incoming : PyDict Text GeometricRecord) (liveKeys : List Text)
    (desiredByKey : DesiredByKey) (claimed : List Text) : Option Text :=
  let key := cellMapKey cell.address
  match desiredOf desiredByKey key with
  | none => none
  | some desired =>
    match formulaDataArgs cell.formula with
    | none => none
    | some dataArgs =>
      if lastNames dataArgs desired then
        (bestCandidate (fun old record =>
            if claimed.contains old then none
            else if incomingIsDisplaced old record liveKeys desiredByKey
              then rule2CandidateScore old record key desired
            else none)
          incoming.entries).map Prod.fst
      else none

def collectRule2Claimed (cells : List GeometricCell) (incoming : PyDict Text GeometricRecord)
    (liveKeys : List Text) (desiredByKey : DesiredByKey) : List Text :=
  cells.foldl (fun claimed cell =>
      match claimFor cell incoming liveKeys desiredByKey claimed with
      | some chosen => chosen :: claimed
      | none => claimed)
    []

def recordIsHomeless (old : Text) (liveKeys evicted rule2Claimed : List Text) :
    Bool :=
  if evicted.contains old || !liveKeys.contains old then true
  else rule2Claimed.contains old

/-- A value of the working map.  The source compares records by object
identity; the flag says whether the object is still the incoming one. -/
structure WorkingRecord where
  record : GeometricRecord
  isIncoming : Bool
deriving Repr, DecidableEq

/-- What the pass knows about the sheet before it visits a cell. -/
structure RepairContext where
  incoming : PyDict Text GeometricRecord
  liveKeys : List Text
  desiredByKey : DesiredByKey
  rule2Claimed : List Text

structure RepairState where
  working : PyDict Text WorkingRecord
  patches : List GeometricPatch
  newFormulas : PyDict Text Text
  consumed : List Text
  evicted : List Text

def RepairState.record? (state : RepairState) (key : Text) : Option GeometricRecord :=
  (state.working.get? key).map WorkingRecord.record

def RepairState.writeRecord (state : RepairState) (key desired : Text) :
    RepairState :=
  { state with working := state.working.set key ⟨⟨desired⟩, false⟩ }

/-- The homeless incoming record that a satisfied cell takes over. -/
def rehomeChoice (context : RepairContext) (state : RepairState)
    (key desired : Text) : Option Text :=
  (bestCandidate (fun old record =>
      if state.consumed.contains old then none
      else if !recordIsHomeless old context.liveKeys state.evicted context.rule2Claimed then none
      else rehomeCandidateScore old record key desired context.liveKeys)
    context.incoming.entries).map Prod.fst

/-- The chosen key leaves the map unless a new record was written there. -/
def popChosen (context : RepairContext) (state : RepairState)
    (key chosen : Text) : PyDict Text WorkingRecord :=
  let stillIncoming :=
    match state.working.get? chosen with
    | some slot => slot.isIncoming
    | none => false
  if chosen != key && stillIncoming then state.working.pop chosen
  else if !context.liveKeys.contains chosen then state.working.pop chosen
  else state.working

def rehomeOrKeepRecord (context : RepairContext) (state : RepairState)
    (key : Text) (desired : Option Text) (dataArgs : List Text) :
    RepairState :=
  match desired with
  | none => state
  | some desired =>
    if !lastNames dataArgs desired then state
    else
      match rehomeChoice context state key desired with
      | none =>
        if context.incoming.contains key &&
            !state.consumed.contains key && !state.evicted.contains key then
          state.writeRecord key desired
        else state
      | some chosen =>
        let consumed := chosen :: state.consumed
        let evicted :=
          if context.incoming.contains key && key != chosen &&
              !consumed.contains key then key :: state.evicted
          else state.evicted
        { state with
          working := (popChosen context state key chosen).set key ⟨⟨desired⟩, false⟩
          consumed := consumed
          evicted := evicted }

def lastIsOurs (dataArgs : List Text) (record : Option GeometricRecord) : Bool :=
  match record, lastCellArg dataArgs with
  | some record, some last => sameCellRef last record.predecessor
  | _, _ => false

/-- What the pass decides for a cell; `none` leaves the cell and its record
alone (the predecessor already refers to it, so attaching is `Err:522`). -/
def planCell (state : RepairState) (previous : Option GeometricCell)
    (cell : GeometricCell) (desired : Option Text) (dataArgs : List Text) :
    Option PlannedAction :=
  let record := state.record? (cellMapKey cell.address)
  match desired, previous with
  | some _, some previous =>
    let predFormula :=
      (state.newFormulas.get? previous.address).getD previous.formula
    if formulaMentionsCell predFormula cell.address then
      if lastIsOurs dataArgs record then
        some (.write .remove dataArgs.dropLast)
      else none
    else some (planAction desired dataArgs record)
  | _, _ => some (planAction desired dataArgs record)

/-- One iteration of the loop of `compute_sheet_repair`. -/
def repairCell (context : RepairContext) (previous : Option GeometricCell)
    (cell : GeometricCell) (state : RepairState) : RepairState :=
  match formulaDataArgs cell.formula with
  | none => state
  | some dataArgs =>
    let key := cellMapKey cell.address
    let desired := desiredOf context.desiredByKey key
    match planCell state previous cell desired dataArgs with
    | none => state
    | some .noop => rehomeOrKeepRecord context state key desired dataArgs
    | some (.write action newArgs) =>
      match rebuildFormulaWithDataArgs cell.formula newArgs with
      | none => state
      | some newFormula =>
        if newFormula = cell.formula then state
        else
          { state with
            patches := state.patches ++ [⟨cell.address, cell.formula, newFormula, action, desired⟩]
            newFormulas := state.newFormulas.set cell.address newFormula
            working :=
              match action, desired with
              | .remove, _ => state.working.pop key
              | _, some desired => state.working.set key ⟨⟨desired⟩, false⟩
              | _, none => state.working }

def repairLoop (context : RepairContext) :
    Option GeometricCell → List GeometricCell → RepairState → RepairState
  | _, [], state => state
  | previous, cell :: rest, state =>
    repairLoop context (some cell) rest (repairCell context previous cell state)

def desiredEntries : Option GeometricCell → List GeometricCell → List (Text × Option Text)
  | _, [] => []
  | previous, cell :: rest =>
    (cellMapKey cell.address, previous.map fun p => localA1 p.address) ::
      desiredEntries (some cell) rest

def incomingRecords (records : PyDict Text GeometricRecord) : PyDict Text GeometricRecord :=
  .ofPairs (records.entries.map fun entry => (cellMapKey entry.1, entry.2))

def repairContext (cells : List GeometricCell)
    (records : PyDict Text GeometricRecord) : RepairContext :=
  let incoming := incomingRecords records
  let liveKeys := cells.map fun cell => cellMapKey cell.address
  let desiredByKey := PyDict.ofPairs (desiredEntries none cells)
  { incoming, liveKeys, desiredByKey,
    rule2Claimed := collectRule2Claimed cells incoming liveKeys desiredByKey }

def initialRepairState (cells : List GeometricCell)
    (records : PyDict Text GeometricRecord) : RepairState where
  working := (incomingRecords records).mapValues fun record => ⟨record, true⟩
  patches := []
  newFormulas := .ofPairs (cells.map fun cell => (cell.address, cell.formula))
  consumed := []
  evicted := []

def evalIndexKey (workbookKey : Text) (formulas : PyDict Text Text)
    (cell : GeometricCell) : EvalIndexKey :=
  ⟨workbookKey, cell.resolvedCode, repairNArgs ((formulas.get? cell.address).getD cell.formula)⟩

/-- `compute_eval_index`: a key is safe iff every cell with it is in the
map. -/
def computeEvalIndex (cells : List GeometricCell) (formulas : PyDict Text Text)
    (records : PyDict Text GeometricRecord) (workbookKey : Text) :
    List EvalIndexKey :=
  let groups : PyDict EvalIndexKey (List Text) :=
    cells.foldl (fun groups cell =>
        let key := evalIndexKey workbookKey formulas cell
        groups.set key ((groups.get? key).getD [] ++ [cell.address]))
      .empty
  (groups.entries.filter fun group =>
    !group.2.isEmpty && group.2.all records.contains).map Prod.fst

def shouldStripEvalArgs (workbookKey : Option Text) (resolvedCode : Text)
    (nArgs : Nat) (stripSafe : List EvalIndexKey) (unambiguous : Bool) : Bool :=
  match workbookKey with
  | none => false
  | some key => unambiguous && !key.isEmpty && stripSafe.contains ⟨key, resolvedCode, nArgs⟩

def computeSheetRepair (cells : List GeometricCell) (records : PyDict Text GeometricRecord)
    (workbookKey sheetName : Text) (truncated : Bool) : SheetRepairResult :=
  if discoveryCapHit cells.length (some truncated) then
    { skipped := true
      skipReason := some "discovery_cap".toList
      patches := []
      records := incomingRecords records
      stripSafe := []
      userMessage := some (geometricCapHitUserMessage
        (if sheetName.isEmpty then ['?'] else sheetName))
      sheetName := sheetName }
  else
    let context := repairContext cells records
    let final := repairLoop context none cells (initialRepairState cells records)
    let working := (final.working.filterKeys context.liveKeys.contains).mapValues
      WorkingRecord.record
    { skipped := false
      skipReason := none
      patches := final.patches
      records := working
      stripSafe := computeEvalIndex cells final.newFormulas working workbookKey
      userMessage := none
      sheetName := sheetName }

/-- The formula a cell holds once the returned patches are applied. -/
def patchedFormula (patches : List GeometricPatch) (cell : GeometricCell) :
    Text :=
  match patches.find? fun patch =>
      patch.address = cell.address && patch.oldFormula = cell.formula with
  | some patch => patch.newFormula
  | none => cell.formula

end WriterAgent.Calc.Python
