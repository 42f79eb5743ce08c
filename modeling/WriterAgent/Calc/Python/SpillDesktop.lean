import WriterAgent.Calc.Python.Spill
import WriterAgent.Foundations.Runs

/-!
# The spill bookkeeping of several documents

`plugin/calc/python/function.py`, `sheet_modify.py` and
`workbook_lifecycle.py` keep one registry, one set of loaded documents, one
map of listeners and one map of timers for all documents of the process.
Most of them are keyed by the URL of a document, which is empty before the
first save.
-/

namespace WriterAgent.Calc.Python

open PyText

/-- `f"{sheet_name}:{frow},{fcol}"`. -/
def savedKey (key : SpillKey) : Text :=
  key.sheetName ++ ':' :: (Nat.toDigits 10 key.origin.1 ++ ',' :: Nat.toDigits 10 key.origin.2)

/-- `int(text)` on the numbers of a saved key. -/
def savedNumber (text : Text) : Option Nat :=
  let digits := strip text
  if digits ≠ [] ∧ digits.all isAsciiDigit then some (digitsValue digits)
  else none

/-- What the loop of `load_spill_registry_for_doc` makes of a saved key. -/
inductive LoadedKey where
  | skipped
  | raises
  | found (key : SpillKey)

def loadedKey (url text : Text) : LoadedKey :=
  match text.splitOn ':' with
  | [sheetName, coords] =>
    match coords.splitOn ',' with
    | [row, col] =>
      match savedNumber row, savedNumber col with
      | some row, some col => .found ⟨url, sheetName, (row, col)⟩
      | _, _ => .raises
    | _ => .skipped
  | _ => .skipped

/-- `load_spill_registry_for_doc`.  A number that `int` rejects ends the
loop; the entries before it stay. -/
def loadEntries (url : Text) : List (Text × List Coord) → SpillRegistry → SpillRegistry
  | [], registry => registry
  | (text, coords) :: rest, registry =>
    match loadedKey url text with
    | .skipped => loadEntries url rest registry
    | .raises => registry
    | .found key => loadEntries url rest (registry.set key coords)

/-- The object that `save_spill_registry_for_doc` dumps. -/
def savedEntries (registry : SpillRegistry) (url : Text) : PyDict Text (List Coord) :=
  PyDict.ofPairs ((registry.entries.filter fun entry =>
    entry.1.docUrl = url).map fun entry => (savedKey entry.1, entry.2))

/-- A spreadsheet document; a closed one stays closed.  `spillProperty` is
`WriterAgentSpillRegistry`, parsed. -/
structure CalcDocument (κ : Type) where
  url : Text
  sheets : List Text
  cells : Cells κ
  spillProperty : Option (PyDict Text (List Coord))
  isOpen : Bool

/-- A listener object that sits on a sheet of its owner. -/
structure SheetModifyDispatcher (δ : Type) where
  owner : δ
  docUrl : Text
  sheetName : Text

/-- A timer of `schedule_sheet_modify_pass`.  The pass runs on the owner's
sheet, but the timer is registered for the document that was current. -/
structure SheetModifyPass (δ : Type) where
  owner : δ
  timerOwner : Option δ

/-- A scheduled `perform_deferred_spill` on a target document.  `caller` is
the document whose formula was evaluated; no operation reads it. -/
structure ScheduledSpill (δ ρ : Type) where
  caller : δ
  target : δ
  spill : PendingSpill ρ

/-- The process.  Documents are told apart by `RuntimeUID`, which is never
used again; `current` is what `_get_calc_doc` finds. -/
structure Desktop (δ κ ρ : Type) where
  docs : δ → Option (CalcDocument κ)
  current : Option δ
  registry : SpillRegistry
  loadedDocuments : List Text
  sheetModifyListeners : List (Text × Text)
  attached : List (SheetModifyDispatcher δ)
  unloadListeners : List δ
  spillTimers : List (ScheduledSpill δ ρ)
  passTimers : PyDict (Text × Text) (SheetModifyPass δ)

namespace Desktop

variable {δ κ ρ : Type} [DecidableEq δ]

def start : Desktop δ κ ρ where
  docs := fun _ => none
  current := none
  registry := PyDict.empty
  loadedDocuments := []
  sheetModifyListeners := []
  attached := []
  unloadListeners := []
  spillTimers := []
  passTimers := PyDict.empty

/-- The document, unless it is closed: UNO calls on a closed one raise. -/
def document (desk : Desktop δ κ ρ) (id : δ) : Option (CalcDocument κ) :=
  (desk.docs id).filter (·.isOpen)

def updateDocument (desk : Desktop δ κ ρ) (id : δ)
    (change : CalcDocument κ → CalcDocument κ) : Desktop δ κ ρ :=
  { desk with
    docs := fun other =>
      if other = id then (desk.docs id).map change else desk.docs other }

def setCells (desk : Desktop δ κ ρ) (id : δ) (cells : Cells κ) : Desktop δ κ ρ :=
  desk.updateDocument id fun doc => { doc with cells := cells }

def saveSpillRegistryForDoc (desk : Desktop δ κ ρ) (id : δ) : Desktop δ κ ρ :=
  desk.updateDocument id fun doc =>
    if doc.isOpen then
      { doc with spillProperty := some (savedEntries desk.registry doc.url) }
    else doc

def loadSpillRegistryForDoc (desk : Desktop δ κ ρ) (id : δ) : Desktop δ κ ρ :=
  match desk.document id with
  | none => desk
  | some doc =>
    match doc.spillProperty with
    | none => desk
    | some property =>
      { desk with
        registry := loadEntries doc.url property.entries desk.registry }

/-- The check of `LOADED_DOCUMENTS` in `_prepare_auto_spill`. -/
def ensureLoaded (desk : Desktop δ κ ρ) (id : δ) (doc : CalcDocument κ) : Desktop δ κ ρ :=
  if doc.url ∈ desk.loadedDocuments then desk
  else
    { desk.loadSpillRegistryForDoc id with
      loadedDocuments := desk.loadedDocuments ++ [doc.url] }

def ensureSheetModifyListener (desk : Desktop δ κ ρ) (id : δ)
    (doc : CalcDocument κ) (sheetName : Text) : Desktop δ κ ρ :=
  if (doc.url, sheetName) ∈ desk.sheetModifyListeners then desk
  else
    { desk with
      attached := desk.attached ++ [⟨id, doc.url, sheetName⟩]
      sheetModifyListeners :=
        desk.sheetModifyListeners ++ [(doc.url, sheetName)] }

/-- `ensure_calc_workbook_unload_resets_python`. -/
def ensureUnloadListener (desk : Desktop δ κ ρ) (id : δ) : Desktop δ κ ρ :=
  if id ∈ desk.unloadListeners then desk
  else { desk with unloadListeners := desk.unloadListeners ++ [id] }

/-- A formula evaluated in the document `caller`.  The add-in is not told the
calling document: unless `doc` is passed, the current document is searched
for the formula. -/
def evaluate [DecidableEq κ] (model : CellModel κ ρ) (desk : Desktop δ κ ρ)
    (caller : δ) (docPassed : Bool) (sheetName : Text) (origin : Coord)
    (code : Text) (grid : List (List ρ)) : Desktop δ κ ρ :=
  match if docPassed then some caller else desk.current with
  | none => desk
  | some target =>
    match desk.document target with
    | none => desk
    | some doc =>
      let desk := desk.ensureUnloadListener target
      let sheet := doc.cells sheetName
      if sheetName ∈ doc.sheets && isMatchingPyFormula (model.getFormula (sheet origin)) code then
        let desk := (desk.ensureLoaded target doc).ensureSheetModifyListener target doc sheetName
        let key : SpillKey := ⟨doc.url, sheetName, origin⟩
        if spillIsFree model sheet (spillsOf desk.registry key) (spillTargets origin grid) then
          { desk with
            spillTimers :=
              desk.spillTimers ++ [⟨caller, target, key, grid, code⟩] }
        else desk
      else desk

def perform (model : CellModel κ ρ) (desk : Desktop δ κ ρ) (index : Nat) : Desktop δ κ ρ :=
  match desk.spillTimers[index]? with
  | none => desk
  | some timer =>
    let desk := { desk with spillTimers := desk.spillTimers.eraseIdx index }
    match desk.document timer.target with
    | none => desk
    | some doc =>
      if timer.spill.key.sheetName ∈ doc.sheets then
        let outcome := performDeferredSpill model doc.url doc.cells desk.registry timer.spill
        let desk := { desk with registry := outcome.registry }.setCells timer.target outcome.cells
        if outcome.saves then desk.saveSpillRegistryForDoc timer.target
        else desk
      else desk

/-- `SheetModifyDispatcher.modified`: a timer of the same key is replaced. -/
def modified (desk : Desktop δ κ ρ) (index : Nat) : Desktop δ κ ρ :=
  match desk.attached[index]? with
  | none => desk
  | some listener =>
    let key := (listener.docUrl, listener.sheetName)
    { desk with
      passTimers :=
        (desk.passTimers.pop key).set key ⟨listener.owner, desk.current⟩ }

/-- `run_sheet_modify_pass`, the clean-up of orphans.  It saves for the
current document. -/
def runSheetModifyPass (model : CellModel κ ρ) (desk : Desktop δ κ ρ)
    (key : Text × Text) : Desktop δ κ ρ :=
  match desk.passTimers.get? key with
  | none => desk
  | some pass =>
    let desk := { desk with passTimers := desk.passTimers.pop key }
    match desk.document pass.owner with
    | none => desk
    | some doc =>
      let outcome := cleanUpOrphans model key.1 key.2 doc.cells desk.registry
      let desk := { desk with registry := outcome.registry }.setCells pass.owner outcome.cells
      match desk.current with
      | some id => if outcome.saves then desk.saveSpillRegistryForDoc id else desk
      | none => desk

def clearInMemorySpillState (desk : Desktop δ κ ρ) (id : δ) (url : Text) : Desktop δ κ ρ :=
  let desk := { desk with
    spillTimers := desk.spillTimers.filter (·.target ≠ id)
    passTimers := desk.passTimers.filterKeys fun key =>
      (desk.passTimers.get? key).bind (·.timerOwner) ≠ some id }
  if url = [] then desk
  else
    { desk with
      loadedDocuments := desk.loadedDocuments.filter (· ≠ url)
      registry := desk.registry.filterKeys (·.docUrl ≠ url)
      sheetModifyListeners :=
        desk.sheetModifyListeners.filter (·.1 ≠ url) }

def disposing (desk : Desktop δ κ ρ) (listener : SheetModifyDispatcher δ) : Desktop δ κ ρ :=
  let key := (listener.docUrl, listener.sheetName)
  { desk with
    sheetModifyListeners := desk.sheetModifyListeners.filter (· ≠ key)
    passTimers := desk.passTimers.pop key }

def close (desk : Desktop δ κ ρ) (id : δ) : Desktop δ κ ρ :=
  match desk.document id with
  | none => desk
  | some doc =>
    let desk :=
      if id ∈ desk.unloadListeners then desk.clearInMemorySpillState id doc.url
      else desk
    let desk := (desk.attached.filter (·.owner = id)).foldl disposing desk
    { desk.updateDocument id fun doc => { doc with isOpen := false } with
      attached := desk.attached.filter (·.owner ≠ id)
      unloadListeners := desk.unloadListeners.filter (· ≠ id)
      current := if desk.current = some id then none else desk.current }

/-- A new document with a `RuntimeUID` of its own. -/
def openDocument (desk : Desktop δ κ ρ) (id : δ) (url : Text) (sheets : List Text) (cells : Cells κ)
    (spillProperty : Option (PyDict Text (List Coord))) : Desktop δ κ ρ :=
  match desk.docs id with
  | some _ => desk
  | none =>
    { desk with
      docs := fun other =>
        if other = id then some ⟨url, sheets, cells, spillProperty, true⟩
        else desk.docs other }

def edit (desk : Desktop δ κ ρ) (id : δ) (sheetName : Text) (coord : Coord)
    (content : κ) : Desktop δ κ ρ :=
  desk.updateDocument id fun doc =>
    { doc with
      cells := fun name other =>
        if name = sheetName ∧ other = coord then content
        else doc.cells name other }

end Desktop

inductive DesktopAction (δ κ ρ : Type) where
  | openDocument (id : δ) (url : Text) (sheets : List Text) (cells : Cells κ)
      (spillProperty : Option (PyDict Text (List Coord)))
  | activate (id : Option δ)
  | edit (id : δ) (sheetName : Text) (coord : Coord) (content : κ)
  | evaluate (caller : δ) (docPassed : Bool) (sheetName : Text)
      (origin : Coord) (code : Text) (grid : List (List ρ))
  | perform (index : Nat)
  | modified (index : Nat)
  | runSheetModifyPass (key : Text × Text)
  | save (id : δ)
  | load (id : δ)
  | close (id : δ)

section Step

variable {δ κ ρ : Type} [DecidableEq δ]

def desktopStep [DecidableEq κ] (model : CellModel κ ρ)
    (desk : Desktop δ κ ρ) : DesktopAction δ κ ρ → Desktop δ κ ρ
  | .openDocument id url sheets cells spillProperty =>
    desk.openDocument id url sheets cells spillProperty
  | .activate id => { desk with current := id }
  | .edit id sheetName coord content => desk.edit id sheetName coord content
  | .evaluate caller docPassed sheetName origin code grid =>
    desk.evaluate model caller docPassed sheetName origin code grid
  | .perform index => desk.perform model index
  | .modified index => desk.modified index
  | .runSheetModifyPass key => desk.runSheetModifyPass model key
  | .save id => desk.saveSpillRegistryForDoc id
  | .load id => desk.loadSpillRegistryForDoc id
  | .close id => desk.close id

def DesktopAction.trigger (desk : Desktop δ κ ρ) : DesktopAction δ κ ρ → Option δ
  | .openDocument id _ _ _ _ => some id
  | .activate _ => none
  | .edit id _ _ _ => some id
  | .evaluate caller _ _ _ _ _ => some caller
  | .perform index => (desk.spillTimers[index]?).map (·.caller)
  | .modified index => (desk.attached[index]?).map (·.owner)
  | .runSheetModifyPass key => (desk.passTimers.get? key).map (·.owner)
  | .save id => some id
  | .load id => some id
  | .close id => some id

end Step

end WriterAgent.Calc.Python
