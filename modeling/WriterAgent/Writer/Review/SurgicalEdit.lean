import WriterAgent.Foundations.TextScan
import WriterAgent.Foundations.UndoManager
import WriterAgent.Writer.Review.RecordMutation
import WriterAgent.Writer.WordDiffSplit

/-!
# Surgical edits

`record_preserve_replace` in `plugin/writer/edit_review.py`: a block is replaced
as a whole, or its sub-edits are applied from right to left inside of one undo
context, which is undone when one of them raises.
-/

namespace WriterAgent.Writer

open PyText

/-- A character; a tracked deletion strikes it, and it stays in the string of
the block. -/
structure BlockChar where
  char : Char
  struck : Bool
  deriving DecidableEq, Repr

def normalizeLinebreaks (s : Text) : Text :=
  replaceText ['\r'] ['\n'] (replaceText ['\n', '\r'] ['\n'] (replaceText ['\r', '\n'] ['\n'] s))

abbrev BlockText := List BlockChar

namespace BlockText

def plain (s : Text) : BlockText := s.map (⟨·, false⟩)

/-- `getString`. -/
def shown (block : BlockText) : Text := block.map (·.char)

/-- `_string_skipping_redline(block, "Delete")`. -/
def accepted (block : BlockText) : Text :=
  (block.filter (!·.struck)).map (·.char)

def strike (block : BlockText) : BlockText :=
  block.map ({ · with struck := true })

end BlockText

/-- What undoing takes back. -/
structure EditedText where
  block : BlockText
  redlines : List SessionRedline
  deriving DecidableEq, Repr

/-- What is called on the undo manager and on the block, in order; `undoRaised`
also stands for titles that cannot be read. -/
inductive SurgicalEvent where
  | entered (title : Text)
  | left
  | undoRaised
  | replaced (e : SubEdit)
  | replacedWhole
  deriving DecidableEq, Repr

/-- The document with its session.  `batches` is the counter of the titles;
`looseAnchors` are the anchors of the open context whose insertion the undo lock
has missed. -/
structure SurgicalDocument where
  block : BlockText
  session : ReviewSession
  undo : UndoManager EditedText
  looseAnchors : List Text
  batches : ℕ
  events : List SurgicalEvent
  deriving DecidableEq, Repr

/-- `_SPLIT_AUTHOR_COLORS`, `_WORD_DIFF_THRESHOLD` and `_MAX_SURGICAL_RUNS`. -/
structure SurgicalConfig where
  splitAuthorColors : Bool
  wordDiffThreshold : Binary64
  maxSurgicalRuns : ℕ

/-- How the cursor of `_select` moves. -/
inductive CursorMove where
  | exact
  | stopped
  | raised
  deriving DecidableEq, Repr

/-- One call of `replace_preserving_format`: whether the document records
changes, whether the call raises, what a call that raises leaves behind, and the
redlines of one that does not. -/
structure ReplaceFaults where
  recording : Bool
  raises : Bool
  halfDone : EditedText
  redlines : List SessionRedline

/-- One call of `record_mutation` with its edit. -/
structure EditFaults where
  move : CursorMove
  replace : ReplaceFaults
  mutation : MutationFaults
  acceptedText : Text
  rejectedText : Text
  actionTitle : Text
  missesLock : Bool
  staysLocked : Bool

structure CloseFaults where
  leave : Bool
  titles : Bool
  undo : Bool
  bookmarks : Bool
  anchor : Text → Bool
  staysLocked : Bool

/-- One call of `record_preserve_replace`.  The undo manager is asked for up to
two contexts, and the sub-edits are numbered. -/
structure SurgicalFaults where
  readBlock : Bool
  readWhole : Bool
  offsetSafe : Bool
  range : Bool
  preFlight : ℕ → CursorMove
  enterBatch : Bool
  enterWhole : Bool
  subEdit : ℕ → EditFaults
  whole : EditFaults
  close : CloseFaults

structure Replacement where
  after : EditedText
  raised : Bool
  deriving DecidableEq, Repr

/-- `replace_preserving_format` of a piece of the block.  While changes are
recorded outside of a context, one `setString` does all or nothing. -/
def replacePreservingFormat (faults : ReplaceFaults) (inUndoContext : Bool)
    (redlines : List SessionRedline) (front piece back : BlockText)
    (newText : Text) : Replacement :=
  let new := normalizeLinebreaks newText
  let untouched : EditedText := ⟨front ++ (piece ++ back), redlines⟩
  if faults.recording then
    if new = normalizeLinebreaks piece.shown then ⟨untouched, faults.raises⟩
    else if faults.raises then
      ⟨if inUndoContext then faults.halfDone else untouched, true⟩
    else
      ⟨⟨front ++ (piece.strike ++ .plain new ++ back), faults.redlines⟩, false⟩
  else if faults.raises then ⟨faults.halfDone, true⟩
  else ⟨⟨front ++ (.plain new ++ back), faults.redlines⟩, false⟩

/-- `_bound`. -/
def boundPreview (s : Text) : Text :=
  if s.length ≤ 300 then s else s.take 299 ++ ['…']

inductive Selection where
  | selected
  | missed
  | raised
  deriving DecidableEq, Repr

/-- `_select` with the comparison of the text that it has selected. -/
def select (move : CursorMove) (block : BlockText) (e : SubEdit) : Selection :=
  match move with
  | .raised => .raised
  | .stopped => .missed
  | .exact =>
    if e.oldEnd ≤ block.length ∧ BlockText.shown (slice block e.oldStart e.oldEnd) = e.oldText
      then .selected
    else .missed

def preFlight (move : ℕ → CursorMove) (block : BlockText) : ℕ → List SubEdit → Selection
  | _, [] => .selected
  | index, e :: rest =>
    match select (move index) block e with
    | .selected => preFlight move block (index + 1) rest
    | other => other

/-- The call of `record_mutation` with a replacement as its edit. -/
def EditFaults.call (faults : EditFaults) (replacement : Replacement)
    (original proposed : Text) : MutationCall where
  edit := replacement.after.redlines
  faults := { faults.mutation with edit := replacement.raised }
  acceptedText := faults.acceptedText
  rejectedText := faults.rejectedText
  originalPreview := boundPreview original
  proposedPreview := boundPreview proposed

namespace SurgicalDocument

def log (doc : SurgicalDocument) (event : SurgicalEvent) : SurgicalDocument :=
  { doc with events := doc.events ++ [event] }

/-- `session.record_mutation` with an edit of the block, and whether it
raises. -/
def recordEdit (doc : SurgicalDocument) (faults : EditFaults)
    (replacement : Replacement) (original proposed : Text) :
    SurgicalDocument × Bool :=
  let before : EditedText := ⟨doc.block, doc.session.redlines⟩
  let session :=
    doc.session.recordMutation (faults.call replacement original proposed)
  let undo := if replacement.after = before then doc.undo
    else doc.undo.record faults.actionTitle before
  ({ doc with
      block := replacement.after.block
      session := session
      undo := undo.lockIf faults.staysLocked
      looseAnchors :=
        if faults.missesLock then
          session.bookmarks.take (session.bookmarks.length - doc.session.bookmarks.length) ++
              doc.looseAnchors
        else doc.looseAnchors },
    replacement.raised)

/-- `apply_se` in `session.record_mutation`. -/
def applySubEdit (doc : SurgicalDocument) (faults : EditFaults)
    (e : SubEdit) : SurgicalDocument × Bool :=
  match select faults.move doc.block e with
  | .selected =>
    let replacement := replacePreservingFormat faults.replace true
      doc.session.redlines (doc.block.take e.oldStart)
      (slice doc.block e.oldStart e.oldEnd) (doc.block.drop e.oldEnd)
      e.newText
    (doc.log (.replaced e)).recordEdit faults replacement e.oldText e.newText
  | _ => doc.recordEdit faults ⟨⟨doc.block, doc.session.redlines⟩, true⟩ e.oldText e.newText

def applyBatch (faults : ℕ → EditFaults) :
    ℕ → SurgicalDocument → List SubEdit → SurgicalDocument × Bool
  | _, doc, [] => (doc, false)
  | index, doc, e :: rest =>
    let applied := doc.applySubEdit (faults index) e
    if applied.2 then (applied.1, true)
    else applyBatch faults (index + 1) applied.1 rest

/-- `next_surgical_undo_title`. -/
def surgicalUndoTitle (batch : ℕ) : Text :=
  "WriterAgent surgical edit#".toList ++ Nat.toDigits 10 batch

/-- A context is entered, unless the manager is locked or something raises. -/
def enterContext (doc : SurgicalDocument) (raises : Bool) : SurgicalDocument × Option Text :=
  let title := surgicalUndoTitle doc.batches
  let named := { doc with batches := doc.batches + 1 }
  if raises || doc.undo.locked then (named, none)
  else
    ({ named.log (.entered title) with
        undo := doc.undo.enterUndoContext title ⟨doc.block, doc.session.redlines⟩
        looseAnchors := [] },
      some title)

def removeAnchorBookmarks (faults : CloseFaults) (records : List RecordedEdit)
    (bookmarks : List Text) : List Text :=
  if faults.bookmarks then bookmarks
  else records.foldl (fun bookmarks change =>
    if change.record.bookmark.isEmpty || faults.anchor change.record.bookmark
      then bookmarks
    else bookmarks.filter (· ≠ change.record.bookmark)) bookmarks

def discardChangesSince (doc : SurgicalDocument) (faults : CloseFaults)
    (count : ℕ) : SurgicalDocument :=
  if doc.session.changes.length ≤ count then doc
  else
    let trimmed := { doc.session with changes := doc.session.changes.take count }
    if !doc.session.active then { doc with session := trimmed }
    else
      { doc with
        session := { trimmed with
          bookmarks := removeAnchorBookmarks faults
            (doc.session.changes.drop count) doc.session.bookmarks }
        undo := doc.undo.lockIf (!faults.bookmarks && faults.staysLocked) }

def undoBatch (doc : SurgicalDocument) (faults : CloseFaults) (title : Text) :
    SurgicalDocument × Bool :=
  if faults.titles then (doc.log .undoRaised, false)
  else if doc.undo.getAllUndoActionTitles.head? ≠ some title then (doc, false)
  else
    match if faults.undo then none else doc.undo.undo with
    | none => (doc.log .undoRaised, false)
    | some (before, undo) =>
      ({ doc with
          block := before.block
          session := { doc.session with
            redlines := before.redlines
            bookmarks := doc.session.bookmarks.filter (· ∉ doc.looseAnchors) }
          undo := undo },
        true)

/-- The records of the batch go when it is undone, or when there are none. -/
def dropRecords (doc : SurgicalDocument) (faults : CloseFaults)
    (changesBefore : ℕ) (undone : Bool) : SurgicalDocument :=
  if undone || doc.session.changes.length = changesBefore then
    doc.discardChangesSince faults changesBefore
  else doc

def closeSurgicalContext (doc : SurgicalDocument) (faults : CloseFaults)
    (changesBefore : ℕ) (appliedOk : Bool) (title : Text) : SurgicalDocument :=
  let called := doc.log .left
  match if faults.leave then none else doc.undo.leaveUndoContext with
  | none =>
    if appliedOk then called
    else called.dropRecords faults changesBefore false
  | some undo =>
    let closed := { called with undo := undo }
    if appliedOk then closed
    else
      let undone := closed.undoBatch faults title
      undone.1.dropRecords faults changesBefore undone.2

def replaceWhole (doc : SurgicalDocument) (faults : EditFaults)
    (newText : Text) (inUndoContext : Bool) : SurgicalDocument × Bool :=
  let replacement := replacePreservingFormat faults.replace inUndoContext
    doc.session.redlines [] doc.block [] newText
  (doc.log .replacedWhole).recordEdit faults replacement doc.block.shown newText

def applyInUndoContext (doc : SurgicalDocument) (faults : SurgicalFaults)
    (run : SurgicalDocument → Bool → SurgicalDocument × Bool) :
    SurgicalDocument × Bool :=
  match doc.enterContext faults.enterWhole with
  | (named, none) => run named false
  | (entered, some title) =>
    let applied := run entered true
    (applied.1.closeSurgicalContext faults.close
      entered.session.changes.length (!applied.2) title, applied.2)

/-- `_whole`. -/
def wholeBlock (doc : SurgicalDocument) (faults : SurgicalFaults)
    (splitAuthor : Bool) (newText : Text) : SurgicalDocument × Bool :=
  let run (doc : SurgicalDocument) (inUndoContext : Bool) :=
    doc.replaceWhole faults.whole newText inUndoContext
  if faults.readWhole then (doc, true)
  else if splitAuthor then doc.applyInUndoContext faults run
  else run doc false

/-- `_block_safe_for_surgical`: a block with struck text is not. -/
def blockSafeForSurgical (doc : SurgicalDocument) (faults : SurgicalFaults) :
    Bool :=
  decide (doc.block.shown = doc.block.accepted) && faults.offsetSafe

def rightToLeft (subEdits : List SubEdit) : List SubEdit :=
  subEdits.insertionSort fun left right => right.oldStart ≤ left.oldStart

def surgicalBatch (doc : SurgicalDocument) (faults : SurgicalFaults)
    (splitAuthor : Bool) (newText : Text) (subEdits : List SubEdit) :
    SurgicalDocument × Bool :=
  match doc.enterContext faults.enterBatch with
  | (named, none) => named.wholeBlock faults splitAuthor newText
  | (entered, some title) =>
    let applied :=
      applyBatch faults.subEdit 0 entered (rightToLeft subEdits)
    (applied.1.closeSurgicalContext faults.close
      entered.session.changes.length (!applied.2) title, applied.2)

/-- `record_preserve_replace`: the document behind it, and whether it raises.
The opcodes are those of `difflib` on the words of the two texts. -/
def recordPreserveReplace (doc : SurgicalDocument) (config : SurgicalConfig)
    (faults : SurgicalFaults) (opcodes : List Opcode) (newText : Text)
    (split : Bool) : SurgicalDocument × Bool :=
  let splitAuthor := split && config.splitAuthorColors
  let whole := doc.wholeBlock faults splitAuthor newText
  if !split then whole
  else if faults.readBlock then (doc, true)
  else
    match splitChange doc.block.shown newText config.wordDiffThreshold opcodes with
    | none => (doc, true)
    | some result =>
      if result.mode ≠ .surgical then whole
      else if result.subEdits.isEmpty then (doc, false)
      else if config.maxSurgicalRuns < result.subEdits.length then whole
      else if !doc.blockSafeForSurgical faults then whole
      else if faults.range then (doc, true)
      else
        match preFlight faults.preFlight doc.block 0 result.subEdits with
        | .raised => (doc, true)
        | .missed => whole
        | .selected => doc.surgicalBatch faults splitAuthor newText result.subEdits

end SurgicalDocument

end WriterAgent.Writer
