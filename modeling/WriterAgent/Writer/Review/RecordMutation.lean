import WriterAgent.Writer.Review.EditReview
import WriterAgent.Foundations.Runs

/-!
# Recording agent edits

`EditReviewSession.record_mutation` in `plugin/writer/edit_review.py`: the
redlines that are new behind an edit get the token of the change, and the change
gets an anchor.  Every access to the document may raise, and a write may take
effect and raise all the same.
-/

namespace WriterAgent.Writer

open PyText

/-- A redline with the comment that carries its token.  As history: the call
whose edit has created it, and whether a clear of its comment has failed. -/
structure SessionRedline where
  identifier : ℕ
  comment : Text
  createdBy : Option ℕ
  clearFailed : Bool
  deriving DecidableEq, Repr

inductive WriteOutcome where
  | done
  | raised
  | doneAndRaised
  deriving DecidableEq, Repr

namespace WriteOutcome

def applies : WriteOutcome → Bool
  | raised => false
  | _ => true

def raises : WriteOutcome → Bool
  | done => false
  | _ => true

end WriteOutcome

/-- What goes wrong in one call: in the scans before and after the edit, in the
edit, in tagging and its revert by position, and in anchoring. -/
structure MutationFaults where
  before : ScanFaults
  edit : Bool
  after : ScanFaults
  tag : ℕ → WriteOutcome
  clear : ℕ → WriteOutcome
  readBack : ℕ → Bool
  bounds : ℕ → Bool
  span : Bool
  bookmark : Bool
  insertion : WriteOutcome

/-- One call: the redline table behind its edit, what its span reads, and the
previews that the caller gives. -/
structure MutationCall where
  edit : List SessionRedline
  faults : MutationFaults
  acceptedText : Text
  rejectedText : Text
  originalPreview : Text
  proposedPreview : Text

structure RecordedEdit where
  record : ChangeRecord
  call : ℕ
  deriving DecidableEq, Repr

/-- `EditReviewSession` with its document. -/
structure ReviewSession where
  session : Text
  active : Bool
  redlines : List SessionRedline
  bookmarks : List Text
  changes : List RecordedEdit
  calls : ℕ
  deriving DecidableEq, Repr

def identifierItem (faults : ScanFaults) (seen : ℕ) (identifiers : Finset ℕ)
    (redline : SessionRedline) : Finset ℕ × ItemAnswer :=
  if faults.identifier seen then (identifiers, .unclassified)
  else (insert redline.identifier identifiers, .classified)

def snapshotRedlineIds (faults : ScanFaults) (redlines : List SessionRedline) : Finset ℕ × Bool :=
  let scan := scanRedlines faults redlines (identifierItem faults) ∅
  (scan.gathered, scan.reliable)

def newRedlineItem (faults : ScanFaults) (before : Finset ℕ) (seen : ℕ)
    (out : List SessionRedline) (redline : SessionRedline) :
    List SessionRedline × ItemAnswer :=
  if faults.identifier seen then (out, .unclassified)
  else if redline.identifier ∉ before then (out ++ [redline], .classified)
  else (out, .classified)

def newRedlinesSince (faults : ScanFaults) (redlines : List SessionRedline)
    (before : Finset ℕ) : List SessionRedline × Bool :=
  let scan := scanRedlines faults redlines (newRedlineItem faults before) []
  (scan.gathered, scan.reliable)

/-- A write of `RedlineComment`. -/
def SessionRedline.write (outcome : WriteOutcome) (comment : Text)
    (redline : SessionRedline) : SessionRedline :=
  if outcome.applies then { redline with comment := comment } else redline

def SessionRedline.clear (outcome : WriteOutcome) (redline : SessionRedline) :
    SessionRedline :=
  if outcome.applies then { redline with comment := [] }
  else { redline with clearFailed := true }

/-- The loop of `_tag_new_redlines`: what it has written, what it has not
reached, and whether a write has raised. -/
def tagLoop (faults : MutationFaults) (token : Text) : List SessionRedline → List SessionRedline →
      List SessionRedline × List SessionRedline × Bool
  | applied, [] => (applied, [], false)
  | applied, redline :: rest =>
    let outcome := faults.tag applied.length
    let written := redline.write outcome token
    if outcome.raises then (applied ++ [written], rest, true)
    else tagLoop faults token (applied ++ [written]) rest

/-- The revert of `_tag_new_redlines`, with the number of orphans. -/
def clearLoop (faults : MutationFaults) (token : Text) :
    ℕ → List SessionRedline → List SessionRedline × ℕ
  | _, [] => ([], 0)
  | position, redline :: rest =>
    let cleared := redline.clear (faults.clear position)
    let orphan :=
      if faults.readBack position then 1
      else if cleared.comment = token then 1 else 0
    let later := clearLoop faults token (position + 1) rest
    (cleared :: later.1, orphan + later.2)

/-- `_tag_new_redlines`: the redlines behind it, success and orphans. -/
def tagNewRedlines (faults : MutationFaults) (token : Text)
    (redlines : List SessionRedline) : List SessionRedline × Bool × ℕ :=
  match tagLoop faults token [] redlines with
  | (applied, _, false) => (applied, true, 0)
  | (applied, rest, true) =>
    let cleared := clearLoop faults token 0 applied
    (cleared.1 ++ rest, false, cleared.2)

def writeBack (table written : List SessionRedline) : List SessionRedline :=
  table.map fun redline =>
    (written.find? (·.identifier = redline.identifier)).getD redline

namespace ReviewSession

/-- `record_mutation` behind the tagging: span, anchor and record. -/
def anchorChange (tagged : ReviewSession) (call : MutationCall) (count : ℕ) :
    ReviewSession :=
  let changeIndex := tagged.changes.length
  let name := bookmarkName tagged.session changeIndex
  if !((List.range count).any fun position => !call.faults.bounds position)
    then tagged
  else if call.faults.span || call.faults.bookmark then tagged
  else
    let anchored :=
      if call.faults.insertion.applies then
        { tagged with bookmarks := name :: tagged.bookmarks }
      else tagged
    if call.faults.insertion.raises then anchored
    else
      let record : ChangeRecord :=
        { token := makeAgentToken tagged.session changeIndex
          bookmark := name
          acceptedText := call.acceptedText
          rejectedText := call.rejectedText
          originalPreview :=
            if call.originalPreview.isEmpty then call.rejectedText
            else call.originalPreview
          proposedPreview :=
            if call.proposedPreview.isEmpty then call.acceptedText
            else call.proposedPreview }
      { anchored with
        changes := anchored.changes ++ [⟨record, tagged.calls - 1⟩] }

def recordMutation (session : ReviewSession) (call : MutationCall) :
    ReviewSession :=
  let applied :=
    { session with redlines := call.edit, calls := session.calls + 1 }
  if !session.active then applied
  else
    let before := snapshotRedlineIds call.faults.before session.redlines
    if call.faults.edit then applied
    else if !before.2 then applied
    else
      let new := newRedlinesSince call.faults.after call.edit before.1
      if !new.2 then applied
      else if new.1.isEmpty then applied
      else
        let token := makeAgentToken session.session session.changes.length
        let tagging := tagNewRedlines call.faults token new.1
        let tagged := { applied with
          redlines := writeBack call.edit tagging.1 }
        if !tagging.2.1 then tagged
        else tagged.anchorChange call new.1.length

/-- The edit keeps or removes redlines, and creates some with identifiers of
their own and without a token of the session. -/
def validEdit (session : ReviewSession) (edit : List SessionRedline) : Bool :=
  decide (edit.map (·.identifier)).Nodup && edit.all fun redline =>
      decide (redline ∈ session.redlines) ||
        decide (redline.identifier ∉ session.redlines.map (·.identifier)) &&
          redline.createdBy == some session.calls &&
          !redline.clearFailed &&
          !(sessionTokenPrefix session.session).isPrefixOf redline.comment

def step (session : ReviewSession) (call : MutationCall) : Option ReviewSession :=
  if session.validEdit call.edit then some (session.recordMutation call)
  else none

end ReviewSession

end WriterAgent.Writer
