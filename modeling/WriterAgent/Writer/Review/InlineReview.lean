import WriterAgent.Writer.Review.ReviewScan
import Mathlib.Data.Char
import Mathlib.Data.Finset.Max
import Mathlib.Data.List.Lex

/-!
# Resolving agent changes

`plugin/writer/inline_review.py`: one agent change, or all of them, are accepted
or rejected through a native dispatch on the view's selection.  The dispatch
may resolve any of the redlines that touch the selection, whoever made them.
Accepting and rejecting remove a redline alike.
-/

namespace WriterAgent.Writer

open PyText

variable {τ : Type} [DecidableEq τ]

/-- The redline table, and the lengths of the paragraphs of each text. -/
structure ReviewDocument (τ : Type) where
  redlines : List (Redline τ)
  paragraphs : τ → List ℕ

structure RedlineSnapshot where
  agentTokens : Finset Text
  foreignIds : Finset ℕ
  tokensReliable : Bool
  foreignReliable : Bool

/-- `on_item` of `_agent_and_foreign_redline_snapshot`. -/
def snapshotItem (faults : ScanFaults) (seen : ℕ) (snapshot : RedlineSnapshot)
    (redline : Redline τ) : RedlineSnapshot × ItemAnswer :=
  if faults.comment seen then
    ({ snapshot with tokensReliable := false, foreignReliable := false }, .unclassified)
  else if isAgentToken redline.comment then
    ({ snapshot with
      agentTokens := insert redline.comment snapshot.agentTokens }, .classified)
  else if faults.identifier seen then
    ({ snapshot with foreignReliable := false }, .unclassified)
  else
    ({ snapshot with
      foreignIds := insert redline.identifier snapshot.foreignIds },
      .classified)

/-- `_agent_and_foreign_redline_snapshot`. -/
def takeSnapshot (faults : ScanFaults) (document : ReviewDocument τ) :
    RedlineSnapshot :=
  let scan := scanRedlines faults document.redlines (snapshotItem faults) ⟨∅, ∅, true, true⟩
  { scan.gathered with
    tokensReliable := scan.gathered.tokensReliable && scan.reliable
    foreignReliable := scan.gathered.foreignReliable && scan.reliable }

/-- `_all_redlines_are_agent`; the first read of the count may raise, too. -/
def allRedlinesAreAgent (countRaises : Bool) (faults : ScanFaults)
    (document : ReviewDocument τ) : Bool :=
  if countRaises || document.redlines.length ≤ 0 then false
  else
    let snapshot := takeSnapshot faults document
    snapshot.foreignReliable && snapshot.foreignIds.card == 0

/-- `on_item` of `_change_bounds`. -/
def boundsItem (faults : ScanFaults) (token : Text) (seen : ℕ)
    (ranges : List (τ × Span)) (redline : Redline τ) :
    List (τ × Span) × ItemAnswer :=
  if faults.comment seen then (ranges, .abort)
  else if redline.comment ≠ token then (ranges, .classified)
  else if faults.bounds seen || faults.noBounds seen then (ranges, .abort)
  else (ranges ++ [(redline.text, redline.span)], .classified)

/-- The union of ranges of one text object; a range of another one raises. -/
def expandAll (text : τ) : Span → List (τ × Span) → Option Span
  | span, [] => some span
  | span, (other, range) :: rest =>
    if other = text then expandAll text (span.expand range) rest else none

/-- `_change_bounds`: the range over all redlines of a change. -/
def changeBounds (faults : ScanFaults) (unionRaises : Bool)
    (document : ReviewDocument τ) (token : Text) : Option (τ × Span) :=
  let scan := scanRedlines faults document.redlines (boundsItem faults token) []
  if !scan.reliable || unionRaises then none
  else
    match scan.gathered with
    | [] => none
    | (text, span) :: rest => (expandAll text span.atStart ((text, span) :: rest)).map (text, ·)

def spanContainsPoint (span point : Span) : Bool :=
  if point.compareRegionStarts span = 1 then false
  else if point.compareRegionEnds span = -1 then false
  else true

def spansOverlap (span range : Span) : Bool :=
  spanContainsPoint span range.atStart || spanContainsPoint span range.atEnd ||
    spanContainsPoint range span.atStart

/-- `on_item` of `_span_has_redline`: whether something unsafe was found. -/
def overlapItem (faults : ScanFaults) (text : τ) (span : Span) (consider : Option Text → Bool)
    (seen : ℕ) (isUnsafe : Bool) (redline : Redline τ) : Bool × ItemAnswer :=
  let comment := if faults.comment seen then none else some redline.comment
  if !consider comment then (isUnsafe, .classified)
  else if faults.bounds seen || faults.noBounds seen then (true, .abort)
  -- A range of another text object cannot be mapped into this one.
  else if redline.text ≠ text || faults.range seen then
    if !faults.textObject seen && redline.text ≠ text then
      (isUnsafe, .classified)
    else (true, .abort)
  else if faults.comparison seen then (true, .abort)
  else if spansOverlap span redline.span then (true, .abort)
  else (isUnsafe, .classified)

def spanHasRedline (faults : ScanFaults) (document : ReviewDocument τ)
    (text : τ) (span : Span) (consider : Option Text → Bool) : Bool :=
  let scan := scanRedlines faults document.redlines (overlapItem faults text span consider) false
  scan.gathered || !scan.reliable

def considerForeign (comment : Option Text) : Bool :=
  match comment with
  | none => true
  | some comment => !isAgentToken comment

def considerOtherAgent (token : Text) (comment : Option Text) : Bool :=
  match comment with
  | none => true
  | some comment => isAgentToken comment && comment != token

def foreignRedlineInSpan (faults : ScanFaults) (document : ReviewDocument τ)
    (text : τ) (span : Span) : Bool :=
  spanHasRedline faults document text span considerForeign

def otherAgentRedlineInSpan (faults : ScanFaults)
    (document : ReviewDocument τ) (text : τ) (span : Span) (token : Text) :
    Bool :=
  spanHasRedline faults document text span (considerOtherAgent token)

/-- What a native dispatch does: which of the redlines in its reach it
resolves, and whether it raises afterwards. -/
structure Dispatch (τ : Type) where
  resolves : Redline τ → Bool
  raises : Bool

/-- The redlines that touch a selection. -/
def Redline.InReach (redline : Redline τ) (text : τ) (span : Span) : Prop :=
  redline.text = text ∧ redline.span.Touches span

instance (redline : Redline τ) (text : τ) (span : Span) : Decidable (redline.InReach text span) :=
  inferInstanceAs (Decidable (_ ∧ _))

/-- `_dispatch_resolve` on a selection. -/
def dispatchResolve (dispatch : Dispatch τ) (document : ReviewDocument τ)
    (text : τ) (span : Span) : ReviewDocument τ :=
  { document with
    redlines := document.redlines.filter fun redline =>
      !(decide (redline.InReach text span) && dispatch.resolves redline) }

/-- `.uno:AcceptAllTrackedChanges` or `.uno:RejectAllTrackedChanges`. -/
def dispatchResolveAll (dispatch : Dispatch τ) (document : ReviewDocument τ) : ReviewDocument τ :=
  { document with
    redlines := document.redlines.filter (!dispatch.resolves ·) }

/-- `gotoStartOfParagraph` in a text with paragraphs of the given lengths. -/
def startOfParagraph : List ℕ → ℕ → ℕ
  | [], position => position
  | length :: rest, position =>
    if position ≤ length then 0
    else length + 1 + startOfParagraph rest (position - (length + 1))

/-- `gotoEndOfParagraph`. -/
def endOfParagraph : List ℕ → ℕ → ℕ
  | [], position => position
  | length :: rest, position =>
    if position ≤ length then length
    else length + 1 + endOfParagraph rest (position - (length + 1))

theorem startOfParagraph_le (paragraphs : List ℕ) (position : ℕ) :
    startOfParagraph paragraphs position ≤ position := by
  induction paragraphs generalizing position with
  | nil => exact le_rfl
  | cons length rest ih =>
    rw [startOfParagraph]
    split
    · exact Nat.zero_le _
    · have := ih (position - (length + 1))
      omega

theorem le_endOfParagraph (paragraphs : List ℕ) (position : ℕ) :
    position ≤ endOfParagraph paragraphs position := by
  induction paragraphs generalizing position with
  | nil => exact le_rfl
  | cons length rest ih =>
    rw [endOfParagraph]
    split
    · assumption
    · have := ih (position - (length + 1))
      omega

def paragraphSpan (paragraphs : List ℕ) (span : Span) : Span where
  start := startOfParagraph paragraphs span.start
  stop := endOfParagraph paragraphs span.stop
  ordered := (startOfParagraph_le _ _).trans (span.ordered.trans (le_endOfParagraph _ _))

/-- All that can go wrong in one call of `resolve_agent_change`: the faults of
its scans, the accesses to the view that raise, and the two dispatches. -/
structure ResolveFaults (τ : Type) where
  before : ScanFaults
  bounds : ScanFaults
  union : Bool
  view : Bool
  exactCursor : Bool
  exactForeign : ScanFaults
  exactOther : ScanFaults
  exactSelection : Bool
  exactDispatch : Dispatch τ
  exactAfter : ScanFaults
  paragraphCursor : Bool
  paragraphForeign : ScanFaults
  paragraphOther : ScanFaults
  paragraphSelection : Bool
  paragraphDispatch : Dispatch τ
  after : ScanFaults

/-- Where a call is: its answer when it has returned, the document and whether
a dispatch has run. -/
structure Resolution (τ : Type) where
  answer : Option Bool
  document : ReviewDocument τ
  dispatched : Bool

/-- Without an answer the call goes on with what is left of the document. -/
def Resolution.andThen (first : Resolution τ)
    (goOn : ReviewDocument τ → Resolution τ) : Resolution τ :=
  match first.answer with
  | some _ => first
  | none =>
    let second := goOn first.document
    { second with dispatched := first.dispatched || second.dispatched }

/-- The precise path: select exactly the marks of the change and dispatch.
Without an answer the paragraph path follows. -/
def resolveExact (faults : ResolveFaults τ) (before : RedlineSnapshot) (document : ReviewDocument τ)
    (text : τ) (exact : Span) (token : Text) (refuseSiblingAgent : Bool) : Resolution τ :=
  if faults.exactCursor then ⟨some false, document, false⟩
  else if foreignRedlineInSpan faults.exactForeign document text exact then
    ⟨some false, document, false⟩
  else if refuseSiblingAgent &&
      otherAgentRedlineInSpan faults.exactOther document text exact token then
    ⟨some false, document, false⟩
  else if faults.exactSelection then ⟨some false, document, false⟩
  else
    let resolved := dispatchResolve faults.exactDispatch document text exact
    if faults.exactDispatch.raises then ⟨some false, resolved, true⟩
    else
      let after := takeSnapshot faults.exactAfter resolved
      let removed := before.agentTokens \ after.agentTokens
      let tokensOk := before.tokensReliable && after.tokensReliable
      let foreignSafe := before.foreignReliable && after.foreignReliable &&
        (before.foreignIds \ after.foreignIds).card == 0
      if removed = {token} && tokensOk && foreignSafe then
        ⟨some true, resolved, true⟩
      else if removed.card != 0 || !tokensOk || !foreignSafe then
        ⟨some false, resolved, true⟩
      else ⟨none, resolved, true⟩

def resolveParagraph (faults : ResolveFaults τ) (before : RedlineSnapshot)
    (document : ReviewDocument τ) (text : τ) (paragraphs : Span)
    (token : Text) (refuseSiblingAgent : Bool) : Resolution τ :=
  if faults.paragraphCursor then ⟨some false, document, false⟩
  else if foreignRedlineInSpan faults.paragraphForeign document text paragraphs then
    ⟨some false, document, false⟩
  else if refuseSiblingAgent &&
      otherAgentRedlineInSpan faults.paragraphOther document text paragraphs token then
    ⟨some false, document, false⟩
  else if faults.paragraphSelection then ⟨some false, document, false⟩
  else
    let resolved := dispatchResolve faults.paragraphDispatch document text paragraphs
    if faults.paragraphDispatch.raises then ⟨some false, resolved, true⟩
    else
      let after := takeSnapshot faults.after resolved
      if !after.tokensReliable then ⟨some false, resolved, true⟩
      else if !(before.foreignReliable && after.foreignReliable) ||
          (before.foreignIds \ after.foreignIds).card != 0 then
        ⟨some false, resolved, true⟩
      else ⟨some (token ∉ after.agentTokens), resolved, true⟩

def resolveAgentChange (faults : ResolveFaults τ) (document : ReviewDocument τ) (token : Text)
    (refuseSiblingAgent preferExact : Bool) : Resolution τ :=
  let before := takeSnapshot faults.before document
  if token ∉ before.agentTokens then ⟨some false, document, false⟩
  else if !before.tokensReliable || !before.foreignReliable then
    ⟨some false, document, false⟩
  else
    match changeBounds faults.bounds faults.union document token with
    | none => ⟨some false, document, false⟩
    | some (text, bounds) =>
      if faults.view then ⟨some false, document, false⟩
      else
        let first :=
          if preferExact then
            resolveExact faults before document text bounds token refuseSiblingAgent
          else ⟨none, document, false⟩
        first.andThen fun document =>
          resolveParagraph faults before document text
            (paragraphSpan (document.paragraphs text) bounds) token
            refuseSiblingAgent

/-- The faults of one pass of `resolve_all_agent_changes`. -/
structure PassFaults (τ : Type) where
  current : ScanFaults
  resolve : ResolveFaults τ
  after : ScanFaults

/-- The faults of `resolve_all_agent_changes`, pass by pass. -/
structure ResolveAllFaults (τ : Type) where
  before : ScanFaults
  count : Bool
  allAgent : ScanFaults
  dispatcher : Bool
  globalDispatch : Dispatch τ
  globalAfter : ScanFaults
  pass : ℕ → PassFaults τ
  final : ScanFaults

def resolveAllUnreliable : ℤ := -1
def resolveAllUnconfirmed : ℤ := -2

/-- The loop of `resolve_all_agent_changes` from one pass on; `none` when the
fuel runs out.  The last component tells whether an attempt has run. -/
def resolvePasses (pass : ℕ → PassFaults τ) : ℕ → ℕ → ReviewDocument τ → Finset Text → Bool →
      Option (Option ℤ × ReviewDocument τ × Bool)
  | 0, _, _, _, _ => none
  | fuel + 1, number, document, skip, dispatched =>
    let faults := pass number
    let current := takeSnapshot faults.current document
    if !current.tokensReliable then
      some (some (if dispatched then resolveAllUnconfirmed
        else resolveAllUnreliable), document, dispatched)
    else
      let pending := current.agentTokens \ skip
      if nonempty : pending.Nonempty then
        let token := pending.min' nonempty
        let resolution :=
          resolveAgentChange faults.resolve document token false false
        let after := takeSnapshot faults.after resolution.document
        if !after.tokensReliable then
          some (some resolveAllUnconfirmed, resolution.document, true)
        else if resolution.answer != some true ||
            decide (current.agentTokens.card ≤ after.agentTokens.card) then
          resolvePasses pass fuel (number + 1) resolution.document (insert token skip) true
        else
          resolvePasses pass fuel (number + 1) resolution.document skip true
      else some (none, document, dispatched)

/-- `max(0, before - after)` of two counts. -/
def countResolved (before after : Finset Text) : ℤ :=
  max 0 ((before.card : ℤ) - after.card)

/-- `resolve_all_agent_changes`: its result and the document behind it. -/
def resolveAllAgentChanges (faults : ResolveAllFaults τ) (fuel : ℕ)
    (document : ReviewDocument τ) : Option (ℤ × ReviewDocument τ) :=
  let before := takeSnapshot faults.before document
  if !before.tokensReliable then some (resolveAllUnreliable, document)
  else if before.agentTokens.card = 0 then some (0, document)
  else if allRedlinesAreAgent faults.count faults.allAgent document then
    if faults.dispatcher then some (resolveAllUnconfirmed, document)
    else
      let resolved := dispatchResolveAll faults.globalDispatch document
      if faults.globalDispatch.raises then
        some (resolveAllUnconfirmed, resolved)
      else
        let after := takeSnapshot faults.globalAfter resolved
        if !after.tokensReliable then some (resolveAllUnconfirmed, resolved)
        else
          some (countResolved before.agentTokens after.agentTokens, resolved)
  else
    match resolvePasses faults.pass fuel 0 document ∅ false with
    | none => none
    | some (some result, resolved, _) => some (result, resolved)
    | some (none, resolved, dispatched) =>
      let final := takeSnapshot faults.final resolved
      if !final.tokensReliable then
        some (if dispatched then resolveAllUnconfirmed
          else resolveAllUnreliable, resolved)
      else
        some (countResolved before.agentTokens final.agentTokens, resolved)

end WriterAgent.Writer
