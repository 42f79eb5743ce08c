import WriterAgent.Foundations.Runs
import WriterAgent.Writer.Review.ResolveSafety

/-!
# The tool for tracked changes

`plugin/writer/tracking.py`: `manage_tracked_changes` accepts or rejects one
redline by its index, or all of them, through a native dispatch that resolves
every redline of the selection.
-/

namespace WriterAgent.Writer

open PyText

variable {τ : Type} [DecidableEq τ]

inductive TrackingAction where
  | accept
  | reject
  | acceptAll
  | rejectAll
  deriving DecidableEq, Repr

/-- The arguments of a call: an action that is one of the four, and an index
that is an `int`, each if given. -/
structure TrackingCall where
  action : Option TrackingAction
  index : Option ℤ
  deriving DecidableEq, Repr

/-- What raises in a call: the count and the scan of the bulk guard, the
enumeration up to the index and the reads of that redline, the selection and
the dispatch, which may raise before or behind its command.  The text is that
of the exception, and `moved` says where a redline lies that is left. -/
structure TrackingFaults (τ : Type) where
  count : Bool
  snapshot : ScanFaults
  opening : Bool
  step : ℕ → EnumStep
  comment : Bool
  start : Bool
  stop : Bool
  selection : Bool
  unsent : Bool
  raises : Bool
  exception : Text
  moved : Redline τ → Span

inductive ToolAnswer where
  | ok (message : Text)
  | error (message : Text)
  deriving DecidableEq, Repr

/-- A document, if it exposes redlines, and the redlines that the tool has
accepted or rejected. -/
structure TrackedChanges (τ : Type) where
  document : Option (ReviewDocument τ)
  resolved : List (Redline τ)

def TrackedChanges.dispatch (changes : TrackedChanges τ) (document : ReviewDocument τ)
    (reaches : Redline τ → Bool) (moved : Redline τ → Span) : TrackedChanges τ where
  document := some { document with
    redlines := (document.redlines.filter (!reaches ·)).map fun redline =>
      { redline with span := moved redline } }
  resolved := changes.resolved ++ document.redlines.filter reaches

def bulkUnreliableMsg : Text :=
  ("Couldn't read this document's tracked changes reliably, so " ++
    "accept/reject-all is blocked to avoid resolving agent edits that are " ++
    "awaiting your review. Resolve changes in LibreOffice (Edit > Track " ++
    "Changes > Manage).").toList

def bulkAgentPresentMsg (count : ℕ) : Text :=
  "This document has ".toList ++ (toString count).toList ++
    (" agent edit(s) awaiting your review (WriterAgent tracked changes). The " ++
      "agent must not accept or reject its own edits -- you resolve those in " ++
      "the review popup or Edit > Track Changes > Manage. accept-all / " ++
      "reject-all run only when no agent changes are pending.").toList

def agentSelfResolutionBlockReason (faults : TrackingFaults τ)
    (document : Option (ReviewDocument τ)) : Option Text :=
  match document with
  | none => none
  | some document =>
    if faults.count then some bulkUnreliableMsg
    else if document.redlines.length ≤ 0 then none
    else
      let snapshot := takeSnapshot faults.snapshot document
      if !snapshot.tokensReliable then some bulkUnreliableMsg
      else if snapshot.agentTokens ≠ ∅ then
        some (bulkAgentPresentMsg snapshot.agentTokens.card)
      else none

def executeAll (changes : TrackedChanges τ) (isAccept : Bool)
    (faults : TrackingFaults τ) : TrackedChanges τ × ToolAnswer :=
  let failed : ToolAnswer := .error ("Failed to ".toList ++
    (if isAccept then "accept" else "reject").toList ++
    " all changes: ".toList ++ faults.exception)
  match agentSelfResolutionBlockReason faults changes.document with
  | some blocked => (changes, .error blocked)
  | none =>
    if faults.unsent then (changes, failed)
    else
      (match changes.document with
        | none => changes
        | some document => changes.dispatch document (fun _ => true) faults.moved,
      if faults.raises then failed
      else if isAccept then .ok "All tracked changes accepted.".toList
      else .ok "All tracked changes rejected.".toList)

/-- The redline at an index of the enumeration; `none` when a step raises. -/
def redlineAt (step : ℕ → EnumStep) (index : ℕ) : ℕ → List (Redline τ) → Option (Option (Redline τ))
  | position, [] => if step position = .raised then none else some none
  | position, redline :: rest =>
    match step position with
    | .raised => none
    | .exhausted => some none
    | .element =>
      if position = index then some (some redline)
      else redlineAt step index (position + 1) rest

def unreadableChangeMsg : Text :=
  ("Couldn't read this change's metadata, so it can't be resolved from " ++
    "here. Use Edit > Track Changes > Manage in LibreOffice.").toList

def agentChangeMsg : Text :=
  ("This is an agent edit awaiting your review (WriterAgent tracked change). " ++
    "The agent must not accept or reject its own edits -- resolve it in the " ++
    "review popup or Edit > Track Changes > Manage.").toList

/-- The range that is selected for a redline: its start point when the end
cannot be read. -/
def selectedSpan (faults : TrackingFaults τ) (redline : Redline τ) : Span :=
  if faults.stop then redline.span.atStart else redline.span

/-- The first part of `_execute_single`: the redline whose range is selected,
or the text of the error. -/
def selectRedline (faults : TrackingFaults τ) (document : ReviewDocument τ)
    (index : ℕ) : Except Text (Redline τ) :=
  let raised := "Failed to process change ".toList ++
    (toString index).toList ++ ": ".toList ++ faults.exception
  if faults.opening then .error raised
  else
    match redlineAt faults.step index 0 document.redlines with
    | none => .error raised
    | some none => .error ("No tracked change found at index ".toList ++
        (toString index).toList ++ ".".toList)
    | some (some redline) =>
      if faults.comment then .error unreadableChangeMsg
      else if isAgentToken redline.comment then .error agentChangeMsg
      else if faults.start || faults.selection then
        .error ("Failed to select tracked change for processing: ".toList ++ faults.exception)
      else .ok redline

def executeSingle (changes : TrackedChanges τ) (index : ℕ) (isAccept : Bool)
    (faults : TrackingFaults τ) : TrackedChanges τ × ToolAnswer :=
  let failed : ToolAnswer := .error ("Failed to process change ".toList ++
    (toString index).toList ++ ": ".toList ++ faults.exception)
  match changes.document with
  | none => (changes, .error "Document does not expose redlines API.".toList)
  | some document =>
    match selectRedline faults document index with
    | .error message => (changes, .error message)
    | .ok redline =>
      if faults.unsent then (changes, failed)
      else
        (changes.dispatch document (fun other => decide
            (other.InReach redline.text (selectedSpan faults redline)))
          faults.moved,
        if faults.raises then failed
        else .ok ((if isAccept then "Accepted" else "Rejected").toList ++
          " tracked change at index ".toList ++ (toString index).toList ++
          ".".toList))

def actionMsg : Text :=
  "action must be one of: accept, reject, accept_all, reject_all.".toList

def indexMsg (isAccept : Bool) : Text :=
  "Valid integer index is required for action='".toList ++
    (if isAccept then "accept" else "reject").toList ++ "'.".toList

def executeIndexed (changes : TrackedChanges τ) (index : Option ℤ)
    (isAccept : Bool) (faults : TrackingFaults τ) :
    TrackedChanges τ × ToolAnswer :=
  match index with
  | none => (changes, .error (indexMsg isAccept))
  | some index =>
    if index < 0 then (changes, .error (indexMsg isAccept))
    else executeSingle changes index.toNat isAccept faults

/-- `ManageTrackedChanges.execute`. -/
def manageTrackedChanges (changes : TrackedChanges τ) (call : TrackingCall × TrackingFaults τ) :
    TrackedChanges τ × ToolAnswer :=
  match call.1.action with
  | none => (changes, .error actionMsg)
  | some .acceptAll => executeAll changes true call.2
  | some .rejectAll => executeAll changes false call.2
  | some .accept => executeIndexed changes call.1.index true call.2
  | some .reject => executeIndexed changes call.1.index false call.2

end WriterAgent.Writer

/-!
## The agent and its own edits

The bulk path resolves nothing of the agent's: its guard lets it run only when
a whole scan has found no token.  The single path checks one redline and
resolves a range.
-/

namespace WriterAgent.Writer

variable {τ : Type}

/-- No redline with a token of the agent has been accepted or rejected. -/
def TrackedChanges.SparesAgent (changes : TrackedChanges τ) : Prop :=
  ∀ redline ∈ changes.resolved, isAgentToken redline.comment = false

def TrackingCall.single? (call : TrackingCall) : Option ℕ :=
  match call.action, call.index with
  | some .accept, some index | some .reject, some index =>
    if index < 0 then none else some index.toNat
  | _, _ => none

/-- No agent redline touches the range that a call for one change selects. -/
def SelectionSpares (changes : TrackedChanges τ) (call : TrackingCall × TrackingFaults τ) : Prop :=
  ∀ document ∈ changes.document, ∀ index ∈ call.1.single?, ∀ redline,
    selectRedline call.2 document index = .ok redline →
      call.2.unsent = false → ∀ other ∈ document.redlines,
        other.InReach redline.text (selectedSpan call.2 redline) →
          isAgentToken other.comment = false

variable {changes : TrackedChanges τ} {document : ReviewDocument τ}

theorem TrackedChanges.sparesAgent_dispatch_iff (spares : changes.SparesAgent)
    {reaches : Redline τ → Bool} {moved : Redline τ → Span} :
    (changes.dispatch document reaches moved).SparesAgent ↔
      ∀ redline ∈ document.redlines, reaches redline = true →
        isAgentToken redline.comment = false := by
  constructor
  · intro after redline member reached
    apply after
    exact List.mem_append_right _ (List.mem_filter.mpr ⟨member, reached⟩)
  · intro clear redline member
    rcases List.mem_append.mp member with old | new
    · exact spares redline old
    · obtain ⟨isMember, reached⟩ := List.mem_filter.mp new
      exact clear redline isMember reached

/-- **The bulk guard.** Where it finds no reason to refuse, no redline of the
document is the agent's. -/
theorem not_isAgentToken_of_unblocked {faults : TrackingFaults τ}
    (unblocked : agentSelfResolutionBlockReason faults (some document) = none)
    {redline : Redline τ} (member : redline ∈ document.redlines) :
    isAgentToken redline.comment = false := by
  simp only [agentSelfResolutionBlockReason] at unblocked
  by_cases counts : faults.count = true
  · rw [if_pos counts] at unblocked
    cases unblocked
  rw [if_neg counts] at unblocked
  by_cases empty : document.redlines.length ≤ 0
  · have nil := List.eq_nil_of_length_eq_zero (Nat.le_zero.mp empty)
    rw [nil] at member
    cases member
  rw [if_neg empty] at unblocked
  cases reliable : (takeSnapshot faults.snapshot document).tokensReliable with
  | false =>
    rw [reliable] at unblocked
    cases unblocked
  | true =>
    rw [takeSnapshot_of_tokensReliable reliable] at unblocked
    by_cases tokens : document.agentTokens = ∅
    · by_contra isAgent
      have token : redline.comment ∈ document.agentTokens :=
        ReviewDocument.mem_agentTokens.mpr
          ⟨Bool.eq_true_of_not_eq_false isAgent, redline, member, rfl⟩
      rw [tokens] at token
      exact absurd token (Finset.notMem_empty _)
    · simp only [Bool.not_true, Bool.false_eq_true, if_false,
        ne_eq, tokens, not_false_eq_true, if_true] at unblocked
      cases unblocked

theorem sparesAgent_executeAll (spares : changes.SparesAgent) (isAccept : Bool)
    (faults : TrackingFaults τ) :
    (executeAll changes isAccept faults).1.SparesAgent := by
  unfold executeAll
  cases blocked : agentSelfResolutionBlockReason faults changes.document with
  | some reason => exact spares
  | none =>
    cases unsent : faults.unsent with
    | true => exact spares
    | false =>
      cases exposed : changes.document with
      | none => exact spares
      | some document =>
        rw [exposed] at blocked
        exact (changes.sparesAgent_dispatch_iff spares).mpr fun redline member _ =>
            not_isAgentToken_of_unblocked blocked member

variable [DecidableEq τ]

theorem sparesAgent_executeSingle_iff (spares : changes.SparesAgent) (index : ℕ)
    (isAccept : Bool) (faults : TrackingFaults τ) :
    (executeSingle changes index isAccept faults).1.SparesAgent ↔
      ∀ document ∈ changes.document, ∀ redline, selectRedline faults document index = .ok redline →
          faults.unsent = false → ∀ other ∈ document.redlines,
            other.InReach redline.text (selectedSpan faults redline) →
              isAgentToken other.comment = false := by
  unfold executeSingle
  cases exposed : changes.document with
  | none => exact ⟨fun _ => nofun, fun _ => spares⟩
  | some document =>
    simp only [Option.mem_some_iff, forall_eq']
    cases selected : selectRedline faults document index with
    | error message => exact ⟨fun _ => nofun, fun _ => spares⟩
    | ok redline =>
      simp only [Except.ok.injEq, forall_eq']
      cases faults.unsent with
      | true => exact ⟨fun _ => nofun, fun _ => spares⟩
      | false =>
        simp only [Bool.false_eq_true, if_false, forall_const]
        rw [changes.sparesAgent_dispatch_iff spares]
        simp only [decide_eq_true_eq]

def TrackedChanges.step (changes : TrackedChanges τ)
    (call : TrackingCall × TrackingFaults τ) : TrackedChanges τ :=
  (manageTrackedChanges changes call).1

/-- **One call.** A call spares the agent's edits exactly when the range it
selects does. -/
theorem sparesAgent_step_iff (spares : changes.SparesAgent)
    (call : TrackingCall × TrackingFaults τ) :
    (changes.step call).SparesAgent ↔ SelectionSpares changes call := by
  obtain ⟨⟨action, index⟩, faults⟩ := call
  have single : ∀ isAccept, (executeIndexed changes index isAccept faults).1.SparesAgent ↔
        SelectionSpares changes (⟨some .accept, index⟩, faults) := by
    intro isAccept
    cases index with
    | none => exact ⟨fun _ _ _ => by rintro _ ⟨⟩, fun _ => spares⟩
    | some index =>
      simp only [executeIndexed, SelectionSpares, TrackingCall.single?]
      by_cases negative : index < 0
      · rw [if_pos negative, if_pos negative]
        exact ⟨fun _ _ _ => by rintro _ ⟨⟩, fun _ => spares⟩
      · rw [if_neg negative, if_neg negative, sparesAgent_executeSingle_iff spares]
        simp only [Option.mem_some_iff, forall_eq']
  have neither : ∀ {action}, TrackingCall.single? ⟨action, index⟩ = none →
      SelectionSpares changes (⟨action, index⟩, faults) := by
    intro action none document _ index isIndex
    rw [none] at isIndex
    cases isIndex
  cases action with
  | none => exact ⟨fun _ => neither rfl, fun _ => spares⟩
  | some action =>
    cases action with
    | accept => exact single true
    | reject =>
      have same : TrackingCall.single? ⟨some .reject, index⟩ =
          TrackingCall.single? ⟨some .accept, index⟩ := by
        cases index <;> rfl
      rw [SelectionSpares, same]
      exact single false
    | acceptAll => exact ⟨fun _ => neither rfl, fun _ => sparesAgent_executeAll spares true faults⟩
    | rejectAll => exact ⟨fun _ => neither rfl, fun _ => sparesAgent_executeAll spares false faults⟩

/-- **The agent's edits.** In a run of calls of the tool no redline with a
token of the agent is ever accepted or rejected exactly when no call for one
change selects a range that such a redline touches. -/
theorem agentEdits_spared_iff (document : Option (ReviewDocument τ))
    (calls : List (TrackingCall × TrackingFaults τ)) :
    Along TrackedChanges.step (fun changes call => (changes.step call).SparesAgent)
        ⟨document, []⟩ calls ↔
      Along TrackedChanges.step SelectionSpares ⟨document, []⟩ calls := by
  apply Along.iff_of_invariant TrackedChanges.SparesAgent
  · exact fun changes call _ kept => kept
  · exact fun changes call spares => sparesAgent_step_iff spares call
  · exact nofun

/-- A user's deletion of ten characters around an insertion of the agent. -/
def nestedEdit : ReviewDocument Unit where
  redlines := [⟨1, [], (), ⟨0, 10, by decide⟩⟩, ⟨2, makeAgentToken ['s'] 0, (), ⟨2, 5, by decide⟩⟩]
  paragraphs _ := [20]

/-- The user's redline is accepted by its index, and nothing raises. -/
def acceptOuter : TrackingCall × TrackingFaults Unit :=
  (⟨some .accept, some 0⟩,
    ⟨false, .none, false, fun _ => .element, false, false, false, false, false,
      false, [], Redline.span⟩)

/-- The agent's redline is accepted with it. -/
theorem nestedEdit_accepted : ¬ ∀ calls, Along TrackedChanges.step
      (fun changes call => (changes.step call).SparesAgent)
      ⟨some nestedEdit, []⟩ calls := by
  intro spared
  obtain ⟨spares, -⟩ := spared [acceptOuter]
  have agent := spares ⟨2, makeAgentToken ['s'] 0, (), ⟨2, 5, by decide⟩⟩
  have isAgent := agent (List.mem_cons_of_mem _ List.mem_cons_self)
  revert isAgent
  decide +kernel

end WriterAgent.Writer
