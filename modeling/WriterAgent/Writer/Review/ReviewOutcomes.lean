import WriterAgent.Writer.Review.EditReview
import WriterAgent.Foundations.Runs
import Mathlib.Data.List.Flatten

/-!
# Reviews by the user

A paragraph holds the spans of the recorded changes, and the user accepts or
rejects them one after another.
-/

namespace WriterAgent.Writer

open PyText List

inductive RunMark where
  | plain
  | tracked (type : RedlineType) (comment : Text)
  deriving DecidableEq, Repr

structure TextRun where
  mark : RunMark
  text : Text
  deriving DecidableEq, Repr

namespace TextRun

def portions (run : TextRun) : List TextPortion :=
  match run.mark with
  | .plain => [.text run.text]
  | .tracked type _ => [.redline type, .text run.text, .redline type]

def comment? (run : TextRun) : Option Text :=
  match run.mark with
  | .plain => none
  | .tracked _ comment => some comment

def textSkipping (skipType : RedlineType) (run : TextRun) : Text :=
  match run.mark with
  | .plain => run.text
  | .tracked type _ => if type = skipType then [] else run.text

/-- What is left of a run when the redlines with a token are resolved: those of
one type go with their text, the others become plain. -/
def resolve (dropped : RedlineType) (token : Text) (run : TextRun) : Option TextRun :=
  match run.mark with
  | .plain => some run
  | .tracked type comment =>
    if comment = token then
      if type = dropped then none else some ⟨.plain, run.text⟩
    else some run

end TextRun

def runsText (skipType : RedlineType) (runs : List TextRun) : Text :=
  runs.flatMap (·.textSkipping skipType)

def runsPortions (runs : List TextRun) : List TextPortion :=
  runs.flatMap (·.portions)

def resolveRuns (dropped : RedlineType) (token : Text) (runs : List TextRun) : List TextRun :=
  runs.filterMap (·.resolve dropped token)

def runsComments (runs : List TextRun) : List Text :=
  runs.filterMap (·.comment?)

variable {token session : Text} {runs : List TextRun}

section Runs

variable (skipType dropped : RedlineType) (token : Text) (run : TextRun) (runs : List TextRun)

@[simp] theorem runsText_cons : runsText skipType (run :: runs) =
    run.textSkipping skipType ++ runsText skipType runs := rfl

@[simp] theorem runsPortions_cons :
    runsPortions (run :: runs) = run.portions ++ runsPortions runs := rfl

@[simp] theorem runsComments_cons : runsComments (run :: runs) =
    run.comment?.toList ++ runsComments runs := by
  rw [runsComments, filterMap_cons]
  cases run.comment? <;> rfl

@[simp] theorem resolveRuns_cons : resolveRuns dropped token (run :: runs) =
    (run.resolve dropped token).toList ++ resolveRuns dropped token runs := by
  rw [resolveRuns, filterMap_cons]
  cases run.resolve dropped token <;> rfl

end Runs

theorem stringSkippingRedline_runs (skipType : RedlineType) (runs : List TextRun) :
    stringSkippingRedline skipType [runsPortions runs] = runsText skipType runs := by
  have reads : skipPortions skipType false (runsPortions runs) = runsText skipType runs := by
    induction runs with
    | nil => rfl
    | cons run rest ih =>
      rw [runsPortions_cons, runsText_cons, ← ih, TextRun.portions, TextRun.textSkipping]
      cases run.mark with
      | plain => rfl
      | tracked type comment =>
        simp only [cons_append, nil_append, skipPortions]
        split <;> rfl
  rw [stringSkippingRedline, map_singleton, reads, join, intercalate_singleton]

theorem resolveRuns_untouched {dropped : RedlineType}
    (untouched : token ∉ runsComments runs) : resolveRuns dropped token runs = runs := by
  induction runs with
  | nil => rfl
  | cons run rest ih =>
    rw [runsComments_cons, mem_append, not_or] at untouched
    obtain ⟨here, later⟩ := untouched
    have stays : run.resolve dropped token = some run := by
      rw [TextRun.comment?] at here
      rw [TextRun.resolve]
      cases mark : run.mark with
      | plain => rfl
      | tracked type comment =>
        simp only [mark, Option.toList_some, mem_singleton] at here
        exact if_neg fun same => here same.symm
    rw [resolveRuns_cons, stays, ih later, Option.toList_some, singleton_append]

theorem resolveRuns_all (dropped : RedlineType)
    (own : ∀ comment ∈ runsComments runs, comment = token) (skipType : RedlineType) :
    runsComments (resolveRuns dropped token runs) = [] ∧
      runsText skipType (resolveRuns dropped token runs) = runsText dropped runs := by
  induction runs with
  | nil => exact ⟨rfl, rfl⟩
  | cons run rest ih =>
    rw [runsComments_cons] at own
    obtain ⟨noComments, text⟩ := ih fun comment member =>
      own comment (mem_append_right _ member)
    have here : ∀ comment ∈ run.comment?, comment = token := by
      intro comment isComment
      apply own comment (mem_append_left _ _)
      exact Option.mem_toList.mpr isComment
    rw [TextRun.comment?] at here
    rw [resolveRuns_cons, runsText_cons, TextRun.resolve, TextRun.textSkipping]
    cases mark : run.mark with
    | plain => simp [noComments, text, TextRun.comment?, TextRun.textSkipping, mark]
    | tracked type comment =>
      simp only [mark] at here
      obtain rfl := here comment rfl
      by_cases isDropped : type = dropped
      · simp [isDropped, noComments, text]
      · simp [isDropped, noComments, text, TextRun.comment?, TextRun.textSkipping]

/-- What the user has decided about a change. -/
inductive Decision where
  | pending
  | accepted
  | rejected
  deriving DecidableEq, Repr

def Decision.outcome : Decision → ReviewOutcome
  | .pending => .pending
  | .accepted => .accepted
  | .rejected => .rejected

/-- The span of a recorded change: its text, whether its anchor is still there
and, as history, what the user has decided. -/
structure ReviewSpan where
  record : ChangeRecord
  runs : List TextRun
  anchored : Bool
  decision : Decision
  deriving DecidableEq, Repr

/-- A paragraph in pieces: text outside of all spans, and spans. -/
inductive ReviewPiece where
  | outside (runs : List TextRun)
  | span (span : ReviewSpan)
  deriving DecidableEq, Repr

structure ReviewParagraph where
  session : Text
  pieces : List ReviewPiece
  changes : List ChangeRecord
  deriving DecidableEq, Repr

/-- The user accepts or rejects all redlines of a change.  An anchor whose
whole text goes may go, too. -/
structure ReviewAction where
  token : Text
  accept : Bool
  keepsAnchor : Bool
  deriving DecidableEq, Repr

def ReviewAction.dropped (action : ReviewAction) : RedlineType :=
  if action.accept then .delete else .insert

namespace ReviewSpan

def resolve (action : ReviewAction) (span : ReviewSpan) : ReviewSpan :=
  let runs := resolveRuns action.dropped action.token span.runs
  if span.record.token = action.token then
    { span with
      runs := runs
      anchored := span.anchored && (!(runsText .delete runs).isEmpty || action.keepsAnchor)
      decision := if action.accept then .accepted else .rejected }
  else { span with runs := runs }

end ReviewSpan

namespace ReviewPiece

def comments : ReviewPiece → List Text
  | outside runs => runsComments runs
  | .span one => runsComments one.runs

def resolve (action : ReviewAction) : ReviewPiece → ReviewPiece
  | outside runs => outside (resolveRuns action.dropped action.token runs)
  | .span one => .span (one.resolve action)

def span? : ReviewPiece → Option ReviewSpan
  | outside _ => none
  | .span one => some one

end ReviewPiece

namespace ReviewParagraph

def spans (paragraph : ReviewParagraph) : List ReviewSpan :=
  paragraph.pieces.filterMap (·.span?)

def comments (paragraph : ReviewParagraph) : List Text :=
  paragraph.pieces.flatMap (·.comments)

def changeTextAtAnchor (paragraph : ReviewParagraph) (record : ChangeRecord) : Option Text :=
  if record.bookmark.isEmpty then none
  else
    (paragraph.spans.find? fun span =>
      span.anchored && span.record.bookmark == record.bookmark).map
        fun span => stringSkippingRedline .delete [runsPortions span.runs]

/-- `_review_payload` of the paragraph as it is now. -/
def reviewPayload (paragraph : ReviewParagraph) (faults : ScanFaults)
    (complete timedOut : Bool) : ReviewPayload :=
  Writer.reviewPayload (pendingTokens faults paragraph.session paragraph.comments)
    paragraph.changes paragraph.changeTextAtAnchor complete timedOut

def step (paragraph : ReviewParagraph) (action : ReviewAction) : Option ReviewParagraph :=
  if paragraph.spans.any fun span =>
      span.record.token = action.token && span.decision = .pending then
    some { paragraph with
      pieces := paragraph.pieces.map (·.resolve action) }
  else none

end ReviewParagraph

structure ReviewSpan.Sound (session : Text) (span : ReviewSpan) : Prop where
  numbered : ∃ number, span.record.token = makeAgentToken session number ∧
    span.record.bookmark = bookmarkName session number
  own : ∀ comment ∈ runsComments span.runs, comment = span.record.token
  isPending : span.decision = .pending → runsComments span.runs ≠ [] ∧ span.anchored = true ∧
      span.record.acceptedText = runsText .delete span.runs ∧
      span.record.rejectedText = runsText .insert span.runs
  isAccepted : span.decision = .accepted → runsComments span.runs = [] ∧
      runsText .delete span.runs = span.record.acceptedText
  isRejected : span.decision = .rejected → runsComments span.runs = [] ∧
      runsText .delete span.runs = span.record.rejectedText ∧
      (span.anchored = false → span.record.rejectedText = [])

structure ReviewParagraph.Sound (paragraph : ReviewParagraph) : Prop where
  spans : ∀ span ∈ paragraph.spans, span.Sound paragraph.session
  outside : ∀ runs, .outside runs ∈ paragraph.pieces → ∀ comment ∈ runsComments runs,
      ¬ (sessionTokenPrefix paragraph.session).isPrefixOf comment = true
  distinct : (paragraph.spans.map (·.record.token)).Nodup
  changes : ∀ record, record ∈ paragraph.changes ↔ ∃ span ∈ paragraph.spans, span.record = record

/-- A paragraph whose changes have just been recorded: disjoint spans with
marks of their own, and with their anchors. -/
structure ReviewParagraph.Recorded (paragraph : ReviewParagraph) : Prop where
  captured : ∀ span ∈ paragraph.spans, ∃ number original proposed,
    span.record = .capture paragraph.session number [runsPortions span.runs] original proposed
  tracked : ∀ span ∈ paragraph.spans, runsComments span.runs ≠ []
  own : ∀ span ∈ paragraph.spans, ∀ comment ∈ runsComments span.runs, comment = span.record.token
  fresh : ∀ span ∈ paragraph.spans, span.anchored = true ∧ span.decision = .pending
  outside : ∀ runs, .outside runs ∈ paragraph.pieces → ∀ comment ∈ runsComments runs,
      ¬ (sessionTokenPrefix paragraph.session).isPrefixOf comment = true
  distinct : (paragraph.spans.map (·.record.token)).Nodup
  changes : ∀ record, record ∈ paragraph.changes ↔ ∃ span ∈ paragraph.spans, span.record = record

variable {span first second : ReviewSpan} {action : ReviewAction}

theorem ReviewParagraph.Recorded.sound {paragraph : ReviewParagraph}
    (recorded : paragraph.Recorded) : paragraph.Sound where
  spans span member := by
    obtain ⟨number, original, proposed, capture⟩ :=
      recorded.captured span member
    obtain ⟨anchored, pending⟩ := recorded.fresh span member
    constructor
    · exact ⟨number, by rw [capture]; rfl, by rw [capture]; rfl⟩
    · exact recorded.own span member
    · intro _
      refine ⟨recorded.tracked span member, anchored, ?_, ?_⟩
      · rw [capture]
        exact stringSkippingRedline_runs .delete span.runs
      · rw [capture]
        exact stringSkippingRedline_runs .insert span.runs
    · intro accepted
      cases pending.symm.trans accepted
    · intro rejected
      cases pending.symm.trans rejected
  outside := recorded.outside
  distinct := recorded.distinct
  changes := recorded.changes

theorem ReviewSpan.Sound.resolve (sound : span.Sound session)
    (pending : span.decision = .pending) (isToken : span.record.token = action.token) :
    (span.resolve action).Sound session := by
  obtain ⟨-, anchored, acceptedText, rejectedText⟩ := sound.isPending pending
  obtain ⟨noComments, text⟩ := resolveRuns_all action.dropped
    (fun comment member => (sound.own comment member).trans isToken) .delete
  rw [ReviewSpan.resolve]
  simp only [if_pos isToken]
  constructor
  · exact sound.numbered
  · simp only [noComments]
    exact fun comment member => nomatch member
  · cases action.accept <;> nofun
  · intro accepted
    cases accept : action.accept with
    | false => simp [accept] at accepted
    | true =>
      refine ⟨noComments, text.trans ?_⟩
      simp only [ReviewAction.dropped, accept, if_true]
      exact acceptedText.symm
  · intro rejected
    cases accept : action.accept with
    | true => simp [accept] at rejected
    | false =>
      have isDropped : action.dropped = .insert := by simp [ReviewAction.dropped, accept]
      refine ⟨noComments, text.trans ?_, ?_⟩
      · rw [isDropped]
        exact rejectedText.symm
      · intro vanished
        simp only [text, anchored, Bool.true_and, Bool.or_eq_false_iff,
          Bool.not_eq_false', List.isEmpty_iff] at vanished
        rw [rejectedText, ← isDropped]
        exact vanished.1

theorem ReviewSpan.Sound.resolve_other (sound : span.Sound session)
    (other : span.record.token ≠ action.token) : span.resolve action = span := by
  have untouched : action.token ∉ runsComments span.runs :=
    fun member => other (sound.own _ member).symm
  rw [ReviewSpan.resolve]
  simp only [if_neg other, resolveRuns_untouched untouched]

namespace ReviewParagraph

variable {paragraph next : ReviewParagraph} {action : ReviewAction}

theorem Sound.eq_of_token (sound : paragraph.Sound) (firstIn : first ∈ paragraph.spans)
    (secondIn : second ∈ paragraph.spans)
    (same : first.record.token = second.record.token) : first = second :=
  inj_on_of_nodup_map sound.distinct firstIn secondIn same

theorem Sound.eq_of_bookmark (sound : paragraph.Sound) (firstIn : first ∈ paragraph.spans)
    (secondIn : second ∈ paragraph.spans)
    (same : first.record.bookmark = second.record.bookmark) : first = second := by
  obtain ⟨firstNumber, firstToken, firstName⟩ :=
    (sound.spans first firstIn).numbered
  obtain ⟨secondNumber, secondToken, secondName⟩ :=
    (sound.spans second secondIn).numbered
  apply sound.eq_of_token firstIn secondIn
  have numbers : firstNumber = secondNumber := by
    apply bookmarkName_injective
    rw [← firstName, same, secondName]
  rw [firstToken, secondToken, numbers]

theorem spans_resolve (pieces : List ReviewPiece) :
    (pieces.map (·.resolve action)).filterMap (·.span?) =
      (pieces.filterMap (·.span?)).map (·.resolve action) := by
  induction pieces with
  | nil => rfl
  | cons piece rest ih =>
    cases piece with
    | outside runs | span one => simpa [ReviewPiece.resolve, ReviewPiece.span?] using ih

/-- **One step.** The user resolves one change that is pending, and everything
else stays. -/
theorem step_eq_some (sound : paragraph.Sound) (taken : paragraph.step action = some next) :
    ∃ one ∈ paragraph.spans, one.record.token = action.token ∧ one.decision = .pending ∧
      next.session = paragraph.session ∧ next.changes = paragraph.changes ∧
      next.spans = paragraph.spans.map (·.resolve action) ∧
      ∀ runs, .outside runs ∈ next.pieces → .outside runs ∈ paragraph.pieces :=
  by
  rw [step] at taken
  split_ifs at taken with found
  cases taken
  obtain ⟨one, member, holds⟩ := any_eq_true.mp found
  obtain ⟨isToken, pending⟩ := Bool.and_eq_true_iff.mp holds
  have token : one.record.token = action.token := of_decide_eq_true isToken
  refine ⟨one, member, token, of_decide_eq_true pending, rfl, rfl,
    spans_resolve paragraph.pieces, ?_⟩
  intro runs there
  obtain ⟨piece, inPieces, resolved⟩ := mem_map.mp there
  cases piece with
  | span other => cases resolved
  | outside before =>
    cases resolved
    have untouched : action.token ∉ runsComments before := by
      intro isComment
      apply sound.outside before inPieces _ isComment
      obtain ⟨number, isNumbered, -⟩ := (sound.spans one member).numbered
      rw [← token, isNumbered]
      exact makeAgentToken_hasPrefix paragraph.session number
    rw [resolveRuns_untouched untouched]
    exact inPieces

end ReviewParagraph

end WriterAgent.Writer
