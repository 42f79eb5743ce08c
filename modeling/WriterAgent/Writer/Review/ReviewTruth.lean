import WriterAgent.Writer.Review.ReviewOutcomes

/-!
# When a review reports the truth

A pending change is seen by its token, so only resolved ones can be reported
wrongly.
-/

namespace WriterAgent.Writer

open PyText List

/-- A change whose report differs from what the user has decided. -/
def ReviewSpan.Misreported (span : ReviewSpan) : Prop :=
  span.decision = .accepted ∧ span.anchored = false ∨
    span.decision = .rejected ∧ span.anchored = true ∧
      span.record.acceptedText = span.record.rejectedText

variable {span : ReviewSpan}

namespace ReviewParagraph

variable {paragraph next : ReviewParagraph} {action : ReviewAction}

theorem Sound.mem_comments (sound : paragraph.Sound) (member : span ∈ paragraph.spans) :
    span.record.token ∈ paragraph.comments ↔ span.decision = .pending := by
  have spanSound := sound.spans span member
  have inPieces : .span span ∈ paragraph.pieces := by
    obtain ⟨piece, inPieces, isSpan⟩ := mem_filterMap.mp member
    cases piece with
    | outside runs => cases isSpan
    | span other =>
      cases isSpan
      exact inPieces
  constructor
  · intro isComment
    obtain ⟨piece, there, inPiece⟩ := mem_flatMap.mp isComment
    have here : runsComments span.runs ≠ [] := by
      cases piece with
      | outside runs =>
        obtain ⟨number, isNumbered, -⟩ := spanSound.numbered
        refine absurd ?_ (sound.outside runs there _ inPiece)
        rw [isNumbered]
        exact makeAgentToken_hasPrefix paragraph.session number
      | span other =>
        have otherIn : other ∈ paragraph.spans :=
          mem_filterMap.mpr ⟨_, there, rfl⟩
        have same := sound.eq_of_token member otherIn ((sound.spans other otherIn).own _ inPiece)
        subst same
        exact ne_nil_of_mem inPiece
    cases decision : span.decision with
    | pending => rfl
    | accepted => exact absurd (spanSound.isAccepted decision).1 here
    | rejected => exact absurd (spanSound.isRejected decision).1 here
  · intro pending
    obtain ⟨comment, rest, comments⟩ :=
      exists_cons_of_ne_nil (spanSound.isPending pending).1
    have isComment : comment ∈ runsComments span.runs := by
      rw [comments]
      exact .head _
    rw [← spanSound.own comment isComment]
    exact mem_flatMap.mpr ⟨_, inPieces, isComment⟩

theorem Sound.changeTextAtAnchor (sound : paragraph.Sound) (member : span ∈ paragraph.spans) :
    paragraph.changeTextAtAnchor span.record =
      if span.anchored then some (runsText .delete span.runs) else none := by
  have named : span.record.bookmark.isEmpty = false := by
    obtain ⟨number, -, isName⟩ := (sound.spans span member).numbered
    rw [isName]
    cases bookmarkPrefix ++ paragraph.session <;> rfl
  rw [ReviewParagraph.changeTextAtAnchor, named, if_neg Bool.false_ne_true]
  cases anchored : span.anchored with
  | true =>
    cases found : paragraph.spans.find? fun other =>
        other.anchored && other.record.bookmark == span.record.bookmark with
    | none =>
      have missing := List.find?_eq_none.mp found span member
      simp [anchored] at missing
    | some other =>
      have holds := List.find?_some found
      obtain ⟨-, sameName⟩ := Bool.and_eq_true_iff.mp holds
      have same := sound.eq_of_bookmark (mem_of_find?_eq_some found) member (eq_of_beq sameName)
      rw [same, Option.map_some, stringSkippingRedline_runs, if_pos rfl]
  | false =>
    have none : (paragraph.spans.find? fun other =>
        other.anchored && other.record.bookmark == span.record.bookmark) =
          none := by
      apply List.find?_eq_none.mpr
      intro other otherIn holds
      obtain ⟨isAnchored, sameName⟩ := Bool.and_eq_true_iff.mp holds
      have same := sound.eq_of_bookmark otherIn member (eq_of_beq sameName)
      rw [same, anchored] at isAnchored
      cases isAnchored
    rw [none, Option.map_none, if_neg Bool.false_ne_true]

/-- **Outcomes.** With a reliable scan a change is reported as the user has
decided, or it is one of those that are misreported. -/
theorem Sound.outcome (sound : paragraph.Sound) {faults : ScanFaults}
    (reliable : (pendingTokens faults paragraph.session
      paragraph.comments).2 = true) (member : span ∈ paragraph.spans) :
    reviewOutcome span.record (pendingTokens faults paragraph.session paragraph.comments).1 true
        (paragraph.changeTextAtAnchor span.record) = span.decision.outcome ↔
      ¬ span.Misreported := by
  have spanSound := sound.spans span member
  have isPending : span.record.token ∈ (pendingTokens faults paragraph.session
      paragraph.comments).1 ↔ span.decision = .pending := by
    rw [pendingTokens_reliable reliable, sound.mem_comments member, and_iff_left]
    obtain ⟨number, isNumbered, -⟩ := spanSound.numbered
    rw [isNumbered]
    exact makeAgentToken_hasPrefix paragraph.session number
  simp only [reviewOutcome, isPending, sound.changeTextAtAnchor member, Bool.not_true,
    Bool.false_eq_true, if_false, ReviewSpan.Misreported]
  cases decision : span.decision with
  | pending => simp [Decision.outcome]
  | accepted =>
    obtain ⟨-, text⟩ := spanSound.isAccepted decision
    cases anchored : span.anchored with
    | true => simp [text, Decision.outcome]
    | false =>
      by_cases empty : span.record.rejectedText = [] <;>
        simp [empty, Decision.outcome]
  | rejected =>
    obtain ⟨-, text, vanished⟩ := spanSound.isRejected decision
    cases anchored : span.anchored with
    | true =>
      by_cases same : span.record.rejectedText = span.record.acceptedText
      · simp [text, same, Decision.outcome]
      · have different : span.record.acceptedText ≠
            span.record.rejectedText := fun equal => same equal.symm
        simp [text, same, different, Decision.outcome]
    | false => simp [vanished anchored, Decision.outcome]

/-- Every payload from a reliable scan reports each change as the user has
decided, and is complete only if none is pending. -/
def Truthful (paragraph : ReviewParagraph) : Prop :=
  ∀ faults complete timedOut, (pendingTokens faults paragraph.session paragraph.comments).2 = true →
      (∀ span ∈ paragraph.spans,
        (∃ entry ∈ (paragraph.reviewPayload faults complete timedOut).changes,
          entry.id = span.record.token) ∧
        ∀ entry ∈ (paragraph.reviewPayload faults complete timedOut).changes,
          entry.id = span.record.token → entry.outcome = span.decision.outcome) ∧
      ((paragraph.reviewPayload faults complete timedOut).complete = true →
        ∀ span ∈ paragraph.spans, span.decision ≠ .pending)

theorem Sound.entry (sound : paragraph.Sound) (member : span ∈ paragraph.spans)
    {record : ChangeRecord} (inChanges : record ∈ paragraph.changes)
    (same : record.token = span.record.token) : record = span.record := by
  obtain ⟨other, otherIn, rfl⟩ := (sound.changes record).mp inChanges
  rw [sound.eq_of_token otherIn member same]

theorem pendingTokens_none (session : Text) (comments : List Text) :
    (pendingTokens .none session comments).2 = true := by
  apply scanRedlines_complete rfl fun _ => rfl
  have classifies : ∀ (items : List Text) (start : ℕ) (pending : Finset Text),
      Classifies (pendingItem .none session) start items pending := by
    intro items
    induction items with
    | nil => exact fun _ _ => trivial
    | cons comment rest ih =>
      intro start pending
      refine ⟨?_, ih _ _⟩
      rw [pendingItem]
      cases (sessionTokenPrefix session).isPrefixOf comment <;> rfl
  exact classifies comments 0 ∅

theorem Sound.truthful_iff (sound : paragraph.Sound) :
    paragraph.Truthful ↔ ∀ span ∈ paragraph.spans, ¬ span.Misreported := by
  constructor
  · intro truthful span member
    have reliable := pendingTokens_none paragraph.session paragraph.comments
    obtain ⟨entries, -⟩ := truthful .none true false reliable
    apply (sound.outcome reliable member).mp
    have inChanges := (sound.changes span.record).mpr ⟨span, member, rfl⟩
    have here := (entries span member).2 _ (mem_map.mpr ⟨span.record, inChanges, rfl⟩) rfl
    rw [← reliable]
    exact here
  · intro reported faults complete timedOut reliable
    constructor
    · intro span member
      constructor
      · have inChanges := (sound.changes span.record).mpr ⟨span, member, rfl⟩
        exact ⟨_, mem_map.mpr ⟨span.record, inChanges, rfl⟩, rfl⟩
      · intro entry inPayload isToken
        obtain ⟨record, inChanges, rfl⟩ := mem_map.mp inPayload
        have same := sound.entry member inChanges isToken
        subst same
        simp only [reliable]
        exact (sound.outcome reliable member).mpr (reported span member)
    · intro isComplete span member pending
      simp only [reviewPayload, Writer.reviewPayload, Bool.and_eq_true,
        beq_iff_eq, Finset.card_eq_zero] at isComplete
      have there := (pendingTokens_reliable reliable span.record.token).mpr
        ⟨(sound.mem_comments member).mpr pending, by
          obtain ⟨number, isNumbered, -⟩ := (sound.spans span member).numbered
          rw [isNumbered]
          exact makeAgentToken_hasPrefix paragraph.session number⟩
      rw [isComplete.2] at there
      exact absurd there (Finset.notMem_empty _)

theorem Sound.resolve_cases (sound : paragraph.Sound)
    (taken : paragraph.step action = some next) (member : span ∈ next.spans) :
    span ∈ paragraph.spans ∧ span.record.token ≠ action.token ∨
      ∃ before ∈ paragraph.spans, before.record.token = action.token ∧
        before.decision = .pending ∧ span = before.resolve action := by
  obtain ⟨one, oneIn, isToken, pending, -, -, spans, -⟩ :=
    step_eq_some sound taken
  rw [spans] at member
  obtain ⟨before, beforeIn, rfl⟩ := mem_map.mp member
  by_cases same : before.record.token = action.token
  · right
    have isOne := sound.eq_of_token beforeIn oneIn (same.trans isToken.symm)
    exact ⟨before, beforeIn, same, isOne ▸ pending, rfl⟩
  · left
    rw [(sound.spans before beforeIn).resolve_other same]
    exact ⟨beforeIn, same⟩

/-- **Step lemma.** -/
theorem step_sound (sound : paragraph.Sound)
    (taken : paragraph.step action = some next) : next.Sound := by
  obtain ⟨one, oneIn, isToken, pending, session, changes, spans, outside⟩ :=
    step_eq_some sound taken
  have records : ∀ span : ReviewSpan, (span.resolve action).record = span.record := by
    intro span
    rw [ReviewSpan.resolve]
    split <;> rfl
  constructor
  · intro span member
    rw [session]
    rcases sound.resolve_cases taken member with
      ⟨stays, -⟩ | ⟨before, beforeIn, isBefore, isPending, rfl⟩
    · exact sound.spans span stays
    · exact (sound.spans before beforeIn).resolve isPending isBefore
  · intro runs there
    rw [session]
    exact sound.outside runs (outside runs there)
  · rw [spans, map_map]
    have same : (fun span : ReviewSpan => span.record.token) ∘
        ReviewSpan.resolve action = fun span => span.record.token :=
      funext fun span => congrArg (·.token) (records span)
    rw [same]
    exact sound.distinct
  · intro record
    rw [changes, sound.changes, spans]
    constructor
    · rintro ⟨span, member, rfl⟩
      exact ⟨_, mem_map.mpr ⟨span, member, rfl⟩, records span⟩
    · rintro ⟨span, member, rfl⟩
      obtain ⟨before, beforeIn, rfl⟩ := mem_map.mp member
      exact ⟨before, beforeIn, (records before).symm⟩

/-- Any decision of the user, whatever the state. -/
def Anything (_paragraph : ReviewParagraph) (_action : ReviewAction) : Prop :=
  True

instance (paragraph : ReviewParagraph) (action : ReviewAction) :
    Decidable (paragraph.Anything action) :=
  inferInstanceAs (Decidable True)

/-- The outcome can be recovered from the anchor: an accepted change leaves
text or its anchor, and a rejected one reads differently from the accepted one
or takes its anchor with it. -/
def Recoverable (paragraph : ReviewParagraph) (action : ReviewAction) : Prop :=
  ∀ span ∈ paragraph.spans, span.record.token = action.token →
    if action.accept then
      span.record.acceptedText ≠ [] ∨ action.keepsAnchor = true
    else
      span.record.acceptedText ≠ span.record.rejectedText ∨
        span.record.rejectedText = [] ∧ action.keepsAnchor = false

instance (paragraph : ReviewParagraph) (action : ReviewAction) :
    Decidable (paragraph.Recoverable action) :=
  inferInstanceAs (Decidable (∀ span ∈ paragraph.spans, _ → _))

theorem misreported_resolve {session : Text} (sound : span.Sound session)
    (pending : span.decision = .pending) (isToken : span.record.token = action.token) :
    (span.resolve action).Misreported ↔ ¬ if action.accept then
          span.record.acceptedText ≠ [] ∨ action.keepsAnchor = true
        else
          span.record.acceptedText ≠ span.record.rejectedText ∨
            span.record.rejectedText = [] ∧ action.keepsAnchor = false := by
  obtain ⟨-, anchored, acceptedText, rejectedText⟩ := sound.isPending pending
  obtain ⟨-, text⟩ := resolveRuns_all action.dropped
    (fun comment member => (sound.own comment member).trans isToken) .delete
  rw [ReviewSpan.Misreported, ReviewSpan.resolve]
  simp only [if_pos isToken, text, anchored, Bool.true_and]
  cases accept : action.accept with
  | true =>
    have dropped : action.dropped = .delete := by simp [ReviewAction.dropped, accept]
    simp [dropped, ← acceptedText]
  | false =>
    have dropped : action.dropped = .insert := by simp [ReviewAction.dropped, accept]
    simp only [dropped, ← rejectedText]
    cases action.keepsAnchor <;> simp [and_comm]

section

variable (sound : paragraph.Sound) (taken : paragraph.step action = some next)

include sound taken

theorem Sound.mem_resolve (member : span ∈ paragraph.spans) : span.resolve action ∈ next.spans := by
  obtain ⟨-, -, -, -, -, -, spans, -⟩ := step_eq_some sound taken
  rw [spans]
  exact mem_map.mpr ⟨span, member, rfl⟩

theorem step_misreported (misreported : ∃ span ∈ paragraph.spans, span.Misreported) :
    ∃ span ∈ next.spans, span.Misreported := by
  obtain ⟨span, member, wrong⟩ := misreported
  refine ⟨span.resolve action, sound.mem_resolve taken member, ?_⟩
  obtain ⟨one, oneIn, isToken, pending, -⟩ := step_eq_some sound taken
  have other : span.record.token ≠ action.token := by
    intro same
    have isOne := sound.eq_of_token member oneIn (same.trans isToken.symm)
    rcases wrong with ⟨accepted, -⟩ | ⟨rejected, -⟩
    · rw [isOne, pending] at accepted
      cases accepted
    · rw [isOne, pending] at rejected
      cases rejected
  rwa [(sound.spans span member).resolve_other other]

theorem misreported_of_not_recoverable (lost : ¬ paragraph.Recoverable action) :
    ∃ span ∈ next.spans, span.Misreported := by
  rw [Recoverable] at lost
  push Not at lost
  obtain ⟨span, member, isToken, unrecoverable⟩ := lost
  obtain ⟨one, oneIn, oneToken, pending, -⟩ := step_eq_some sound taken
  have isOne := sound.eq_of_token member oneIn (isToken.trans oneToken.symm)
  exact ⟨span.resolve action, sound.mem_resolve taken member,
    (misreported_resolve (sound.spans span member) (isOne ▸ pending) isToken).mpr unrecoverable⟩

end

theorem run_recoverable_or_misreported {run : List ReviewAction} (sound : paragraph.Sound)
    (reaches : Reaches step Anything paragraph run next) :
    Reaches step Recoverable paragraph run next ∨ ∃ span ∈ next.spans, span.Misreported := by
  induction run generalizing paragraph with
  | nil => exact .inl reaches
  | cons action rest ih =>
    obtain ⟨-, middle, taken, later⟩ := reaches
    have middleSound := step_sound sound taken
    by_cases recoverable : paragraph.Recoverable action
    · exact (ih middleSound later).imp_left fun rest => ⟨recoverable, middle, taken, rest⟩
    · have invariant := Reaches.invariant (fun paragraph : ReviewParagraph => paragraph.Sound ∧
          ∃ span ∈ paragraph.spans, span.Misreported)
        (fun _ _ _ holds _ taken => ⟨step_sound holds.1 taken,
          step_misreported holds.1 taken holds.2⟩)
        ⟨middleSound, misreported_of_not_recoverable sound taken recoverable⟩ later
      exact .inr invariant.2

/-- **Step lemma.** Recoverable decisions leave nothing misreported. -/
theorem step_reported (sound : paragraph.Sound)
    (reported : ∀ span ∈ paragraph.spans, ¬ span.Misreported)
    (recoverable : paragraph.Recoverable action) (taken : paragraph.step action = some next) :
    ∀ span ∈ next.spans, ¬ span.Misreported := by
  intro span member
  rcases sound.resolve_cases taken member with
    ⟨stays, -⟩ | ⟨before, beforeIn, isToken, pending, rfl⟩
  · exact reported span stays
  · rw [misreported_resolve (sound.spans before beforeIn) pending isToken, not_not]
    exact recoverable before beforeIn isToken

/-- **Truthful reviews.** After any decisions about recorded changes the
payload is truthful if and only if each decision was recoverable. -/
theorem truthful_iff_recoverable {run : List ReviewAction} (recorded : paragraph.Recorded)
    (reaches : Reaches step Anything paragraph run next) :
    next.Truthful ↔ Reaches step Recoverable paragraph run next := by
  have nextSound : next.Sound := Reaches.invariant Sound
    (fun _ _ _ sound _ taken => step_sound sound taken) recorded.sound reaches
  rw [nextSound.truthful_iff]
  constructor
  · intro reported
    apply (run_recoverable_or_misreported recorded.sound reaches).resolve_right
    rintro ⟨span, member, misreported⟩
    exact reported span member misreported
  · intro recoverable
    have invariant := Reaches.invariant (fun paragraph : ReviewParagraph => paragraph.Sound ∧
        ∀ span ∈ paragraph.spans, ¬ span.Misreported)
      (fun _ _ _ holds isRecoverable taken => ⟨step_sound holds.1 taken,
        step_reported holds.1 holds.2 isRecoverable taken⟩)
      ⟨recorded.sound, by
        rintro span member (⟨accepted, -⟩ | ⟨rejected, -⟩)
        · cases (recorded.fresh span member).2.symm.trans accepted
        · cases (recorded.fresh span member).2.symm.trans rejected⟩ recoverable
    exact invariant.2

def trackedWord : List TextRun :=
  [⟨.tracked .delete (makeAgentToken ['s'] 0), "quick".toList⟩]

def deletionRecord : ChangeRecord :=
  .capture ['s'] 0 [runsPortions trackedWord] [] []

def deletedWord (anchored : Bool) (decision : Decision)
    (runs : List TextRun) : ReviewParagraph where
  session := ['s']
  pieces := [ .outside [⟨.plain, "a ".toList⟩], .span ⟨deletionRecord, runs, anchored, decision⟩,
    .outside [⟨.plain, " fox".toList⟩]]
  changes := [deletionRecord]

def recordedDeletion : ReviewParagraph := deletedWord true .pending trackedWord

theorem recordedDeletion_recorded : recordedDeletion.Recorded where
  captured := by
    intro span member
    cases mem_singleton.mp member
    exact ⟨0, [], [], rfl⟩
  tracked := by
    intro span member
    cases mem_singleton.mp member
    exact cons_ne_nil _ _
  own := by
    intro span member comment isComment
    cases mem_singleton.mp member
    exact mem_singleton.mp isComment
  fresh := by
    intro span member
    cases mem_singleton.mp member
    exact ⟨rfl, rfl⟩
  outside := by
    intro runs there comment isComment
    simp only [recordedDeletion, deletedWord, mem_cons, reduceCtorEq,
      not_mem_nil, or_false, false_or, ReviewPiece.outside.injEq] at there
    rcases there with rfl | rfl <;> cases isComment
  distinct := nodup_singleton _
  changes := by
    intro record
    constructor
    · intro member
      cases mem_singleton.mp member
      exact ⟨_, .head _, rfl⟩
    · rintro ⟨span, member, rfl⟩
      cases mem_singleton.mp member
      exact .head _

theorem truthful_iff_recoverable_rejected :
    (deletedWord true .rejected [⟨.plain, "quick".toList⟩]).Truthful ↔
      Reaches step Recoverable recordedDeletion [⟨makeAgentToken ['s'] 0, false, true⟩]
        (deletedWord true .rejected [⟨.plain, "quick".toList⟩]) :=
  truthful_iff_recoverable recordedDeletion_recorded (.of_follow (by decide))

/-- The anchor of a deletion goes with the accepted deletion. -/
theorem not_truthful_deletion : ¬ ∀ (paragraph : ReviewParagraph) (run : List ReviewAction) next,
      paragraph.Recorded → Reaches step Anything paragraph run next →
        next.Truthful := by
  intro truthful
  have reaches : Reaches step Anything recordedDeletion [⟨makeAgentToken ['s'] 0, true, false⟩]
      (deletedWord false .accepted []) := .of_follow (by decide)
  obtain ⟨entries, -⟩ := truthful _ _ _ recordedDeletion_recorded reaches
    .none true false (by decide)
  have outcome := (entries _ (.head _)).2 _ (.head _) rfl
  revert outcome
  decide

end ReviewParagraph

end WriterAgent.Writer
