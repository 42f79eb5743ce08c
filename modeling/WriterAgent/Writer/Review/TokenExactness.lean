import WriterAgent.Writer.Review.TaggedEdits

/-!
# Exactness of the tokens

The token of a change is numbered by the changes recorded so far, so a tag that
stays without a record lends its token to the next change.
-/

namespace WriterAgent.Writer

open PyText List

variable {session : ReviewSession} {redline : SessionRedline}

namespace ReviewSession

/-- What every call keeps, whatever goes wrong in it. -/
structure Sound (session : ReviewSession) : Prop where
  unique : (session.redlines.map (·.identifier)).Nodup
  creators : ∀ redline ∈ session.redlines, ∀ call,
    redline.createdBy = some call → call < session.calls
  numbered : session.changes.map (·.record.token) =
    (List.range session.changes.length).map (makeAgentToken session.session)
  earlier : ∀ change ∈ session.changes, change.call < session.calls
  distinct : (session.changes.map (·.call)).Nodup
  carried : ∀ change ∈ session.changes, ∀ redline ∈ session.redlines,
    redline.createdBy = some change.call → redline.comment = change.record.token

/-- A redline with a token of the session is one that could not be cleared, or
belongs to a recorded change. -/
def Registered (session : ReviewSession) : Prop :=
  ∀ redline ∈ session.redlines,
    (sessionTokenPrefix session.session).isPrefixOf redline.comment = true →
      redline.clearFailed = true ∨ ∃ change ∈ session.changes, redline.createdBy = some change.call

/-- The tokens of the session are those that recorded changes have given to
the redlines of their own edits. -/
def Owned (session : ReviewSession) : Prop :=
  ∀ redline ∈ session.redlines,
    (sessionTokenPrefix session.session).isPrefixOf redline.comment = true →
      ∃ change ∈ session.changes, redline.comment = change.record.token ∧
        redline.createdBy = some change.call

/-- The redlines with the token of a recorded change are those that its own
edit has created, and no two changes share a token. -/
def Exact (session : ReviewSession) : Prop :=
  (∀ change ∈ session.changes, ∀ redline ∈ session.redlines,
    redline.comment = change.record.token ↔ redline.createdBy = some change.call) ∧
    (session.changes.map (·.record.token)).Nodup

theorem writeBack_identifiers (table written : List SessionRedline) :
    (writeBack table written).map (·.identifier) = table.map (·.identifier) := by
  rw [writeBack, map_map]
  apply map_congr_left
  intro redline _
  cases found : written.find? (·.identifier = redline.identifier) with
  | none => simp [found]
  | some other =>
    have same : other.identifier = redline.identifier := by simpa using List.find?_some found
    simp [found, same]

theorem Sound.exact (sound : session.Sound) (owned : session.Owned) :
    session.Exact := by
  have nodup : (session.changes.map (·.record.token)).Nodup := by
    rw [sound.numbered]
    apply List.Nodup.map _ nodup_range
    intro first second same
    exact makeAgentToken_injective same
  refine ⟨fun change isChange redline member => ⟨fun same => ?_,
    sound.carried change isChange redline member⟩, nodup⟩
  have isToken : ∃ index, change.record.token = makeAgentToken session.session index := by
    have member : change.record.token ∈
        session.changes.map (·.record.token) := mem_map_of_mem isChange
    rw [sound.numbered] at member
    obtain ⟨index, -, token⟩ := mem_map.mp member
    exact ⟨index, token.symm⟩
  obtain ⟨index, token⟩ := isToken
  have hasPrefix : (sessionTokenPrefix session.session).isPrefixOf redline.comment = true := by
    rw [same, token]
    exact makeAgentToken_hasPrefix session.session index
  obtain ⟨owner, isOwner, ownerToken, createdBy⟩ :=
    owned redline member hasPrefix
  have equal := inj_on_of_nodup_map nodup isOwner isChange (ownerToken.symm.trans same)
  rw [← equal]
  exact createdBy

section Call

variable {session next : ReviewSession} {call : MutationCall}

theorem Tagged.fresh_or {edit written : List SessionRedline}
    {faults : MutationFaults} {token : Text} {success : Bool}
    (valid : session.validEdit edit = true) (pairs : List.Forall₂
      (Tagged faults token (session.created edit) success) written
      (session.created edit)) (member : redline ∈ writeBack edit written) :
    redline ∈ session.redlines ∨ ∃ original, session.Fresh original ∧
      Tagged faults token (session.created edit) success redline original :=
  mem_writeBack_created valid (fun _ _ => Tagged.sameMark) pairs member

section

variable (outcome : session.Outcome call next)

include outcome

theorem Outcome.old_or_new (valid : session.validEdit call.edit = true)
    (member : redline ∈ next.redlines) :
    redline ∈ session.redlines ∨ redline.identifier ∉ session.redlines.map (·.identifier) ∧
        redline.createdBy = some session.calls := by
  have mark : ∀ {original : SessionRedline}, session.Fresh original →
      redline.SameMark original → redline.identifier ∉ session.redlines.map (·.identifier) ∧
          redline.createdBy = some session.calls := by
    intro original fresh same
    rw [same.1, same.2]
    exact ⟨fresh.new, fresh.createdBy⟩
  cases outcome with
  | untagged =>
    apply ((validEdit_iff.mp valid).2 redline member).imp_right
    exact fun fresh => mark fresh ⟨rfl, rfl⟩
  | reverted _ _ pairs | unanchored _ _ _ _ _ pairs | recorded _ _ _ pairs =>
    apply (Tagged.fresh_or valid pairs member).imp_right
    exact fun ⟨_, fresh, tagged⟩ => mark fresh tagged.sameMark

theorem Outcome.identifiers : next.redlines.map (·.identifier) = call.edit.map (·.identifier) := by
  cases outcome with
  | untagged => rfl
  | reverted | unanchored | recorded => exact writeBack_identifiers _ _

theorem Outcome.session_eq : next.session = session.session ∧ next.calls = session.calls + 1 := by
  cases outcome <;> exact ⟨rfl, rfl⟩

theorem Outcome.changes (valid : session.validEdit call.edit = true) :
    next.changes = session.changes ∨ ∃ record : ChangeRecord,
        next.changes = session.changes ++ [⟨record, session.calls⟩] ∧
          record.token = makeAgentToken session.session session.changes.length ∧
          ∀ redline ∈ next.redlines, redline ∉ session.redlines →
            redline.comment = record.token := by
  cases outcome with
  | untagged | reverted | unanchored => exact .inl rfl
  | recorded _ record token pairs =>
    refine .inr ⟨record, rfl, token, fun redline member isNew => ?_⟩
    rcases Tagged.fresh_or valid pairs member with old | ⟨_, -, tagged⟩
    · exact absurd old isNew
    · exact tagged.tagged rfl

/-- **Frame.** A redline from before a call has the same comment behind it. -/
theorem Outcome.comment_eq (valid : session.validEdit call.edit = true) (sound : session.Sound)
    {behind : SessionRedline} (member : redline ∈ session.redlines)
    (isBehind : behind ∈ next.redlines) (same : behind.identifier = redline.identifier) :
    behind.comment = redline.comment := by
  rcases outcome.old_or_new valid isBehind with old | ⟨new, -⟩
  · rw [inj_on_of_nodup_map sound.unique old member same]
  · rw [same] at new
    exact absurd (mem_map_of_mem member) new

end

theorem Sound.step (sound : session.Sound) (valid : session.validEdit call.edit = true)
    (outcome : session.Outcome call next) : next.Sound := by
  obtain ⟨sameSession, calls⟩ := outcome.session_eq
  have creators : ∀ redline ∈ next.redlines, ∀ creator,
      redline.createdBy = some creator → creator < next.calls := by
    intro redline member creator createdBy
    rw [calls]
    rcases outcome.old_or_new valid member with old | ⟨-, new⟩
    · exact (sound.creators redline old creator createdBy).trans (Nat.lt_succ_self _)
    · rw [new] at createdBy
      cases createdBy
      exact Nat.lt_succ_self _
  have carriedOld : ∀ change ∈ session.changes,
      ∀ redline ∈ next.redlines, redline.createdBy = some change.call →
        redline.comment = change.record.token := by
    intro change isChange redline member createdBy
    rcases outcome.old_or_new valid member with old | ⟨-, new⟩
    · exact sound.carried change isChange redline old createdBy
    · rw [new] at createdBy
      have same : session.calls = change.call := Option.some.inj createdBy
      exact absurd (sound.earlier change isChange) (same ▸ lt_irrefl _)
  have unique : (next.redlines.map (·.identifier)).Nodup := by
    rw [outcome.identifiers]
    exact (validEdit_iff.mp valid).1
  rcases outcome.changes valid with same | ⟨record, added, token, tagged⟩
  · refine ⟨unique, creators, ?_, ?_, ?_, ?_⟩
    · rw [same, sameSession]
      exact sound.numbered
    · intro change isChange
      rw [same] at isChange
      rw [calls]
      exact (sound.earlier change isChange).trans (Nat.lt_succ_self _)
    · rw [same]
      exact sound.distinct
    · rw [same]
      exact carriedOld
  · refine ⟨unique, creators, ?_, ?_, ?_, ?_⟩
    · rw [added, sameSession, map_append, sound.numbered, length_append, length_singleton,
        range_succ, map_append, map_singleton, map_singleton, token]
    · intro change isChange
      rw [added] at isChange
      rw [calls]
      rcases mem_append.mp isChange with old | own
      · exact (sound.earlier change old).trans (Nat.lt_succ_self _)
      · cases mem_singleton.mp own
        exact Nat.lt_succ_self _
    · rw [added, map_append]
      apply List.Nodup.append sound.distinct (nodup_singleton _)
      intro number old own
      cases mem_singleton.mp own
      obtain ⟨change, isChange, same⟩ := mem_map.mp old
      exact absurd (sound.earlier change isChange) (same ▸ lt_irrefl _)
    · intro change isChange redline member createdBy
      rw [added] at isChange
      rcases mem_append.mp isChange with old | own
      · exact carriedOld change old redline member createdBy
      · cases mem_singleton.mp own
        apply tagged redline member
        intro old
        exact lt_irrefl _ (sound.creators redline old session.calls createdBy)

/-- When all tags of a call are written, its anchor is made. -/
def Anchors (session : ReviewSession) (call : MutationCall) : Prop :=
  session.Tags call → session.created call.edit ≠ [] →
    TagsAll call.faults (session.created call.edit).length →
      CanAnchor call.faults (session.created call.edit).length

/-- When a tag of a call cannot be written, those in front of it can be
cleared. -/
def Clears (session : ReviewSession) (call : MutationCall) : Prop :=
  session.Tags call → ¬ TagsAll call.faults (session.created call.edit).length →
      ClearsAll call.faults (session.created call.edit).length

instance (session : ReviewSession) (call : MutationCall) : Decidable (session.Tags call) :=
  inferInstanceAs (Decidable (_ ∧ _ ∧ _ ∧ _))

instance (faults : MutationFaults) (count : ℕ) : Decidable (CanAnchor faults count) :=
  inferInstanceAs (Decidable ((∃ position < count, _) ∧ _ ∧ _ ∧ _))

instance (faults : MutationFaults) (count : ℕ) : Decidable (ClearsAll faults count) :=
  inferInstanceAs (Decidable (∀ position < count, _ → _ → _))

instance (session : ReviewSession) (call : MutationCall) : Decidable (session.Anchors call) :=
  inferInstanceAs (Decidable (_ → _ → _ → _))

instance (session : ReviewSession) (call : MutationCall) : Decidable (session.Clears call) :=
  inferInstanceAs (Decidable (_ → _ → _))

theorem Registered.step (registered : session.Registered)
    (valid : session.validEdit call.edit = true) (anchors : session.Anchors call)
    (outcome : session.Outcome call next) : next.Registered := by
  intro redline member hasPrefix
  rw [outcome.session_eq.1] at hasPrefix
  cases outcome with
  | untagged =>
    rcases (validEdit_iff.mp valid).2 redline member with old | fresh
    · exact registered redline old hasPrefix
    · rw [fresh.comment] at hasPrefix
      cases hasPrefix
  | reverted _ _ pairs =>
    rcases Tagged.fresh_or valid pairs member with old | ⟨_, fresh, tagged⟩
    · exact registered redline old hasPrefix
    · rcases tagged.reverted rfl with clear | failed | untouched
      · rw [clear] at hasPrefix
        cases hasPrefix
      · exact .inl failed
      · rw [untouched, fresh.comment] at hasPrefix
        cases hasPrefix
  | unanchored _ tags nonempty tagsAll unanchored _ =>
    exact absurd (anchors tags nonempty tagsAll) unanchored
  | recorded _ record _ pairs =>
    rcases Tagged.fresh_or valid pairs member with old | ⟨_, fresh, tagged⟩
    · apply (registered redline old hasPrefix).imp_right
      rintro ⟨change, isChange, createdBy⟩
      exact ⟨change, mem_append_left _ isChange, createdBy⟩
    · right
      refine ⟨⟨record, session.calls⟩, by simp, ?_⟩
      exact tagged.sameMark.2.trans fresh.createdBy

theorem Owned.step (owned : session.Owned) (valid : session.validEdit call.edit = true)
    (anchors : session.Anchors call) (clears : session.Clears call)
    (outcome : session.Outcome call next) : next.Owned := by
  intro redline member hasPrefix
  rw [outcome.session_eq.1] at hasPrefix
  cases outcome with
  | untagged =>
    rcases (validEdit_iff.mp valid).2 redline member with old | fresh
    · exact owned redline old hasPrefix
    · rw [fresh.comment] at hasPrefix
      cases hasPrefix
  | reverted tags raises pairs =>
    rcases Tagged.fresh_or valid pairs member with old | ⟨_, fresh, tagged⟩
    · exact owned redline old hasPrefix
    · rcases tagged.cleared rfl (clears tags raises) with clear | untouched
      · rw [clear] at hasPrefix
        cases hasPrefix
      · rw [untouched, fresh.comment] at hasPrefix
        cases hasPrefix
  | unanchored _ tags nonempty tagsAll unanchored _ =>
    exact absurd (anchors tags nonempty tagsAll) unanchored
  | recorded _ record _ pairs =>
    rcases Tagged.fresh_or valid pairs member with old | ⟨_, fresh, tagged⟩
    · obtain ⟨change, isChange, token, createdBy⟩ :=
        owned redline old hasPrefix
      exact ⟨change, mem_append_left _ isChange, token, createdBy⟩
    · refine ⟨⟨record, session.calls⟩, by simp, tagged.tagged rfl, ?_⟩
      exact tagged.sameMark.2.trans fresh.createdBy

end Call

/-- A session before its first call: no redline has a token of it. -/
structure Unused (session : ReviewSession) : Prop where
  unique : (session.redlines.map (·.identifier)).Nodup
  creators : ∀ redline ∈ session.redlines, redline.createdBy = none
  comments : ∀ redline ∈ session.redlines,
    (sessionTokenPrefix session.session).isPrefixOf redline.comment = false
  changes : session.changes = []

theorem Unused.sound (unused : session.Unused) : session.Sound := by
  refine ⟨unused.unique, ?_, ?_, ?_, ?_, ?_⟩
  · intro redline member call createdBy
    rw [unused.creators redline member] at createdBy
    cases createdBy
  · simp [unused.changes]
  · simp [unused.changes]
  · simp [unused.changes]
  · simp [unused.changes]

theorem Unused.owned (unused : session.Unused) : session.Owned := by
  intro redline member hasPrefix
  rw [unused.comments redline member] at hasPrefix
  cases hasPrefix

theorem Unused.registered (unused : session.Unused) : session.Registered := by
  intro redline member hasPrefix
  rw [unused.comments redline member] at hasPrefix
  cases hasPrefix

theorem step_outcome {next : ReviewSession} {call : MutationCall}
    (taken : session.step call = some next) :
    session.validEdit call.edit = true ∧ session.Outcome call next := by
  rw [step] at taken
  split_ifs at taken with valid
  cases taken
  exact ⟨valid, recordMutation_outcome session call⟩

theorem sound_of_reaches {initial final : ReviewSession}
    {condition : ReviewSession → MutationCall → Prop}
    {run : List MutationCall} (unused : initial.Unused)
    (reaches : Reaches step condition initial run final) : final.Sound := by
  apply Reaches.invariant Sound _ unused.sound reaches
  intro state call next sound _ taken
  obtain ⟨valid, outcome⟩ := step_outcome taken
  exact sound.step valid outcome

/-- **Tokens.** A call leaves the comments of earlier redlines as they are.
While every fully tagged change gets its anchor, what carries a token of the
session belongs to a recorded change or could not be cleared.  While also every
revert succeeds, the tokens are exact. -/
theorem tokens_exact {initial : ReviewSession} (unused : initial.Unused)
    {run : List MutationCall} {final : ReviewSession} :
    (Reaches step (fun _ _ => True) initial run final → ∀ call next, final.step call = some next →
        ∀ redline ∈ final.redlines, ∀ behind ∈ next.redlines,
          behind.identifier = redline.identifier → behind.comment = redline.comment) ∧
      (Reaches step Anchors initial run final → final.Registered) ∧
      (Reaches step (fun session call => session.Anchors call ∧
          session.Clears call) initial run final → final.Exact) := by
  refine ⟨fun reaches call next taken redline member behind isBehind same => ?_,
    fun reaches => ?_, fun reaches => ?_⟩
  · obtain ⟨valid, outcome⟩ := step_outcome taken
    exact outcome.comment_eq valid (sound_of_reaches unused reaches) member isBehind same
  · apply Reaches.invariant Registered _ unused.registered reaches
    intro state call next registered anchors taken
    obtain ⟨valid, outcome⟩ := step_outcome taken
    exact registered.step valid anchors outcome
  · apply (sound_of_reaches unused reaches).exact
    apply Reaches.invariant Owned _ unused.owned reaches
    rintro state call next owned ⟨anchors, clears⟩ taken
    obtain ⟨valid, outcome⟩ := step_outcome taken
    exact owned.step valid anchors clears outcome

def noMutationFaults : MutationFaults where
  before := .none
  edit := false
  after := .none
  tag _ := .done
  clear _ := .done
  readBack _ := false
  bounds _ := false
  span := false
  bookmark := false
  insertion := .done

def editLeaving (edit : List SessionRedline) (faults : MutationFaults) :
    MutationCall :=
  ⟨edit, faults, "new".toList, "old".toList, [], []⟩

def userRedline : SessionRedline := ⟨0, [], none, false⟩

def openSession : ReviewSession := ⟨['s'], true, [userRedline], [], [], 0⟩

def sessionRedline (comment : Text) (call : ℕ) : SessionRedline :=
  ⟨call + 1, comment, some call, false⟩

/-- The record that `editLeaving` makes of the first change. -/
def firstRecord : ChangeRecord :=
  ⟨makeAgentToken ['s'] 0, bookmarkName ['s'] 0, "new".toList, "old".toList,
    "old".toList, "new".toList⟩

theorem openSession_unused : openSession.Unused where
  unique := nodup_singleton _
  creators := by
    intro redline member
    cases mem_singleton.mp member
    rfl
  comments := by
    intro redline member
    cases mem_singleton.mp member
    rfl
  changes := rfl

def onceRecorded : ReviewSession :=
  ⟨['s'], true, [userRedline, sessionRedline (makeAgentToken ['s'] 0) 0],
    [bookmarkName ['s'] 0], [⟨firstRecord, 0⟩], 1⟩

theorem tokens_exact_onceRecorded : (∀ call next, onceRecorded.step call = some next →
      ∀ redline ∈ onceRecorded.redlines, ∀ behind ∈ next.redlines,
        behind.identifier = redline.identifier → behind.comment = redline.comment) ∧
      onceRecorded.Registered ∧ onceRecorded.Exact := by
  obtain ⟨frame, registered, exact⟩ :=
    @tokens_exact openSession openSession_unused
      [editLeaving [userRedline, sessionRedline [] 0] noMutationFaults]
      onceRecorded
  exact ⟨frame (.of_follow (by decide)), registered (.of_follow (by decide)),
    exact (.of_follow (by decide))⟩

/-- A change that is tagged and not anchored lends its token to the next. -/
theorem not_tokens_exact : ¬ ∀ (initial : ReviewSession) (run : List MutationCall) final,
      initial.Unused → initial.active = true → Reaches step (fun _ _ => True) initial run final →
          final.Registered ∧ final.Exact := by
  intro always
  have reaches : Reaches step (fun _ _ => True) openSession
      [editLeaving [userRedline, sessionRedline [] 0]
          { noMutationFaults with bookmark := true },
        editLeaving [userRedline, sessionRedline (makeAgentToken ['s'] 0) 0, sessionRedline [] 1]
          noMutationFaults]
      ⟨['s'], true, [userRedline, sessionRedline (makeAgentToken ['s'] 0) 0,
          sessionRedline (makeAgentToken ['s'] 0) 1],
        [bookmarkName ['s'] 0], [⟨firstRecord, 1⟩], 2⟩ :=
    .of_follow (by decide)
  obtain ⟨-, owners, -⟩ := always _ _ _ openSession_unused rfl reaches
  have lent := owners ⟨firstRecord, 1⟩ (by decide)
    (sessionRedline (makeAgentToken ['s'] 0) 0) (by decide)
  have creator := lent.mp rfl
  cases creator

end ReviewSession

end WriterAgent.Writer
