import WriterAgent.Writer.Review.RecordMutation
import Mathlib.Data.List.Nodup

/-!
# What one call tags

A scan that can be relied on tells the redlines of the edit from those before
it.  These are tagged all together.
-/

namespace WriterAgent.Writer

open PyText List

variable {redlines edit applied written : List SessionRedline}
  {session : ReviewSession} {faults : MutationFaults} {token : Text}
  {redline : SessionRedline} {related : SessionRedline → SessionRedline → Prop}
  {call : MutationCall}

theorem snapshotRedlineIds_reliable {faults : ScanFaults}
    (reliable : (snapshotRedlineIds faults redlines).2 = true) (identifier : ℕ) :
    identifier ∈ (snapshotRedlineIds faults redlines).1 ↔
      identifier ∈ redlines.map (·.identifier) := by
  have gathers : ∀ (items : List SessionRedline) (start : ℕ) (identifiers : Finset ℕ),
      Classifies (identifierItem faults) start items identifiers → (identifier ∈
            gatherFrom (identifierItem faults) start items identifiers ↔
          identifier ∈ identifiers ∨ identifier ∈ items.map (·.identifier)) := by
    intro items
    induction items with
    | nil => simp [gatherFrom]
    | cons redline rest ih =>
      intro start identifiers classifies
      obtain ⟨first, later⟩ := classifies
      rw [gatherFrom, ih _ _ later]
      rw [identifierItem] at first ⊢
      split_ifs at first with readable
      rw [if_neg readable, Finset.mem_insert, map_cons, mem_cons]
      tauto
  obtain ⟨classifies, gathered⟩ := scanRedlines_reliable reliable
  rw [snapshotRedlineIds]
  simp only [gathered, gathers redlines 0 ∅ classifies, Finset.notMem_empty, false_or]

theorem newRedlinesSince_reliable {faults : ScanFaults} {before : Finset ℕ}
    (reliable : (newRedlinesSince faults redlines before).2 = true) :
    (newRedlinesSince faults redlines before).1 = redlines.filter (·.identifier ∉ before) := by
  have gathers : ∀ (items : List SessionRedline) (start : ℕ) (out : List SessionRedline),
      Classifies (newRedlineItem faults before) start items out →
        gatherFrom (newRedlineItem faults before) start items out =
          out ++ items.filter (·.identifier ∉ before) := by
    intro items
    induction items with
    | nil => exact fun _ out _ => (append_nil out).symm
    | cons redline rest ih =>
      intro start out classifies
      obtain ⟨first, later⟩ := classifies
      rw [gatherFrom, ih _ _ later]
      rw [newRedlineItem] at first ⊢
      split at first
      · cases first
      · rename_i readable
        rw [if_neg readable]
        by_cases isNew : redline.identifier ∉ before <;> simp [isNew]
  obtain ⟨classifies, gathered⟩ := scanRedlines_reliable reliable
  rw [newRedlinesSince]
  simp only [gathered, gathers redlines 0 [] classifies, nil_append]

/-- A redline behind tagging is one before it, but for its comment and the
history of its clears. -/
def SessionRedline.SameMark (redline other : SessionRedline) : Prop :=
  redline.identifier = other.identifier ∧ redline.createdBy = other.createdBy

theorem SessionRedline.write_sameMark (outcome : WriteOutcome) (comment : Text)
    (redline : SessionRedline) :
    (redline.write outcome comment).SameMark redline := by
  rw [SessionRedline.write]
  split <;> exact ⟨rfl, rfl⟩

theorem SessionRedline.clear_sameMark (outcome : WriteOutcome) (redline : SessionRedline) :
    (redline.clear outcome).SameMark redline := by
  rw [SessionRedline.clear]
  split <;> exact ⟨rfl, rfl⟩

/-- The tags are written up to the first write that raises. -/
def TagsAll (faults : MutationFaults) (count : ℕ) : Prop :=
  ∀ position < count, (faults.tag position).raises = false

instance (faults : MutationFaults) (count : ℕ) : Decidable (TagsAll faults count) :=
  inferInstanceAs (Decidable (∀ position < count, _))

theorem tagLoop_success (success : (tagLoop faults token applied redlines).2.2 = false) :
    (tagLoop faults token applied redlines).1 =
        applied ++ redlines.map ({ · with comment := token }) ∧
      ∀ position, applied.length ≤ position → position < applied.length + redlines.length →
          (faults.tag position).raises = false := by
  induction redlines generalizing applied with
  | nil =>
    refine ⟨(append_nil _).symm, fun position above below => ?_⟩
    simp only [length_nil] at below
    omega
  | cons redline rest ih =>
    rw [tagLoop] at success ⊢
    cases outcome : faults.tag applied.length with
    | done =>
      simp only [outcome, WriteOutcome.raises, Bool.false_eq_true, if_false] at success ⊢
      obtain ⟨written, quiet⟩ := ih success
      refine ⟨?_, fun position above below => ?_⟩
      · rw [written]
        simp [SessionRedline.write, WriteOutcome.applies]
      · rw [length_cons] at below
        rcases Nat.eq_or_lt_of_le above with same | later
        · exact same ▸ congrArg WriteOutcome.raises outcome
        · apply quiet position
          · rw [length_append, length_singleton]
            omega
          · rw [length_append, length_singleton]
            omega
    | raised | doneAndRaised => simp [outcome, WriteOutcome.raises] at success

theorem tagLoop_failure (failure : (tagLoop faults token applied redlines).2.2 = true) :
    ∃ front redline rest, redlines = front ++ redline :: rest ∧
      (∀ position, applied.length ≤ position → position < applied.length + front.length →
          faults.tag position = .done) ∧
      (faults.tag (applied.length + front.length)).raises = true ∧
      tagLoop faults token applied redlines =
        (applied ++ (front.map ({ · with comment := token }) ++
          [redline.write (faults.tag (applied.length + front.length)) token]),
          rest, true) := by
  induction redlines generalizing applied with
  | nil => cases failure
  | cons redline rest ih =>
    rw [tagLoop] at failure
    cases outcome : faults.tag applied.length with
    | done =>
      simp only [outcome, WriteOutcome.raises, Bool.false_eq_true, if_false] at failure
      obtain ⟨front, raising, behind, whole, quiet, raises, loop⟩ :=
        ih failure
      have length : (applied ++ [redline.write .done token]).length +
          front.length = applied.length + (redline :: front).length := by
        simp only [length_append, length_cons, length_nil]
        omega
      rw [length] at raises loop quiet
      refine ⟨redline :: front, raising, behind, ?_, ?_, raises, ?_⟩
      · rw [whole, cons_append]
      · intro position above below
        rcases Nat.eq_or_lt_of_le above with same | later
        · rw [← same, outcome]
        · apply quiet position _ below
          rw [length_append, length_singleton]
          omega
      · rw [tagLoop]
        simp only [outcome, WriteOutcome.raises, Bool.false_eq_true, if_false, loop]
        simp [SessionRedline.write, WriteOutcome.applies]
    | raised | doneAndRaised =>
      refine ⟨[], redline, rest, rfl, ?_, ?_, ?_⟩
      · intro position above below
        simp only [length_nil] at below
        omega
      · simp [outcome, WriteOutcome.raises]
      · simp [tagLoop, outcome, WriteOutcome.raises]

theorem clearLoop_eq (faults : MutationFaults) (token : Text)
    (position : ℕ) (redlines : List SessionRedline) :
    (clearLoop faults token position redlines).1 = redlines.mapIdx fun index redline =>
        redline.clear (faults.clear (position + index)) := by
  induction redlines generalizing position with
  | nil => rfl
  | cons redline rest ih =>
    rw [clearLoop, mapIdx_cons]
    simp only [ih, Nat.add_zero, List.cons.injEq, true_and]
    apply mapIdx_eq_mapIdx_iff.mpr
    intro index _
    rw [Nat.add_assoc, Nat.add_comm 1]

/-- When a write raises, every tag that was written can be cleared. -/
def ClearsAll (faults : MutationFaults) (count : ℕ) : Prop :=
  ∀ position < count, TagsAll faults position → (faults.tag position).applies = true →
      (faults.clear position).applies = true

structure Tagged (faults : MutationFaults) (token : Text) (redlines : List SessionRedline)
    (success : Bool) (redline original : SessionRedline) : Prop where
  sameMark : redline.SameMark original
  tagged : success = true → redline.comment = token
  reverted : success = false → redline.comment = [] ∨
    redline.clearFailed = true ∨ redline = original
  cleared : success = false → ClearsAll faults redlines.length →
    redline.comment = [] ∨ redline.comment = original.comment

theorem Tagged.of_clear {outcome : WriteOutcome}
    {written original : SessionRedline} (sameMark : written.SameMark original)
    (clears : ClearsAll faults redlines.length → outcome.applies = true ∨ written = original) :
    Tagged faults token redlines false (written.clear outcome) original := by
  obtain ⟨sameIdentifier, sameCreator⟩ := written.clear_sameMark outcome
  refine ⟨⟨sameIdentifier.trans sameMark.1, sameCreator.trans sameMark.2⟩,
    nofun, fun _ => ?_, fun _ clearsAll => ?_⟩
  · by_cases applied : outcome.applies = true
    · exact .inl (by rw [SessionRedline.clear, if_pos applied])
    · exact .inr (.inl (by rw [SessionRedline.clear, if_neg applied]))
  · by_cases applied : outcome.applies = true
    · exact .inl (by rw [SessionRedline.clear, if_pos applied])
    · rcases clears clearsAll with applies | same
      · exact absurd applies applied
      · exact .inr (by rw [SessionRedline.clear, if_neg applied, same])

/-- **Tagging.** Each new redline is tagged on success, and clear, known to be
not cleared, or untouched on failure. -/
theorem tagNewRedlines_spec (faults : MutationFaults) (token : Text)
    (redlines : List SessionRedline) :
    List.Forall₂ (Tagged faults token redlines (tagNewRedlines faults token redlines).2.1)
      (tagNewRedlines faults token redlines).1 redlines := by
  cases raised : (tagLoop faults token [] redlines).2.2 with
  | false =>
    obtain ⟨written, -⟩ := tagLoop_success raised
    have outcome : tagNewRedlines faults token redlines =
        (redlines.map ({ · with comment := token }), true, 0) := by
      rw [tagNewRedlines]
      split
      · rename_i applied rest loop
        rw [loop, nil_append] at written
        rw [← written]
      · rename_i loop
        rw [loop] at raised
        cases raised
    rw [outcome]
    apply forall₂_map_left_iff.mpr
    apply forall₂_same.mpr
    intro redline _
    exact ⟨⟨rfl, rfl⟩, fun _ => rfl, nofun, nofun⟩
  | true =>
    obtain ⟨front, raising, rest, whole, quiet, -, loop⟩ :=
      tagLoop_failure raised
    simp only [length_nil, Nat.zero_le, Nat.zero_add, true_implies, nil_append] at quiet loop
    have done : ∀ position ≤ front.length, TagsAll faults position := by
      intro position below earlier isEarlier
      rw [quiet earlier (by omega)]
      rfl
    have outcome : tagNewRedlines faults token redlines =
        ((clearLoop faults token 0 (front.map ({ · with comment := token }) ++
            [raising.write (faults.tag front.length) token])).1 ++ rest,
          false, (clearLoop faults token 0
          (front.map ({ · with comment := token }) ++
            [raising.write (faults.tag front.length) token])).2) := by
      rw [tagNewRedlines, loop]
    have length : redlines.length = front.length + (rest.length + 1) := by
      rw [whole, length_append, length_cons]
    rw [outcome, clearLoop_eq]
    simp only [whole, mapIdx_append, append_assoc, mapIdx_singleton, length_map, Nat.zero_add]
    apply rel_append
    · apply forall₂_iff_get.mpr
      refine ⟨by simp, fun position below _ => ?_⟩
      simp only [length_mapIdx, length_map] at below
      simp only [get_eq_getElem, getElem_mapIdx, getElem_map]
      have sameMark : SessionRedline.SameMark
          { front[position] with comment := token } front[position] :=
        ⟨rfl, rfl⟩
      apply Tagged.of_clear sameMark
      intro clearsAll
      apply Or.inl
      apply clearsAll position (by rw [← whole]; omega) (done position below.le)
      rw [quiet position below]
      rfl
    · apply List.Forall₂.cons
      · apply Tagged.of_clear (raising.write_sameMark _ _)
        intro clearsAll
        by_cases applied : (faults.tag front.length).applies = true
        · apply Or.inl
          apply clearsAll _ _ (done _ le_rfl) applied
          rw [← whole]
          omega
        · exact .inr (by rw [SessionRedline.write, if_neg applied])
      · apply forall₂_same.mpr
        intro redline _
        exact ⟨⟨rfl, rfl⟩, nofun, fun _ => .inr (.inr rfl), fun _ _ => .inr rfl⟩

theorem tagNewRedlines_success_iff : (tagNewRedlines faults token redlines).2.1 = true ↔
      TagsAll faults redlines.length := by
  rw [tagNewRedlines]
  split
  · rename_i loop
    obtain ⟨-, quiet⟩ := tagLoop_success (congrArg (·.2.2) loop)
    refine ⟨fun _ position below => ?_, fun _ => rfl⟩
    apply quiet position (Nat.zero_le _)
    rw [length_nil, Nat.zero_add]
    exact below
  · rename_i loop
    obtain ⟨front, raising, behind, whole, -, raises, -⟩ :=
      tagLoop_failure (congrArg (·.2.2) loop)
    rw [length_nil, Nat.zero_add] at raises
    refine ⟨nofun, fun tagsAll => ?_⟩
    have quiet := tagsAll front.length (by simp [whole])
    rw [raises] at quiet
    cases quiet

theorem exists_of_forall₂ {others : List SessionRedline}
    (pairs : List.Forall₂ related redlines others) :
    (∀ redline ∈ redlines, ∃ other ∈ others, related redline other) ∧
      ∀ other ∈ others, ∃ redline ∈ redlines, related redline other := by
  induction pairs with
  | nil => exact ⟨nofun, nofun⟩
  | cons first _ ih =>
    constructor
    · intro redline member
      rcases mem_cons.mp member with rfl | later
      · exact ⟨_, mem_cons_self, first⟩
      · obtain ⟨other, isOther, isRelated⟩ := ih.1 redline later
        exact ⟨other, mem_cons_of_mem _ isOther, isRelated⟩
    · intro other member
      rcases mem_cons.mp member with rfl | later
      · exact ⟨_, mem_cons_self, first⟩
      · obtain ⟨redline, isRedline, isRelated⟩ := ih.2 other later
        exact ⟨redline, mem_cons_of_mem _ isRedline, isRelated⟩

theorem mem_writeBack {table : List SessionRedline} (member : redline ∈ writeBack table written) :
    ∃ original ∈ table, redline ∈ written ∧ redline.identifier = original.identifier ∨
      redline = original ∧ ∀ other ∈ written, other.identifier ≠ original.identifier := by
  obtain ⟨original, inTable, outcome⟩ := mem_map.mp member
  refine ⟨original, inTable, ?_⟩
  cases found : written.find? (·.identifier = original.identifier) with
  | none =>
    right
    rw [found] at outcome
    refine ⟨outcome.symm, fun other isWritten => ?_⟩
    simpa using List.find?_eq_none.mp found other isWritten
  | some other =>
    left
    have same : other.identifier = original.identifier := by simpa using List.find?_some found
    rw [found] at outcome
    cases outcome
    exact ⟨mem_of_find?_eq_some found, same⟩

namespace ReviewSession

def created (session : ReviewSession) (edit : List SessionRedline) : List SessionRedline :=
  edit.filter (·.identifier ∉ session.redlines.map (·.identifier))

structure Fresh (session : ReviewSession) (redline : SessionRedline) : Prop where
  new : redline.identifier ∉ session.redlines.map (·.identifier)
  createdBy : redline.createdBy = some session.calls
  clearFailed : redline.clearFailed = false
  comment : (sessionTokenPrefix session.session).isPrefixOf redline.comment = false

theorem validEdit_iff : session.validEdit edit = true ↔ (edit.map (·.identifier)).Nodup ∧
        ∀ redline ∈ edit, redline ∈ session.redlines ∨ session.Fresh redline := by
  rw [validEdit, Bool.and_eq_true, decide_eq_true_iff, all_eq_true]
  apply and_congr_right
  intro _
  apply forall₂_congr
  intro redline _
  simp only [Bool.or_eq_true, Bool.and_eq_true, decide_eq_true_eq, beq_iff_eq, Bool.not_eq_true']
  apply or_congr_right
  constructor
  · rintro ⟨⟨⟨new, createdBy⟩, clearFailed⟩, comment⟩
    exact ⟨new, createdBy, clearFailed, comment⟩
  · rintro ⟨new, createdBy, clearFailed, comment⟩
    exact ⟨⟨⟨new, createdBy⟩, clearFailed⟩, comment⟩

theorem mem_created (valid : session.validEdit edit = true) :
    redline ∈ session.created edit ↔ redline ∈ edit ∧ session.Fresh redline := by
  rw [created, mem_filter, decide_eq_true_iff]
  apply and_congr_right
  intro member
  rcases (validEdit_iff.mp valid).2 redline member with old | fresh
  · constructor
    · intro new
      exact absurd (mem_map_of_mem old) new
    · exact Fresh.new
  · exact ⟨fun _ => fresh, Fresh.new⟩

theorem mem_writeBack_created (valid : session.validEdit edit = true)
    (sameMark : ∀ redline original, related redline original → redline.SameMark original)
    (pairs : List.Forall₂ related written (session.created edit))
    (member : redline ∈ writeBack edit written) :
    redline ∈ session.redlines ∨ ∃ original, session.Fresh original ∧ related redline original := by
  obtain ⟨original, inEdit, outcome⟩ := mem_writeBack member
  rcases outcome with ⟨isWritten, -⟩ | ⟨rfl, absent⟩
  · obtain ⟨other, isCreated, isRelated⟩ := (exists_of_forall₂ pairs).1 _ isWritten
    exact .inr ⟨other, ((mem_created valid).mp isCreated).2, isRelated⟩
  · rcases (validEdit_iff.mp valid).2 _ inEdit with old | fresh
    · exact .inl old
    · obtain ⟨other, isWritten, isRelated⟩ :=
        (exists_of_forall₂ pairs).2 _ ((mem_created valid).mpr ⟨inEdit, fresh⟩)
      exact absurd (sameMark _ _ isRelated).1 (absent other isWritten)

/-- The call comes to tagging: the edit has not raised, and the scans before
and behind it can be relied on. -/
def Tags (session : ReviewSession) (call : MutationCall) : Prop :=
  session.active = true ∧ call.faults.edit = false ∧
    (snapshotRedlineIds call.faults.before session.redlines).2 = true ∧
      (newRedlinesSince call.faults.after call.edit
        (snapshotRedlineIds call.faults.before session.redlines).1).2 = true

/-- The span and the bookmark of a change with that many redlines can be
made. -/
def CanAnchor (faults : MutationFaults) (count : ℕ) : Prop :=
  (∃ position < count, faults.bounds position = false) ∧
    faults.span = false ∧ faults.bookmark = false ∧ faults.insertion = .done

def edited (session : ReviewSession) (redlines : List SessionRedline) :
    ReviewSession :=
  { session with redlines := redlines, calls := session.calls + 1 }

/-- How a call ends: before tagging, with the tags reverted, with the tags but
without an anchor, or with a recorded change. -/
inductive Outcome (session : ReviewSession) (call : MutationCall) : ReviewSession → Prop where
  | untagged : Outcome session call (session.edited call.edit)
  | reverted {token : Text} {written : List SessionRedline} : session.Tags call →
      ¬ TagsAll call.faults (session.created call.edit).length →
      List.Forall₂ (Tagged call.faults token (session.created call.edit) false) written
        (session.created call.edit) →
      Outcome session call (session.edited (writeBack call.edit written))
  | unanchored {token : Text} {written : List SessionRedline} (bookmarks : List Text) :
      session.Tags call →
      session.created call.edit ≠ [] →
      TagsAll call.faults (session.created call.edit).length →
      ¬ CanAnchor call.faults (session.created call.edit).length →
      List.Forall₂ (Tagged call.faults token (session.created call.edit) true) written
        (session.created call.edit) →
      Outcome session call { session.edited (writeBack call.edit written) with
          bookmarks := bookmarks }
  | recorded {written : List SessionRedline} (bookmarks : List Text) (record : ChangeRecord) :
      record.token = makeAgentToken session.session session.changes.length →
      List.Forall₂ (Tagged call.faults record.token (session.created call.edit) true)
        written (session.created call.edit) →
      Outcome session call { session.edited (writeBack call.edit written) with
          bookmarks := bookmarks
          changes := session.changes ++ [⟨record, session.calls⟩] }

theorem newRedlinesSince_eq_created
    (before : (snapshotRedlineIds call.faults.before session.redlines).2 = true)
    (after : (newRedlinesSince call.faults.after call.edit
      (snapshotRedlineIds call.faults.before session.redlines).1).2 = true) :
    (newRedlinesSince call.faults.after call.edit
      (snapshotRedlineIds call.faults.before session.redlines).1).1 =
        session.created call.edit := by
  rw [newRedlinesSince_reliable after, created]
  simp only [snapshotRedlineIds_reliable before]

theorem anchorChange_cases (tagged : ReviewSession) (call : MutationCall) (count : ℕ) :
    (∃ bookmarks, ¬ CanAnchor call.faults count ∧ tagged.anchorChange call count =
          { tagged with bookmarks := bookmarks }) ∨
      ∃ bookmarks record, record.token = makeAgentToken tagged.session tagged.changes.length ∧
          tagged.anchorChange call count = { tagged with
              bookmarks := bookmarks
              changes := tagged.changes ++ [⟨record, tagged.calls - 1⟩] } := by
  unfold anchorChange
  split
  · rename_i unreadable
    refine .inl ⟨tagged.bookmarks, ?_, rfl⟩
    rintro ⟨⟨position, below, readable⟩, -⟩
    simp only [Bool.not_eq_true', any_eq_false, mem_range, Bool.not_eq_false] at unreadable
    have raises := unreadable position below
    rw [readable] at raises
    cases raises
  · split
    · rename_i raised
      refine .inl ⟨tagged.bookmarks, ?_, rfl⟩
      rintro ⟨-, span, bookmark, -⟩
      rw [span, bookmark] at raised
      cases raised
    · cases insertion : call.faults.insertion with
      | done =>
        right
        exact ⟨_, _, rfl, rfl⟩
      | raised =>
        left
        refine ⟨tagged.bookmarks, ?_, rfl⟩
        rintro ⟨-, -, -, done⟩
        rw [insertion] at done
        cases done
      | doneAndRaised =>
        left
        refine ⟨_, ?_, rfl⟩
        rintro ⟨-, -, -, done⟩
        rw [insertion] at done
        cases done

theorem taggedCall_outcome (tags : session.Tags call) : session.Outcome call
      (if (session.created call.edit).isEmpty then session.edited call.edit
      else
        let token := makeAgentToken session.session session.changes.length
        let tagging :=
          tagNewRedlines call.faults token (session.created call.edit)
        let tagged := session.edited (writeBack call.edit tagging.1)
        if !tagging.2.1 then tagged
        else tagged.anchorChange call (session.created call.edit).length) := by
  split
  · exact .untagged
  · rename_i nonempty
    rw [List.isEmpty_iff] at nonempty
    have pairs := tagNewRedlines_spec call.faults
      (makeAgentToken session.session session.changes.length)
      (session.created call.edit)
    cases success : (tagNewRedlines call.faults
      (makeAgentToken session.session session.changes.length)
      (session.created call.edit)).2.1 with
    | false =>
      rw [success] at pairs
      simp only [success, Bool.not_false, if_true]
      refine .reverted tags (fun tagsAll => ?_) pairs
      rw [tagNewRedlines_success_iff.mpr tagsAll] at success
      cases success
    | true =>
      rw [success] at pairs
      have tagsAll := tagNewRedlines_success_iff.mp success
      rcases anchorChange_cases (session.edited (writeBack call.edit (tagNewRedlines call.faults
            (makeAgentToken session.session session.changes.length)
            (session.created call.edit)).1)) call
          (session.created call.edit).length with
        ⟨bookmarks, unanchored, next⟩ | ⟨bookmarks, record, token, next⟩
      · simp only [success, Bool.not_true, Bool.false_eq_true, if_false, next]
        exact .unanchored bookmarks tags nonempty tagsAll unanchored pairs
      · simp only [success, Bool.not_true, Bool.false_eq_true, if_false, next]
        have numbered : record.token =
          makeAgentToken session.session session.changes.length := token
        refine .recorded bookmarks record numbered ?_
        rw [numbered]
        exact pairs

theorem recordMutation_cases (session : ReviewSession) (call : MutationCall) :
    session.recordMutation call = session.edited call.edit ∨
      session.Tags call ∧ session.recordMutation call =
        if (session.created call.edit).isEmpty then session.edited call.edit
        else
          let token := makeAgentToken session.session session.changes.length
          let tagging :=
            tagNewRedlines call.faults token (session.created call.edit)
          let tagged := session.edited (writeBack call.edit tagging.1)
          if !tagging.2.1 then tagged
          else
            tagged.anchorChange call (session.created call.edit).length := by
  unfold recordMutation
  simp only
  split
  · exact .inl rfl
  · rename_i active
    split
    · exact .inl rfl
    · rename_i edit
      split
      · exact .inl rfl
      · rename_i before
        split
        · exact .inl rfl
        · rename_i after
          simp only [Bool.not_eq_true', Bool.not_eq_false,
            Bool.not_eq_true] at active edit before after
          refine .inr ⟨⟨active, edit, before, after⟩, ?_⟩
          rw [newRedlinesSince_eq_created before after]
          rfl

/-- **Calls.** Every call ends in one of four ways. -/
theorem recordMutation_outcome (session : ReviewSession) (call : MutationCall) :
    session.Outcome call (session.recordMutation call) := by
  rcases session.recordMutation_cases call with only | ⟨tags, tagged⟩
  · rw [only]
    exact .untagged
  · rw [tagged]
    exact taggedCall_outcome tags

end ReviewSession

end WriterAgent.Writer
