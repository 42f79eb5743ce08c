import WriterAgent.Foundations.Text

/-!
# Streamed edits of Writer

`plugin/writer/edit_review.py`: a session writes the chunks of an answer into a
range while no changes are recorded, and `finish` turns them into one tracked
change.  One text or tagging operation may raise; the state of the user comes
back all the same.
-/

namespace WriterAgent.Writer

open PyText List

inductive ChangeMark where
  | plain
  | inserted
  | deleted
  deriving DecidableEq

/-- What a session changes: its range, the recording of changes, the undo
contexts and the author of changes. -/
structure StreamedDoc where
  text : List (Char × ChangeMark)
  recordChanges : Bool
  undoEntered : ℕ
  undoLeft : ℕ
  agentAuthor : Bool
  /-- The text and tagging operations so far. -/
  operations : ℕ
  deriving DecidableEq

namespace StreamedDoc

/-- The text with all tracked changes accepted. -/
def accepted (doc : StreamedDoc) : Text :=
  (doc.text.filter (·.2 ≠ .deleted)).map Prod.fst

def next (doc : StreamedDoc) : StreamedDoc :=
  { doc with operations := doc.operations + 1 }

/-- An operation and whether it raises, as only the one at fault does. -/
def attempt (fault : Option ℕ) (effect : StreamedDoc → StreamedDoc) (doc : StreamedDoc) :
    Bool × StreamedDoc :=
  if fault = some doc.operations then (true, doc.next) else (false, effect doc.next)

/-- `setString` of the range.  Recorded, it strikes the text, of which only
tracked insertions go at once. -/
def setString (value : Text) (doc : StreamedDoc) : StreamedDoc :=
  { doc with
    text :=
      if doc.recordChanges then
        (doc.text.filter (·.2 ≠ .inserted)).map (fun c => (c.1, .deleted)) ++
          value.map (·, .inserted)
      else value.map (·, .plain) }

/-- `insertString` at the end of the range. -/
def insertString (value : Text) (doc : StreamedDoc) : StreamedDoc :=
  { doc with
    text := doc.text ++ value.map (·, if doc.recordChanges then .inserted else .plain) }

def record (value : Bool) (doc : StreamedDoc) : StreamedDoc :=
  { doc with recordChanges := value }

/-- `WriterCompoundUndo`, whose context may fail to open. -/
def enterUndo (opens : Bool) (doc : StreamedDoc) : StreamedDoc :=
  { doc with undoEntered := doc.undoEntered + opens.toNat }

def closeUndo (isOpen : Bool) (doc : StreamedDoc) : StreamedDoc :=
  { doc with undoLeft := doc.undoLeft + isOpen.toNat }

/-- `review_authors.end` of what `review_authors.begin` has begun. -/
def endAuthor (begun : Bool) (doc : StreamedDoc) : StreamedDoc :=
  if begun then { doc with agentAuthor := false } else doc

end StreamedDoc

open StreamedDoc

/-- The fields of `WriterStreamedRewriteSession` and of
`WriterStreamedAppendSession`. -/
structure StreamedSession where
  originalText : Text
  generatedText : Text
  wasRecording : Bool
  trackReviewable : Bool
  undoOpen : Bool

variable (fault : Option ℕ) (session : StreamedSession) (doc : StreamedDoc)

/-- `append_chunk`.  The rewrite session (`front` empty) lets an exception
through to its caller, the append session logs it. -/
def appendChunk (front : Text) (streamed : StreamedSession × StreamedDoc) (chunk : Text) :
    StreamedSession × StreamedDoc :=
  if chunk.isEmpty then streamed
  else
    let generated := streamed.1.generatedText ++ chunk
    ({ streamed.1 with generatedText := generated },
      (streamed.2.attempt fault (setString (front ++ generated))).2)

/-- The set-up of the tagging: the snapshot of the redlines, the author and the
display of changes.  It tells whether there is a snapshot and an author to end. -/
def reviewSetup : (Bool × Bool) × StreamedDoc :=
  if session.trackReviewable then
    match doc.attempt fault id with
    | (true, doc) => ((false, false), doc)
    | (false, doc) =>
      let (failed, doc) := doc.attempt fault ({ · with agentAuthor := true })
      ((true, !failed), (doc.attempt fault id).2)
  else ((false, false), doc)

/-- The fall-back of `finish`, for the text that was streamed. -/
def keepStreamed (streamed : Text) : StreamedDoc :=
  ((doc.record false).attempt fault (setString streamed)).2.record session.wasRecording

/-- The steps of `finish` that make one tracked change of the streamed text:
`retype` is done with the original text back in place and changes recorded. -/
def collapse (streamed : Text) (retype : StreamedDoc → Bool × StreamedDoc) : StreamedDoc :=
  let ((snapshot, begun), doc) := reviewSetup fault session doc
  match doc.attempt fault (setString session.originalText) with
  | (true, doc) => keepStreamed fault session (doc.endAuthor begun) streamed
  | (false, doc) =>
    match retype (doc.record true) with
    | (true, doc) => keepStreamed fault session (doc.endAuthor begun) streamed
    | (false, doc) =>
      let doc := doc.endAuthor begun
      let doc := if session.wasRecording then doc else doc.record false
      if snapshot then (doc.attempt fault id).2 else doc

namespace WriterStreamedRewriteSession

/-- The constructor; it gives no session when it raises. -/
def init (opensUndo trackReviewable : Bool) (originalText : Text) :
    Option StreamedSession × StreamedDoc :=
  let wasRecording := doc.recordChanges
  let doc := doc.enterUndo opensUndo
  let doc := if wasRecording then doc.record false else doc
  match doc.attempt fault (setString []) with
  | (true, doc) => (none, (if wasRecording then doc.record true else doc).closeUndo opensUndo)
  | (false, doc) => (some ⟨originalText, [], wasRecording, trackReviewable, opensUndo⟩, doc)

def finish : StreamedDoc :=
  (if session.wasRecording || session.trackReviewable then
    collapse fault session doc session.generatedText
      (attempt fault (setString session.generatedText))
  else doc).closeUndo session.undoOpen

def abortAndRestore : StreamedDoc :=
  let doc := if session.wasRecording then doc.record false else doc
  let doc := (doc.attempt fault (setString session.originalText)).2
  (if session.wasRecording then doc.record true else doc).closeUndo session.undoOpen

end WriterStreamedRewriteSession

namespace WriterStreamedAppendSession

def init (opensUndo trackReviewable : Bool) (originalText : Text) : StreamedSession × StreamedDoc :=
  let wasRecording := doc.recordChanges
  let doc := doc.enterUndo opensUndo
  (⟨originalText, [], wasRecording, trackReviewable, opensUndo⟩,
    if wasRecording then doc.record false else doc)

/-- The end cursor, and the insertion there. -/
def insertAtEnd (value : Text) : Bool × StreamedDoc :=
  match doc.attempt fault id with
  | (true, doc) => (true, doc)
  | (false, doc) => doc.attempt fault (·.insertString value)

def finish : StreamedDoc :=
  (if session.generatedText.isEmpty then
    if session.wasRecording then doc.record true else doc
  else if session.wasRecording || session.trackReviewable then
    collapse fault session doc (session.originalText ++ session.generatedText)
      (insertAtEnd fault · session.generatedText)
  else doc).closeUndo session.undoOpen

def abortAndRestore : StreamedDoc :=
  (doc.record session.wasRecording).closeUndo session.undoOpen

end WriterStreamedAppendSession

inductive StreamEnding where
  | finish
  | abortAndRestore
  deriving DecidableEq

/-- The range with the original text in it, before a session. -/
def StreamedDoc.start (recordChanges : Bool) (original : Text) : StreamedDoc :=
  ⟨original.map (·, .plain), recordChanges, 0, 0, false, 0⟩

/-- The user's setting, the undo context and the author are as they were. -/
structure Restored (recordChanges opensUndo : Bool) (doc : StreamedDoc) : Prop where
  recordChanges : doc.recordChanges = recordChanges
  entered : doc.undoEntered = opensUndo.toNat
  left : doc.undoLeft = opensUndo.toNat
  agentAuthor : doc.agentAuthor = false

section Runs

variable (recordChanges opensUndo trackReviewable : Bool) (original : Text)
  (chunks : List Text) (ending : StreamEnding)

/-- A whole run of a rewrite session, and whether it was constructed. -/
def WriterStreamedRewriteSession.run : Bool × StreamedDoc :=
  match init fault (.start recordChanges original) opensUndo trackReviewable original with
  | (none, doc) => (false, doc)
  | (some session, doc) =>
    let (session, doc) := chunks.foldl (appendChunk fault []) (session, doc)
    (true, match ending with
      | .finish => finish fault session doc
      | .abortAndRestore => abortAndRestore fault session doc)

def WriterStreamedAppendSession.run : StreamedDoc :=
  let (session, doc) := chunks.foldl (appendChunk fault original)
    (init (.start recordChanges original) opensUndo trackReviewable original)
  match ending with
  | .finish => finish fault session doc
  | .abortAndRestore => abortAndRestore session doc

/-- The state is back, and the text is that of the ending. -/
def RewriteMeets : Prop :=
  let (constructed, doc) := WriterStreamedRewriteSession.run fault recordChanges opensUndo
    trackReviewable original chunks ending
  Restored recordChanges opensUndo doc ∧ (constructed = true →
    doc.accepted = match ending with
      | .finish => chunks.flatten
      | .abortAndRestore => original)

def AppendMeets : Prop :=
  let doc := WriterStreamedAppendSession.run fault recordChanges opensUndo
    trackReviewable original chunks ending
  Restored recordChanges opensUndo doc ∧
    (ending = .finish → doc.accepted = original ++ chunks.flatten)

end Runs

theorem accepted_plain (value : Text) :
    ((value.map ((·, ChangeMark.plain))).filter (·.2 ≠ .deleted)).map Prod.fst = value := by
  induction value with
  | nil => rfl
  | cons c rest ih => simpa using ih

@[simp] theorem accepted_setString (value : Text) : (doc.setString value).accepted = value := by
  unfold accepted setString
  split_ifs
  · simp [filter_map, Function.comp_def]
  · exact accepted_plain value

@[simp] theorem accepted_insertString (value : Text) :
    (doc.insertString value).accepted = doc.accepted ++ value := by
  unfold accepted StreamedDoc.insertString
  split_ifs <;> simp [filter_map, Function.comp_def]

@[simp] theorem accepted_record (value : Bool) : (doc.record value).accepted = doc.accepted :=
  rfl

variable {fault session doc} {front streamed : Text} {begun : Bool}
  {effect : StreamedDoc → StreamedDoc}

def StreamedDoc.guarded (doc : StreamedDoc) : ℕ × ℕ × Bool :=
  (doc.undoEntered, doc.undoLeft, doc.agentAuthor)

def Spent (fault : Option ℕ) (doc : StreamedDoc) : Prop :=
  ∃ n ∈ fault, n < doc.operations

@[elab_as_elim]
theorem attempt_elim {motive : Bool × StreamedDoc → Prop} (fault : Option ℕ) (doc : StreamedDoc)
    (effect : StreamedDoc → StreamedDoc) (raised : Spent fault doc.next → motive (true, doc.next))
    (done : motive (false, effect doc.next)) : motive (doc.attempt fault effect) := by
  unfold attempt
  split_ifs with isFault
  · exact raised ⟨_, isFault, Nat.lt_succ_self _⟩
  · exact done

theorem attempt_of_spent (spent : Spent fault doc) (effect : StreamedDoc → StreamedDoc) :
    doc.attempt fault effect = (false, effect doc.next) := by
  obtain ⟨n, isFault, before⟩ := spent
  rw [attempt, if_neg]
  rintro same
  cases isFault.symm.trans same
  exact lt_irrefl _ before

theorem guarded_attempt (keeps : ∀ doc, (effect doc).guarded = doc.guarded) :
    (doc.attempt fault effect).2.guarded = doc.guarded :=
  attempt_elim fault doc effect (fun _ => rfl) (keeps _)

theorem attempt_id : (doc.attempt fault id).2 = doc.next := by
  unfold attempt
  split_ifs <;> rfl

theorem guarded_endAuthor : (doc.endAuthor begun).guarded =
    (doc.guarded.1, doc.guarded.2.1, doc.guarded.2.2 && !begun) := by
  cases begun <;> simp [endAuthor, guarded]

theorem guarded_reviewSetup (noAuthor : doc.agentAuthor = false) :
    ((reviewSetup fault session doc).2.endAuthor (reviewSetup fault session doc).1.2).guarded =
      doc.guarded := by
  rw [guarded_endAuthor, reviewSetup]
  split
  · refine attempt_elim fault doc id (fun _ => ?_) ?_
    · simp [guarded, StreamedDoc.next, noAuthor]
    · dsimp only
      refine attempt_elim fault (id doc.next) ({ · with agentAuthor := true }) (fun _ => ?_) ?_ <;>
        simp [attempt_id, guarded, StreamedDoc.next, noAuthor]
  · simp [guarded, noAuthor]

/-- What is left by a `finish` of the document. -/
structure Finished (session : StreamedSession) (doc : StreamedDoc) (streamed : Text)
    (last : StreamedDoc) : Prop where
  recordChanges : last.recordChanges = session.wasRecording
  guarded : last.guarded = doc.guarded
  accepted : last.accepted = streamed

theorem keepStreamed_finished (spent : Spent fault doc) :
    Finished session doc streamed (keepStreamed fault session doc streamed) := by
  have still : Spent fault (doc.record false) := spent
  rw [keepStreamed, attempt_of_spent still]
  exact ⟨rfl, rfl, by simp⟩

theorem endAuthor_frame : (doc.endAuthor begun).recordChanges = doc.recordChanges ∧
    (doc.endAuthor begun).accepted = doc.accepted ∧
    (doc.endAuthor begun).operations = doc.operations := by
  cases begun <;> exact ⟨rfl, rfl, rfl⟩

/-- What `finish` relies on in the steps that type the text again. -/
def Retyped (fault : Option ℕ) (doc : StreamedDoc) (streamed : Text) : Bool × StreamedDoc → Prop
  | (true, last) => last.guarded = doc.guarded ∧ Spent fault last
  | (false, last) =>
    last.guarded = doc.guarded ∧ last.recordChanges = true ∧ last.accepted = streamed

/-- **One tracked change.** Whichever operation raises, the streamed text stays
and the recording of changes is what it was before the session. -/
theorem collapse_finished {retype : StreamedDoc → Bool × StreamedDoc}
    (noAuthor : doc.agentAuthor = false)
    (typing : ∀ doc : StreamedDoc, doc.recordChanges = true →
      doc.accepted = session.originalText → Retyped fault doc streamed (retype doc)) :
    Finished session doc streamed (collapse fault session doc streamed retype) := by
  have setUp := @guarded_reviewSetup fault session doc noAuthor
  unfold collapse
  generalize reviewSetup fault session doc = prepared at setUp ⊢
  obtain ⟨⟨snapshot, begun⟩, ready⟩ := prepared
  dsimp only at setUp ⊢
  rw [guarded_endAuthor] at setUp
  have kept : ∀ {later : StreamedDoc}, later.guarded = ready.guarded →
      Spent fault later → Finished session doc streamed
        (keepStreamed fault session (later.endAuthor begun) streamed) := by
    intro later same spent
    have ended : (later.endAuthor begun).guarded = doc.guarded := by
      rw [guarded_endAuthor, same, setUp]
    obtain ⟨n, isFault, before⟩ := spent
    have still : Spent fault (later.endAuthor begun) :=
      ⟨n, isFault, by rw [endAuthor_frame.2.2]; exact before⟩
    obtain ⟨recording, guarded, text⟩ := keepStreamed_finished still
    exact ⟨recording, guarded.trans ended, text⟩
  refine attempt_elim fault ready (setString session.originalText) (kept rfl) ?_
  dsimp only
  generalize retyping : (setString session.originalText ready.next).record true = before
  have typed := typing before (by rw [← retyping]; rfl)
    (by rw [← retyping]; exact accepted_setString _ _)
  have still : before.guarded = ready.guarded := by
    rw [← retyping]
    rfl
  generalize retype before = result at typed ⊢
  obtain ⟨_ | _, result⟩ := result
  · obtain ⟨same, recording, text⟩ := typed
    rw [still] at same
    have tagged : ∀ last, Finished session doc streamed last → Finished session doc streamed
          (if snapshot then (last.attempt fault id).2 else last) := by
      intro last ⟨recording, guarded, accepted⟩
      rw [attempt_id]
      split <;> exact ⟨recording, guarded, accepted⟩
    refine tagged _ ⟨?_, Eq.trans ?_ setUp, Eq.trans ?_ text⟩
    · split
      · next was => rw [endAuthor_frame.1, recording, was]
      · next was => exact (eq_false_of_ne_true was).symm
    · rw [← same, ← guarded_endAuthor]
      split <;> rfl
    · split <;> exact endAuthor_frame.2.1
  · exact kept (typed.1.trans still) typed.2

theorem retyped_setString (value : Text) (recording : doc.recordChanges = true) :
    Retyped fault doc value (doc.attempt fault (setString value)) :=
  attempt_elim fault doc (setString value) (fun spent => ⟨rfl, spent⟩)
    ⟨rfl, recording, accepted_setString _ _⟩

theorem retyped_insertAtEnd (value : Text) (recording : doc.recordChanges = true) :
    Retyped fault doc (doc.accepted ++ value)
      (WriterStreamedAppendSession.insertAtEnd fault doc value) := by
  unfold WriterStreamedAppendSession.insertAtEnd
  refine attempt_elim fault doc id (fun spent => ⟨rfl, spent⟩) ?_
  show Retyped fault doc _ ((id doc.next).attempt fault (·.insertString value))
  exact attempt_elim fault (id doc.next) (·.insertString value)
    (fun spent => ⟨rfl, spent⟩) ⟨rfl, recording, accepted_insertString _ _⟩

/-- The chunks that are not empty; each is one text operation. -/
def shownChunks (chunks : List Text) : ℕ := chunks.countP (!·.isEmpty)

/-- The operation at fault is the one that shows the last chunk. -/
def LosesLast (fault : Option ℕ) (first : ℕ) (chunks : List Text) : Prop :=
  ∃ n, shownChunks chunks = n + 1 ∧ fault = some (first + n)

/-- The state when the chunks have come, from a start with the text `front`. -/
structure Streamed (fault : Option ℕ) (front : Text) (session : StreamedSession)
    (doc : StreamedDoc) (chunks : List Text) (after : StreamedSession × StreamedDoc) :
    Prop where
  session : after.1 = { session with generatedText := chunks.flatten }
  guarded : after.2.guarded = doc.guarded
  recordChanges : after.2.recordChanges = false
  operations : after.2.operations = doc.operations + shownChunks chunks
  text : ¬LosesLast fault doc.operations chunks → after.2.accepted = front ++ chunks.flatten
  lost : LosesLast fault doc.operations chunks →
    after.2.accepted.length < (front ++ chunks.flatten).length

theorem streamed_chunks (unrecorded : doc.recordChanges = false) (shows : doc.accepted = front)
    (fresh : session.generatedText = []) (chunks : List Text) :
    Streamed fault front session doc chunks
      (chunks.foldl (appendChunk fault front) (session, doc)) := by
  induction chunks using List.reverseRecOn with
  | nil =>
    refine ⟨?_, rfl, unrecorded, rfl, fun _ => ?_, ?_⟩
    · rw [foldl_nil, flatten_nil, ← fresh]
    · rw [flatten_nil, append_nil]
      exact shows
    · rintro ⟨n, none, -⟩
      cases none
  | append_singleton chunks last ih =>
    rw [foldl_append, foldl_cons, foldl_nil]
    generalize chunks.foldl (appendChunk fault front) (session, doc) = before at ih ⊢
    cases empty : last.isEmpty with
    | true =>
      have same : (chunks ++ [last]).flatten = chunks.flatten := by simp [isEmpty_iff.mp empty]
      have shown : shownChunks (chunks ++ [last]) = shownChunks chunks := by
        simp [shownChunks, countP_append, empty]
      rw [appendChunk, if_pos empty]
      refine ⟨?_, ih.guarded, ih.recordChanges, ?_, ?_, ?_⟩
      · rw [same]
        exact ih.session
      · rw [shown]
        exact ih.operations
      · rw [LosesLast, shown, same]
        exact ih.text
      · rw [LosesLast, shown, same]
        exact ih.lost
    | false =>
      have same : (chunks ++ [last]).flatten = chunks.flatten ++ last := by simp
      have shown : shownChunks (chunks ++ [last]) = shownChunks chunks + 1 := by
        simp [shownChunks, countP_append, empty]
      have loses : LosesLast fault doc.operations (chunks ++ [last]) ↔
          fault = some before.2.operations := by
        rw [LosesLast, shown, ih.operations]
        constructor
        · rintro ⟨n, count, isFault⟩
          rw [isFault, Nat.succ.inj count]
        · exact fun isFault => ⟨_, rfl, isFault⟩
      rw [appendChunk, if_neg (by rw [empty]; nofun), ih.session]
      dsimp only
      refine ⟨by rw [same], ?_, ?_, ?_, ?_, ?_⟩
      · refine Eq.trans (guarded_attempt ?_) ih.guarded
        exact fun _ => rfl
      · exact attempt_elim fault before.2 (setString (front ++ (chunks.flatten ++ last)))
          (fun _ => ih.recordChanges) ih.recordChanges
      · rw [shown, ← Nat.add_assoc, ← ih.operations]
        exact attempt_elim fault before.2 _ (fun _ => rfl) rfl
      · intro kept
        rw [loses] at kept
        rw [attempt, if_neg kept, same]
        exact accepted_setString _ _
      · intro lost
        rw [loses] at lost
        rw [attempt, if_pos lost, same, ← append_assoc, length_append]
        have before_kept : before.2.accepted = front ++ chunks.flatten := by
          apply ih.text
          rintro ⟨n, count, isFault⟩
          rw [isFault, ih.operations, count] at lost
          exact absurd (Option.some.inj lost) (by omega)
        have some_last : 0 < last.length :=
          length_pos_iff.mpr fun none => by rw [none] at empty; cases empty
        have shorter : before.2.accepted.length <
            (front ++ chunks.flatten).length + last.length := by
          rw [before_kept]
          omega
        exact shorter

def KeepsRewrite (fault : Option ℕ) (recorded : Bool) (original : Text)
    (chunks : List Text) : StreamEnding → Prop
  | .finish => recorded = true ∨ ¬LosesLast fault 1 chunks
  | .abortAndRestore => fault ≠ some (1 + shownChunks chunks) ∨ chunks.flatten = original

theorem restored_closeUndo {recordChanges opensUndo : Bool}
    (recording : doc.recordChanges = recordChanges)
    (guarded : doc.guarded = (opensUndo.toNat, 0, false)) :
    Restored recordChanges opensUndo (doc.closeUndo opensUndo) := by
  obtain ⟨entered, left, author⟩ := Prod.mk.inj guarded |>.imp id Prod.mk.inj
  exact ⟨recording, entered, by rw [closeUndo, left, Nat.zero_add], author⟩

theorem restored_rerecord {recordChanges opensUndo : Bool} (unrecorded : doc.recordChanges = false)
    (guarded : doc.guarded = (opensUndo.toNat, 0, false)) :
    Restored recordChanges opensUndo
      ((if recordChanges then doc.record true else doc).closeUndo opensUndo) := by
  split
  · next was => exact restored_closeUndo was.symm guarded
  · next was => exact restored_closeUndo (by rw [unrecorded, eq_false_of_ne_true was]) guarded

theorem not_losesLast_of_later {first : ℕ} {chunks : List Text}
    (isFault : fault = some (first + shownChunks chunks)) : ¬LosesLast fault first chunks := by
  rintro ⟨n, count, earlier⟩
  rw [earlier, count] at isFault
  exact absurd (Option.some.inj isFault) (by omega)

theorem not_losesLast_of_silent {first : ℕ} {chunks : List Text}
    (silent : chunks.flatten = []) : ¬LosesLast fault first chunks := by
  rintro ⟨n, count, -⟩
  have none : shownChunks chunks = 0 := by
    rw [shownChunks, countP_eq_zero]
    intro chunk mem
    simp [flatten_eq_nil_iff.mp silent chunk mem]
  rw [none] at count
  cases count

section Endings

variable {recordChanges opensUndo trackReviewable : Bool} {original : Text}
  {chunks : List Text} {after : StreamedSession × StreamedDoc}

/-- Without a tracked change to make, the text is the one that was streamed. -/
theorem Streamed.accepted_iff (streamed : Streamed fault front session doc chunks after) :
    after.2.accepted = front ++ chunks.flatten ↔ ¬LosesLast fault doc.operations chunks := by
  constructor
  · intro whole lost
    have shorter := streamed.lost lost
    rw [whole] at shorter
    exact lt_irrefl _ shorter
  · exact streamed.text

/-- The steps both kinds of `finish` share, with a change to make or without. -/
theorem Streamed.finish_iff {retype : StreamedDoc → Bool × StreamedDoc}
    (guarded : doc.guarded = (opensUndo.toNat, 0, false))
    (streamed : Streamed fault front
      ⟨original, [], recordChanges, trackReviewable, opensUndo⟩ doc chunks after)
    (typing : ∀ doc : StreamedDoc, doc.recordChanges = true → doc.accepted = original →
      Retyped fault doc (front ++ chunks.flatten) (retype doc)) :
    let last := (if recordChanges || trackReviewable then
        collapse fault ⟨original, chunks.flatten, recordChanges, trackReviewable, opensUndo⟩
          after.2 (front ++ chunks.flatten) retype
      else after.2).closeUndo opensUndo
    (Restored recordChanges opensUndo last ∧ last.accepted = front ++ chunks.flatten) ↔
      (recordChanges || trackReviewable) = true ∨ ¬LosesLast fault doc.operations chunks := by
  have isGuarded := streamed.guarded.trans guarded
  cases recorded : recordChanges || trackReviewable with
  | true =>
    rw [if_pos rfl]
    obtain ⟨recording, kept, text⟩ := @collapse_finished fault
      ⟨original, chunks.flatten, recordChanges, trackReviewable, opensUndo⟩ after.2
      (front ++ chunks.flatten) retype (congrArg (·.2.2) isGuarded) typing
    exact iff_of_true ⟨restored_closeUndo recording (kept.trans isGuarded), text⟩ (.inl rfl)
  | false =>
    rw [if_neg Bool.false_ne_true]
    have off : recordChanges = false := (Bool.or_eq_false_iff.mp recorded).1
    have restored : Restored recordChanges opensUndo (after.2.closeUndo opensUndo) :=
      restored_closeUndo (by rw [off]; exact streamed.recordChanges) isGuarded
    exact ((and_iff_right restored).trans streamed.accepted_iff).trans (by simp)

theorem rewriteFinish_iff
    (guarded : doc.guarded = (opensUndo.toNat, 0, false)) (first : doc.operations = 1)
    (streamed : Streamed fault [] ⟨original, [], recordChanges, trackReviewable, opensUndo⟩
      doc chunks after) :
    let last := WriterStreamedRewriteSession.finish fault after.1 after.2
    (Restored recordChanges opensUndo last ∧ last.accepted = chunks.flatten) ↔
      KeepsRewrite fault (recordChanges || trackReviewable) original chunks .finish := by
  unfold WriterStreamedRewriteSession.finish
  rw [streamed.session, KeepsRewrite, ← first]
  exact streamed.finish_iff guarded fun _ recording _ => retyped_setString _ recording

theorem rewriteAbort_iff
    (guarded : doc.guarded = (opensUndo.toNat, 0, false)) (first : doc.operations = 1)
    (streamed : Streamed fault [] ⟨original, [], recordChanges, trackReviewable, opensUndo⟩
      doc chunks after) (recorded : Bool) :
    let last := WriterStreamedRewriteSession.abortAndRestore fault after.1 after.2
    (Restored recordChanges opensUndo last ∧ last.accepted = original) ↔
      KeepsRewrite fault recorded original chunks .abortAndRestore := by
  have off : (if recordChanges then after.2.record false else after.2) = after.2 := by
    split
    · rw [record, ← streamed.recordChanges]
    · rfl
  have text : ∀ shown : StreamedDoc,
      ((if recordChanges then shown.record true else shown).closeUndo opensUndo).accepted =
        shown.accepted := by
    intro shown
    split <;> rfl
  have isGuarded := streamed.guarded.trans guarded
  have count := streamed.operations
  rw [first] at count
  unfold WriterStreamedRewriteSession.abortAndRestore
  rw [streamed.session]
  dsimp only
  rw [off, KeepsRewrite, text, attempt, count]
  by_cases isFault : fault = some (1 + shownChunks chunks)
  · have whole := streamed.text (not_losesLast_of_later (first ▸ isFault))
    rw [nil_append] at whole
    rw [if_pos isFault]
    refine (and_iff_right ?_).trans ((Iff.of_eq ?_).trans (or_iff_right (not_not.mpr isFault)).symm)
    · exact restored_rerecord streamed.recordChanges isGuarded
    · rw [← whole]
      rfl
  · rw [if_neg isFault]
    exact iff_of_true ⟨restored_rerecord streamed.recordChanges isGuarded,
      accepted_setString _ _⟩ (.inl isFault)

theorem appendFinish_iff
    (guarded : doc.guarded = (opensUndo.toNat, 0, false)) (first : doc.operations = 0)
    (streamed : Streamed fault original
      ⟨original, [], recordChanges, trackReviewable, opensUndo⟩ doc chunks after) :
    let last := WriterStreamedAppendSession.finish fault after.1 after.2
    (Restored recordChanges opensUndo last ∧ last.accepted = original ++ chunks.flatten) ↔
      (recordChanges || trackReviewable) = true ∨ ¬LosesLast fault 0 chunks := by
  have isGuarded := streamed.guarded.trans guarded
  have text := streamed.accepted_iff
  rw [first] at text
  unfold WriterStreamedAppendSession.finish
  rw [streamed.session]
  dsimp only
  by_cases silent : chunks.flatten.isEmpty = true
  · have kept := @not_losesLast_of_silent fault 0 _ (isEmpty_iff.mp silent)
    rw [if_pos silent]
    refine iff_of_true
      ⟨restored_rerecord streamed.recordChanges isGuarded, Eq.trans ?_ (text.mpr kept)⟩
      (.inr kept)
    split <;> rfl
  · rw [if_neg silent, ← first]
    exact streamed.finish_iff guarded fun _ recording text =>
      text ▸ retyped_insertAtEnd _ recording

end Endings

def KeepsAppend (fault : Option ℕ) (recorded : Bool) (chunks : List Text)
    (ending : StreamEnding) : Prop :=
  ending = .finish → recorded = true ∨ ¬LosesLast fault 0 chunks

section Sessions

variable (fault : Option ℕ) (recordChanges opensUndo trackReviewable : Bool)
  (original : Text) (chunks : List Text) (ending : StreamEnding)

theorem start_recordChanges :
    (StreamedDoc.start recordChanges original).recordChanges = recordChanges :=
  rfl

/-- What both constructors make of the range before they touch its text. -/
theorem start_unrecorded : ∃ doc, (if recordChanges then
        ((StreamedDoc.start recordChanges original).enterUndo opensUndo).record false
      else (StreamedDoc.start recordChanges original).enterUndo opensUndo) = doc ∧
      doc.recordChanges = false ∧ doc.guarded = (opensUndo.toNat, 0, false) ∧
        doc.operations = 0 ∧ doc.accepted = original := by
  refine ⟨_, rfl, ?_⟩
  cases recordChanges <;>
    exact ⟨rfl, Prod.ext (Nat.zero_add _) rfl, rfl, accepted_plain original⟩

theorem rewriteMeets_iff :
    RewriteMeets fault recordChanges opensUndo trackReviewable original chunks ending ↔
      KeepsRewrite fault (recordChanges || trackReviewable) original chunks ending := by
  obtain ⟨doc, started, unrecorded, guarded, first, -⟩ :=
    start_unrecorded recordChanges opensUndo original
  unfold RewriteMeets WriterStreamedRewriteSession.run WriterStreamedRewriteSession.init
  dsimp only
  rw [start_recordChanges, started]
  refine attempt_elim fault doc (setString []) (fun spent => ?_) ?_
  · refine iff_of_true ⟨restored_rerecord unrecorded guarded, nofun⟩ ?_
    obtain ⟨n, isFault, before⟩ := spent
    cases isFault
    have early : n < doc.operations + 1 := before
    rw [first] at early
    cases ending with
    | finish =>
      refine .inr ?_
      rintro ⟨k, -, same⟩
      exact absurd (Option.some.inj same) (by omega)
    | abortAndRestore => exact .inl fun same => absurd (Option.some.inj same) (by omega)
  · dsimp only
    generalize emptied : setString [] doc.next = cleared
    have blank : cleared.recordChanges = false ∧
        cleared.guarded = (opensUndo.toNat, 0, false) ∧ cleared.operations = 1 ∧
          cleared.accepted = [] := by
      rw [← emptied]
      exact ⟨unrecorded, guarded, congrArg (· + 1) first, accepted_setString _ _⟩
    obtain ⟨unrecorded, guarded, first, shows⟩ := blank
    have streamed := @streamed_chunks fault
      ⟨original, [], recordChanges, trackReviewable, opensUndo⟩ cleared [] unrecorded shows
      rfl chunks
    cases ending with
    | finish =>
      exact (and_congr_right' (imp_iff_right rfl)).trans (rewriteFinish_iff guarded first streamed)
    | abortAndRestore =>
      exact (and_congr_right' (imp_iff_right rfl)).trans (rewriteAbort_iff guarded first streamed _)

theorem appendMeets_iff :
    AppendMeets fault recordChanges opensUndo trackReviewable original chunks ending ↔
      KeepsAppend fault (recordChanges || trackReviewable) chunks ending := by
  obtain ⟨doc, started, unrecorded, guarded, first, shows⟩ :=
    start_unrecorded recordChanges opensUndo original
  have streamed := @streamed_chunks fault
    ⟨original, [], recordChanges, trackReviewable, opensUndo⟩ doc original unrecorded shows
    rfl chunks
  unfold AppendMeets WriterStreamedAppendSession.run WriterStreamedAppendSession.init
  dsimp only
  rw [start_recordChanges, started]
  cases ending with
  | finish =>
    rw [KeepsAppend, imp_iff_right rfl, imp_iff_right rfl]
    exact appendFinish_iff guarded first streamed
  | abortAndRestore =>
    refine iff_of_true ⟨?_, nofun⟩ nofun
    rw [WriterStreamedAppendSession.abortAndRestore, streamed.session]
    exact restored_closeUndo rfl (streamed.guarded.trans guarded)

/-- **Streamed edits.** The state of the user comes back on every path; the text
is the one asked for exactly when the operation at fault is not the showing of the
last chunk without a tracked change, nor the one by which an abort restores. -/
theorem streamedSessions_iff :
    (RewriteMeets fault recordChanges opensUndo trackReviewable original chunks ending ↔
        KeepsRewrite fault (recordChanges || trackReviewable) original chunks ending) ∧
      (AppendMeets fault recordChanges opensUndo trackReviewable original chunks ending ↔
        KeepsAppend fault (recordChanges || trackReviewable) chunks ending) :=
  ⟨rewriteMeets_iff .., appendMeets_iff ..⟩

end Sessions

/-- The only chunk is lost. -/
theorem appendMeets_lost : ¬AppendMeets (some 0) false true false ['a'] [['b']] .finish := by
  rintro ⟨-, text⟩
  exact absurd (text rfl) (by decide)

end WriterAgent.Writer
