import WriterAgent.Writer.Review.SurgicalText
import WriterAgent.Writer.Review.TaggedEdits

/-!
# Atomicity of surgical edits

Inside of the context, what an edit does to the text is on the undo stack, and
what it registers is behind the changes from before.
-/

namespace WriterAgent.Writer

open PyText List

namespace ReviewSession

theorem created_self (session : ReviewSession) : session.created session.redlines = [] := by
  rw [created, filter_eq_nil_iff]
  intro redline member
  have known := mem_map_of_mem (f := SessionRedline.identifier) member
  simpa using known

theorem recordMutation_of_redlines {session : ReviewSession}
    {call : MutationCall} (same : call.edit = session.redlines) :
    session.recordMutation call = session.edited session.redlines := by
  rcases session.recordMutation_cases call with only | ⟨-, tagged⟩
  · rw [only, same]
  · rw [tagged, same, created_self, isEmpty_nil, if_pos rfl]

/-- A new change comes with the anchor that it names; an anchor without a change
comes of an insertion that raises behind its effect. -/
def Registers (session : ReviewSession) (call : MutationCall) (next : ReviewSession) : Prop :=
  next.changes = session.changes ∧ (call.faults.insertion ≠ .doneAndRaised →
        next.bookmarks = session.bookmarks) ∨
    ∃ change : RecordedEdit, change.record.bookmark =
          bookmarkName session.session session.changes.length ∧
        next.changes = session.changes ++ [change] ∧
        next.bookmarks = change.record.bookmark :: session.bookmarks

theorem anchorChange_registers (tagged : ReviewSession) (call : MutationCall) (count : ℕ) :
    (tagged.anchorChange call count).session = tagged.session ∧
      (tagged.anchorChange call count).active = tagged.active ∧
      tagged.Registers call (tagged.anchorChange call count) := by
  unfold anchorChange
  split
  · exact ⟨rfl, rfl, .inl ⟨rfl, fun _ => rfl⟩⟩
  · split
    · exact ⟨rfl, rfl, .inl ⟨rfl, fun _ => rfl⟩⟩
    · cases insertion : call.faults.insertion with
      | done => exact ⟨rfl, rfl, .inr ⟨_, rfl, rfl, rfl⟩⟩
      | raised => exact ⟨rfl, rfl, .inl ⟨rfl, fun _ => rfl⟩⟩
      | doneAndRaised => exact ⟨rfl, rfl, .inl ⟨rfl, fun quiet => absurd insertion quiet⟩⟩

/-- **Registering.** What a call adds to the changes and the anchors. -/
theorem recordMutation_registers (session : ReviewSession) (call : MutationCall) :
    (session.recordMutation call).session = session.session ∧
      (session.recordMutation call).active = session.active ∧
      session.Registers call (session.recordMutation call) ∧
      (session.active = false → (session.recordMutation call).changes = session.changes) := by
  have nothing : ∀ redlines, session.Registers call (session.edited redlines) :=
    fun _ => .inl ⟨rfl, fun _ => rfl⟩
  rcases session.recordMutation_cases call with only | ⟨tags, tagged⟩
  · rw [only]
    exact ⟨rfl, rfl, nothing _, fun _ => rfl⟩
  · have kept : (session.recordMutation call).session = session.session ∧
        (session.recordMutation call).active = session.active ∧
        session.Registers call (session.recordMutation call) := by
      rw [tagged]
      split
      · exact ⟨rfl, rfl, nothing _⟩
      · dsimp only
        split
        · exact ⟨rfl, rfl, nothing _⟩
        · exact anchorChange_registers (session.edited _) call _
    refine ⟨kept.1, kept.2.1, kept.2.2, fun inactive => ?_⟩
    rw [tags.1] at inactive
    cases inactive

end ReviewSession

variable {faults : EditFaults}

namespace SurgicalDocument

structure AsBefore (start doc : SurgicalDocument) : Prop where
  block : doc.block = start.block
  redlines : doc.session.redlines = start.session.redlines
  changes : doc.session.changes = start.session.changes

/-- A document inside of the context that was entered at the start, with the
changes registered since.  The anchors are told under the condition that no
insertion raises behind its effect. -/
structure Within (start doc : SurgicalDocument) (title : Text)
    (added : List RecordedEdit) (noStray : Prop) : Prop where
  guards : doc.undo.Guards start.undo title
    ⟨start.block, start.session.redlines⟩ (start.AsBefore doc)
  session : doc.session.session = start.session.session
  active : doc.session.active = start.session.active
  registers : added ≠ [] → start.session.active = true
  changes : doc.session.changes = start.session.changes ++ added
  named : ∀ change ∈ added, ∃ index ≥ start.session.changes.length,
    change.record.bookmark = bookmarkName start.session.session index
  anchors : noStray → doc.session.bookmarks =
    (added.map (·.record.bookmark)).reverse ++ start.session.bookmarks
  loose : noStray → ∀ name ∈ doc.looseAnchors, name ∈ added.map (·.record.bookmark)

variable {start doc : SurgicalDocument} {title : Text} {added : List RecordedEdit} {noStray : Prop}

def entered (doc : SurgicalDocument) : SurgicalDocument :=
  { doc with
    undo := doc.undo.enterUndoContext (surgicalUndoTitle doc.batches)
      ⟨doc.block, doc.session.redlines⟩
    looseAnchors := []
    batches := doc.batches + 1
    events := doc.events ++ [.entered (surgicalUndoTitle doc.batches)] }

theorem Within.enter (noneOpen : doc.undo.opened = [])
    (unlocked : doc.undo.locked = false) (noStray : Prop) :
    doc.Within doc.entered (surgicalUndoTitle doc.batches) [] noStray where
  guards := UndoManager.guards_enterUndoContext noneOpen unlocked ⟨rfl, rfl, rfl⟩
  session := rfl
  active := rfl
  registers := nofun
  changes := (append_nil _).symm
  named := nofun
  anchors := fun _ => rfl
  loose := fun _ => nofun

theorem Within.log (within : start.Within doc title added noStray) (event : SurgicalEvent) :
    start.Within (doc.log event) title added noStray :=
  { within with guards := within.guards.imp fun same => ⟨same.1, same.2, same.3⟩ }

theorem Within.recordEdit (within : start.Within doc title added noStray) (quiet : noStray →
      faults.mutation.insertion ≠ .doneAndRaised) (replacement : Replacement)
    (original proposed : Text) :
    ∃ more, start.Within (doc.recordEdit faults replacement original proposed).1 title more
        noStray := by
  obtain ⟨sameSession, sameActive, registers, inactive⟩ :=
    doc.session.recordMutation_registers (faults.call replacement original proposed)
  have guards : (doc.recordEdit faults replacement original
      proposed).1.undo.Guards start.undo title ⟨start.block, start.session.redlines⟩
        (start.AsBefore (doc.recordEdit faults replacement original proposed).1) := by
    apply UndoManager.Guards.lockIf
    split
    · rename_i same
      have edited := @ReviewSession.recordMutation_of_redlines doc.session
        (faults.call replacement original proposed)
        (congrArg EditedText.redlines same)
      apply within.guards.imp
      intro before
      refine ⟨?_, ?_, ?_⟩
      · exact (congrArg EditedText.block same).trans before.block
      · exact (congrArg ReviewSession.redlines edited).trans before.redlines
      · exact (congrArg ReviewSession.changes edited).trans before.changes
    · exact within.guards.record _ _ _
  have loose : ∀ names : List Text, (noStray → (doc.session.recordMutation
        (faults.call replacement original proposed)).bookmarks = names ++ doc.session.bookmarks) →
      noStray → ∀ name ∈ (doc.recordEdit faults replacement original
        proposed).1.looseAnchors, name ∈ names ∨ name ∈ added.map (·.record.bookmark) := by
    intro names bookmarks holds name member
    simp only [SurgicalDocument.recordEdit, bookmarks holds] at member
    split at member
    · rw [length_append, Nat.add_sub_cancel, take_left, mem_append] at member
      exact member.imp_right (within.loose holds name)
    · exact .inr (within.loose holds name member)
  rcases registers with ⟨sameChanges, sameBookmarks⟩ | ⟨change, name, newChanges, newBookmarks⟩
  · refine ⟨added, guards, sameSession.trans within.session,
      sameActive.trans within.active, within.registers,
      sameChanges.trans within.changes, within.named, fun holds => ?_,
      fun holds looseName member => ?_⟩
    · exact (sameBookmarks (quiet holds)).trans (within.anchors holds)
    · rcases loose [] (fun holds => sameBookmarks (quiet holds)) holds looseName
        member with impossible | earlier
      · cases impossible
      · exact earlier
  · refine ⟨added ++ [change], guards, sameSession.trans within.session,
      sameActive.trans within.active, fun _ => ?_, ?_, ?_, fun holds => ?_,
      fun holds looseName member => ?_⟩
    · by_contra notActive
      rw [Bool.not_eq_true] at notActive
      have none := inactive (within.active.trans notActive)
      rw [newChanges] at none
      exact cons_ne_nil _ _ (append_right_eq_self.mp none)
    · rw [← append_assoc, ← within.changes]
      exact newChanges
    · intro other member
      rcases mem_append.mp member with earlier | last
      · exact within.named other earlier
      · rw [mem_singleton] at last
        subst last
        refine ⟨doc.session.changes.length, ?_, ?_⟩
        · rw [within.changes, length_append]
          exact Nat.le_add_right _ _
        · rw [name, within.session]
    · rw [map_append, reverse_append, append_assoc, ← within.anchors holds]
      exact newBookmarks
    · rw [map_append, mem_append, or_comm]
      exact loose [change.record.bookmark] (fun _ => newBookmarks) holds looseName member

theorem Within.applySubEdit (within : start.Within doc title added noStray) (quiet : noStray →
      faults.mutation.insertion ≠ .doneAndRaised) (e : SubEdit) :
    ∃ more, start.Within (doc.applySubEdit faults e).1 title more noStray := by
  unfold SurgicalDocument.applySubEdit
  split
  · exact (within.log _).recordEdit quiet _ _ _
  · exact within.recordEdit quiet _ _ _

theorem Within.applyBatch {faults : ℕ → EditFaults} (quiet : noStray →
      ∀ index, (faults index).mutation.insertion ≠ .doneAndRaised)
    (queue : List SubEdit) :
    ∀ {index : ℕ} {doc : SurgicalDocument} {added : List RecordedEdit},
      start.Within doc title added noStray →
        ∃ more, start.Within (applyBatch faults index doc queue).1 title more
          noStray := by
  induction queue with
  | nil => exact fun within => ⟨_, within⟩
  | cons e rest ih =>
    intro index doc added within
    obtain ⟨more, next⟩ := within.applySubEdit (fun holds => quiet holds index) e
    rw [SurgicalDocument.applyBatch]
    split
    · exact ⟨more, next⟩
    · exact ih next

theorem applySubEdit_cases (doc : SurgicalDocument) (faults : EditFaults) (e : SubEdit) :
    ((doc.applySubEdit faults e).2 = true ∧ (doc.applySubEdit faults e).1.events = doc.events) ∨
      (doc.applySubEdit faults e).1.events = doc.events ++ [.replaced e] ∧
        (doc.applySubEdit faults e).1.block =
          (replacePreservingFormat faults.replace true doc.session.redlines
            (doc.block.take e.oldStart) (slice doc.block e.oldStart e.oldEnd)
            (doc.block.drop e.oldEnd) e.newText).after.block ∧
        (doc.applySubEdit faults e).2 =
          (replacePreservingFormat faults.replace true doc.session.redlines
            (doc.block.take e.oldStart) (slice doc.block e.oldStart e.oldEnd)
            (doc.block.drop e.oldEnd) e.newText).raised := by
  unfold SurgicalDocument.applySubEdit
  split
  · exact .inr ⟨rfl, rfl, rfl⟩
  · exact .inl ⟨rfl, rfl⟩

theorem applyBatch_events (faults : ℕ → EditFaults) (queue : List SubEdit) :
    ∀ (index : ℕ) (doc : SurgicalDocument), ∃ reached, reached <+: queue ∧
      (applyBatch faults index doc queue).1.events =
        doc.events ++ reached.map .replaced ∧
      ((applyBatch faults index doc queue).2 = false → reached = queue) := by
  induction queue with
  | nil => exact fun _ doc => ⟨[], nil_prefix, (append_nil _).symm, fun _ => rfl⟩
  | cons e rest ih =>
    intro index doc
    rw [SurgicalDocument.applyBatch]
    rcases doc.applySubEdit_cases (faults index) e with
      ⟨raised, events⟩ | ⟨events, -, -⟩
    · simp only [raised, if_true]
      exact ⟨[], nil_prefix, events.trans (append_nil _).symm, nofun⟩
    · split
      · exact ⟨[e], prefix_iff_eq_append.mpr rfl, events, nofun⟩
      · obtain ⟨reached, first, later, all⟩ :=
          ih (index + 1) (doc.applySubEdit (faults index) e).1
        refine ⟨e :: reached, prefix_cons_inj e |>.mpr first, ?_, ?_⟩
        · rw [later, events, append_assoc]
          rfl
        · exact fun success => congrArg (e :: ·) (all success)

theorem applySubEdit_edited {old : Text} {later : List SubEdit} {e : SubEdit}
    (edited : EditedFrom old 0 later doc.block) (wellFormed : e.WellFormed old)
    (behind : ∀ other ∈ later, e.oldEnd ≤ other.oldStart)
    (success : (doc.applySubEdit faults e).2 = false) :
    EditedFrom old 0 (e :: later) (doc.applySubEdit faults e).1.block := by
  obtain ⟨front, piece, back⟩ := edited.selects wellFormed behind
  rcases doc.applySubEdit_cases faults e with ⟨raised, -⟩ | ⟨-, block, raised⟩
  · rw [raised] at success
    cases success
  · rw [raised] at success
    obtain ⟨middle, replaced, isPiece⟩ :=
      replacePreservingFormat_replaces success
    rw [block, replaced, front]
    apply EditedFrom.edited _ back
    rw [piece, BlockText.shown_plain] at isPiece
    exact isPiece

/-- **From right to left.** When nothing raises, every sub-edit is applied once,
at its own offsets. -/
theorem applyBatch_edited {old : Text} {faults : ℕ → EditFaults} (queue : List SubEdit) :
    ∀ {index : ℕ} {doc : SurgicalDocument} {later : List SubEdit},
      EditedFrom old 0 later doc.block →
      (∀ e ∈ queue, e.WellFormed old) →
      ((queue.reverse ++ later).Pairwise fun left right =>
        left.oldEnd ≤ right.oldStart) →
      (applyBatch faults index doc queue).2 = false → EditedFrom old 0 (queue.reverse ++ later)
          (applyBatch faults index doc queue).1.block := by
  induction queue with
  | nil => exact fun edited _ _ _ => edited
  | cons e rest ih =>
    intro index doc later edited wellFormed ordered success
    rw [forall_mem_cons] at wellFormed
    rw [reverse_cons, append_assoc] at ordered ⊢
    have behind : ∀ other ∈ later, e.oldEnd ≤ other.oldStart :=
      (pairwise_cons.mp (pairwise_append.mp ordered).2.1).1
    rw [SurgicalDocument.applyBatch] at success ⊢
    split
    · rename_i raised
      rw [if_pos raised] at success
      cases success
    · rename_i quiet
      rw [if_neg quiet] at success
      rw [Bool.not_eq_true] at quiet
      exact ih (applySubEdit_edited edited wellFormed.1 behind quiet) wellFormed.2 ordered success

/-- Nothing goes wrong with the anchors when they are taken back. -/
structure AnchorsGo (start : SurgicalDocument) (faults : CloseFaults) : Prop where
  bookmarks : faults.bookmarks = false
  anchor : ∀ name, faults.anchor name = false
  fresh : ∀ index ≥ start.session.changes.length,
    bookmarkName start.session.session index ∉ start.session.bookmarks

theorem removeAnchorBookmarks_eq {faults : CloseFaults} (reads : faults.bookmarks = false)
    (removes : ∀ name, faults.anchor name = false) {records : List RecordedEdit}
    (named : ∀ change ∈ records, change.record.bookmark ≠ []) (bookmarks : List Text) :
    removeAnchorBookmarks faults records bookmarks =
      bookmarks.filter (· ∉ records.map (·.record.bookmark)) := by
  rw [removeAnchorBookmarks, reads, if_neg Bool.false_ne_true]
  induction records generalizing bookmarks with
  | nil => simp
  | cons change rest ih =>
    rw [forall_mem_cons] at named
    have nonempty : change.record.bookmark.isEmpty = false := by
      rw [isEmpty_eq_false_iff]
      exact named.1
    rw [foldl_cons, nonempty, removes, Bool.or_self,
      if_neg Bool.false_ne_true, ih named.2, filter_filter]
    apply filter_congr
    intro name _
    simp only [map_cons, mem_cons, not_or, Bool.decide_and]
    rw [Bool.and_comm]

theorem bookmarkName_ne_nil (session : Text) (index : ℕ) : bookmarkName session index ≠ [] := by
  exact append_ne_nil_of_right_ne_nil _ (cons_ne_nil _ _)

theorem discardChangesSince_restores {faults : CloseFaults} {count : ℕ}
    {changes : List RecordedEdit} (session : doc.session.changes = changes ++ added)
    (length : changes.length = count) (registers : added ≠ [] → doc.session.active = true) :
    (doc.discardChangesSince faults count).session.changes = changes ∧
      (doc.discardChangesSince faults count).block = doc.block ∧
      (doc.discardChangesSince faults count).session.redlines =
        doc.session.redlines ∧
      (doc.discardChangesSince faults count).session.bookmarks =
        if added = [] then doc.session.bookmarks
        else removeAnchorBookmarks faults added doc.session.bookmarks := by
  rw [discardChangesSince]
  split
  · rename_i short
    rw [session, length_append] at short
    have none : added = [] := eq_nil_of_length_eq_zero (by omega)
    rw [none, append_nil] at session
    exact ⟨session, rfl, rfl, (if_pos none).symm⟩
  · rename_i long
    have some : added ≠ [] := by
      rintro rfl
      rw [session, append_nil, length] at long
      exact long le_rfl
    have kept : doc.session.changes.take count = changes := by rw [session, ← length, take_left]
    have dropped : doc.session.changes.drop count = added := by rw [session, ← length, drop_left]
    simp only [registers some, Bool.not_true, Bool.false_eq_true, if_false,
      kept, dropped, if_neg some, and_self]

theorem discardChangesSince_events (doc : SurgicalDocument) (faults : CloseFaults) (count : ℕ) :
    (doc.discardChangesSince faults count).events = doc.events ∧
      (doc.discardChangesSince faults count).undo.opened =
        doc.undo.opened := by
  rw [discardChangesSince]
  split
  · exact ⟨rfl, rfl⟩
  · split <;> exact ⟨rfl, rfl⟩

def undone (doc : SurgicalDocument) (before : EditedText)
    (undo : UndoManager EditedText) : SurgicalDocument :=
  { doc with
    block := before.block
    session := { doc.session with
      redlines := before.redlines
      bookmarks := doc.session.bookmarks.filter (· ∉ doc.looseAnchors) }
    undo := undo }

theorem undoBatch_cases (doc : SurgicalDocument) (faults : CloseFaults) (title : Text) :
    doc.undoBatch faults title = (doc.log .undoRaised, false) ∨
      (doc.undo.getAllUndoActionTitles.head? ≠ some title ∧
        doc.undoBatch faults title = (doc, false)) ∨
      ∃ before undo, doc.undo.getAllUndoActionTitles.head? = some title ∧
        doc.undo.undo = some (before, undo) ∧
        doc.undoBatch faults title = (doc.undone before undo, true) := by
  rw [undoBatch]
  split
  · exact .inl rfl
  · split
    · next other => exact .inr (.inl ⟨other, rfl⟩)
    · rename_i onTop
      rw [not_not] at onTop
      split
      · exact .inl rfl
      · rename_i before undo undoes
        split_ifs at undoes
        exact .inr (.inr ⟨before, undo, onTop, undoes, rfl⟩)

/-- Text, redlines, changes and, unless an anchor gets stuck, anchors. -/
structure Restored (start final : SurgicalDocument) (faults : CloseFaults)
    (noStray : Prop) : Prop where
  text : start.AsBefore final
  anchors : noStray → start.AnchorsGo faults → final.session.bookmarks = start.session.bookmarks

theorem Within.undone_restored (within : start.Within doc title added noStray)
    (faults : CloseFaults) (undo : UndoManager EditedText) :
    start.Restored ((doc.undone ⟨start.block, start.session.redlines⟩
        undo).discardChangesSince faults start.session.changes.length)
      faults noStray := by
  obtain ⟨changes, block, redlines, bookmarks⟩ :=
    @discardChangesSince_restores
      (doc.undone ⟨start.block, start.session.redlines⟩ undo) added faults
      start.session.changes.length start.session.changes within.changes rfl
      (fun some => within.active.trans (within.registers some))
  refine ⟨⟨block, redlines, changes⟩, fun holds go => ?_⟩
  have names : ∀ name ∈ added.map (·.record.bookmark), name ∉ start.session.bookmarks := by
    intro name member
    obtain ⟨change, isAdded, rfl⟩ := mem_map.mp member
    obtain ⟨index, later, isName⟩ := within.named change isAdded
    rw [isName]
    exact go.fresh index later
  have own : ∀ name ∈ start.session.bookmarks, name ∉ added.map (·.record.bookmark) :=
    fun name isOwn isAdded => names name isAdded isOwn
  have undone : (doc.undone ⟨start.block, start.session.redlines⟩
      undo).session.bookmarks = ((added.map (·.record.bookmark)).reverse.filter
          (· ∉ doc.looseAnchors)) ++ start.session.bookmarks := by
    have kept : start.session.bookmarks.filter (· ∉ doc.looseAnchors) =
        start.session.bookmarks := by
      apply filter_eq_self.mpr
      intro name isOwn
      rw [decide_eq_true_eq]
      exact fun isLoose => own name isOwn (within.loose holds name isLoose)
    rw [SurgicalDocument.undone]
    simp only [within.anchors holds, filter_append, kept]
  rw [bookmarks, undone]
  split
  · next none => rw [none, map_nil, reverse_nil, filter_nil, nil_append]
  · have named : ∀ change ∈ added, change.record.bookmark ≠ [] := by
      intro change isAdded
      obtain ⟨index, -, isName⟩ := within.named change isAdded
      rw [isName]
      exact bookmarkName_ne_nil _ _
    rw [removeAnchorBookmarks_eq go.bookmarks go.anchor named, filter_append]
    have gone : ((added.map (·.record.bookmark)).reverse.filter
        (· ∉ doc.looseAnchors)).filter (· ∉ added.map (·.record.bookmark)) = [] := by
      apply filter_eq_nil_iff.mpr
      intro name member
      rw [decide_eq_true_eq, not_not]
      exact mem_reverse.mp (mem_of_mem_filter member)
    have kept : start.session.bookmarks.filter
        (· ∉ added.map (·.record.bookmark)) = start.session.bookmarks := by
      apply filter_eq_self.mpr
      intro name isOwn
      rw [decide_eq_true_eq]
      exact own name isOwn
    rw [gone, kept, nil_append]

theorem closeSurgicalContext_success (doc : SurgicalDocument)
    (faults : CloseFaults) (count : ℕ) (title : Text) :
    (doc.closeSurgicalContext faults count true title).block = doc.block ∧
      (doc.closeSurgicalContext faults count true title).events =
        doc.events ++ [.left] := by
  rw [closeSurgicalContext]
  split <;> exact ⟨rfl, rfl⟩

theorem dropRecords_events (doc : SurgicalDocument) (faults : CloseFaults)
    (count : ℕ) (undone : Bool) :
    (doc.dropRecords faults count undone).events = doc.events ∧
      (doc.dropRecords faults count undone).undo.opened = doc.undo.opened := by
  rw [dropRecords]
  split
  · exact discardChangesSince_events doc faults count
  · exact ⟨rfl, rfl⟩

theorem undoBatch_events (doc : SurgicalDocument) (faults : CloseFaults) (title : Text) :
    (doc.undoBatch faults title).1.events = doc.events ∨
      (doc.undoBatch faults title).1.events = doc.events ++ [.undoRaised] := by
  rcases doc.undoBatch_cases faults title with
    raised | ⟨-, other⟩ | ⟨before, undo, -, -, undone⟩
  · rw [raised]
    exact .inr rfl
  · rw [other]
    exact .inl rfl
  · rw [undone]
    exact .inl rfl

theorem closeSurgicalContext_events (doc : SurgicalDocument)
    (faults : CloseFaults) (count : ℕ) (appliedOk : Bool) (title : Text) :
    (doc.closeSurgicalContext faults count appliedOk title).events =
        doc.events ++ [.left] ∨
      (doc.closeSurgicalContext faults count appliedOk title).events =
        doc.events ++ [.left] ++ [.undoRaised] := by
  rw [closeSurgicalContext]
  split
  · split
    · exact .inl rfl
    · exact .inl (dropRecords_events _ faults count false).1
  · split
    · exact .inl rfl
    · rw [(dropRecords_events _ faults count _).1]
      exact undoBatch_events _ faults title

theorem Within.restored_of_asBefore (within : start.Within doc title added noStray)
    (before : start.AsBefore doc) {faults : CloseFaults}
    {undo : UndoManager EditedText} {events : List SurgicalEvent} :
    start.Restored ({ doc with undo := undo, events := events }.dropRecords faults
        start.session.changes.length false) faults noStray := by
  have length : doc.session.changes.length = start.session.changes.length :=
    congrArg List.length before.changes
  have none : added = [] := by
    have changes := within.changes
    rw [before.changes] at changes
    exact append_right_eq_self.mp changes.symm
  have anchors := within.anchors
  rw [none] at anchors
  simp only [dropRecords, discardChangesSince, length, decide_true, Bool.or_true, if_true, le_refl]
  exact ⟨⟨before.block, before.redlines, before.changes⟩, fun holds _ => anchors holds⟩

/-- **Rolling back.** When the context is left and no undo raises, closing it
behind a failure restores the start. -/
theorem Within.rollback (within : start.Within doc title added noStray)
    (unique : title ∉ start.undo.getAllUndoActionTitles) {faults : CloseFaults}
    {final : SurgicalDocument}
    (closes : doc.closeSurgicalContext faults start.session.changes.length false title = final)
    (closed : final.undo.opened = []) (noRaise : final.events = doc.events ++ [.left]) :
    start.Restored final faults noStray := by
  subst closes
  rw [closeSurgicalContext] at closed noRaise ⊢
  cases leaves : if faults.leave then none else doc.undo.leaveUndoContext with
  | none =>
    obtain ⟨touched, opened, -⟩ := within.guards.opened
    rw [leaves] at closed
    simp only [Bool.false_eq_true, if_false, (dropRecords_events _ faults _ _).2] at closed
    have stillOpen : doc.undo.opened = [] := closed
    rw [opened] at stillOpen
    cases stillOpen
  | some undo =>
    rw [leaves] at closed noRaise
    simp only [Bool.false_eq_true, if_false] at closed noRaise ⊢
    have leaves : doc.undo.leaveUndoContext = some undo := by
      split_ifs at leaves
      exact leaves
    rw [(dropRecords_events _ faults _ _).2] at closed
    rw [(dropRecords_events _ faults _ _).1] at noRaise
    rcases undoBatch_cases { doc.log .left with undo := undo } faults title with
      raised | ⟨other, notUndone⟩ | ⟨before, rest, onTop, undoes, undone⟩
    · rw [raised] at noRaise
      have longer : doc.events ++ [SurgicalEvent.left] ++ [.undoRaised] =
        doc.events ++ [.left] := noRaise
      cases append_right_eq_self.mp longer
    · rw [notUndone] at closed ⊢
      rcases within.guards.left unique leaves closed with
        ⟨onTop, -⟩ | ⟨-, before⟩
      · exact absurd onTop other
      · exact within.restored_of_asBefore before
    · rw [undone]
      rcases within.guards.left unique leaves
          (UndoManager.opened_of_undo undoes).1 with ⟨-, returns⟩ | ⟨other, -⟩
      · cases returns before rest undoes
        exact (within.log .left).undone_restored faults rest
      · exact absurd onTop other

end SurgicalDocument

end WriterAgent.Writer
