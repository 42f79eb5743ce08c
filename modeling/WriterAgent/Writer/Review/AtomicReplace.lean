import WriterAgent.Writer.Review.SurgicalAtomicity
import WriterAgent.Writer.Review.TokenExactness

/-!
# All or nothing

Every path of `record_preserve_replace`: the whole block with or without a
context, or the sub-edits in one.
-/

namespace WriterAgent.Writer

open PyText List

def SurgicalEvent.isContext : SurgicalEvent → Bool
  | entered _ => true
  | left => true
  | _ => false

/-- What can be called, in order. -/
inductive CallEvents : List SurgicalEvent → Prop where
  | nothing : CallEvents []
  | whole : CallEvents [.replacedWhole]
  | guardedWhole (title : Text) {ended : List SurgicalEvent} :
      ended = [] ∨ ended = [.undoRaised] →
      CallEvents (.entered title :: .replacedWhole :: .left :: ended)
  | surgical (title : Text) (reached : List SubEdit)
      {ended : List SurgicalEvent} : ended = [] ∨ ended = [.undoRaised] →
      CallEvents (.entered title :: reached.map .replaced ++ .left :: ended)

variable {events : List SurgicalEvent} {result : SplitResult}

theorem CallEvents.contexts (calls : CallEvents events) :
    events.filter (·.isContext) = [] ∨ ∃ title,
      events.filter (·.isContext) = [.entered title, .left] := by
  cases calls with
  | nothing | whole => exact .inl rfl
  | guardedWhole title ended =>
    right
    rcases ended with rfl | rfl <;> exact ⟨title, rfl⟩
  | surgical title reached ended =>
    right
    have none : (reached.map SurgicalEvent.replaced).filter (·.isContext) = [] := by
      apply filter_eq_nil_iff.mpr
      intro event member
      obtain ⟨e, -, rfl⟩ := mem_map.mp member
      exact Bool.false_ne_true
    refine ⟨title, ?_⟩
    rw [cons_append, filter_cons_of_pos rfl, filter_append, none]
    rcases ended with rfl | rfl <;> rfl

theorem CallEvents.notBoth (calls : CallEvents events) {e : SubEdit}
    (member : .replaced e ∈ events) : .replacedWhole ∉ events := by
  cases calls with
  | nothing => cases member
  | whole => simp at member
  | guardedWhole title ended => rcases ended with rfl | rfl <;> simp at member
  | surgical title reached ended => rcases ended with rfl | rfl <;> simp

/-- Nothing was to be done, or the block is replaced as a whole, or every
sub-edit is applied once, from right to left and at its own offsets. -/
inductive Completed (config : SurgicalConfig) (opcodes : List Opcode)
    (newText : Text) (block final : BlockText) (events : List SurgicalEvent) :
    Prop where
  | unchanged : (∀ e, .replaced e ∉ events) → final = block →
      normalizeLinebreaks newText = normalizeLinebreaks block.shown →
      Completed config opcodes newText block final events
  | whole : .replacedWhole ∈ events → final.accepted = normalizeLinebreaks newText →
      Completed config opcodes newText block final events
  | surgical {result : SplitResult} {title : Text} :
      splitChange block.shown newText config.wordDiffThreshold opcodes = some result →
      result.mode = .surgical →
      EditedFrom block.shown 0 result.subEdits final →
      events = .entered title :: result.subEdits.reverse.map .replaced ++ [.left] →
      Completed config opcodes newText block final events

theorem Completed.reads {config : SurgicalConfig} {opcodes : List Opcode} {newText : Text}
    {block final : BlockText} (completed : Completed config opcodes newText block final events)
    (valid : ValidOpcodes block.shown newText opcodes) (oldPlain : '\r' ∉ block.shown)
    (newPlain : '\r' ∉ newText) :
    final.accepted = newText ∨ final = block ∧ block.shown = newText := by
  cases completed with
  | unchanged _ same normal =>
    right
    rw [normalizeLinebreaks_eq_self newPlain, normalizeLinebreaks_eq_self oldPlain] at normal
    exact ⟨same, normal.symm⟩
  | whole _ replaced =>
    left
    rw [replaced, normalizeLinebreaks_eq_self newPlain]
  | @surgical result _ split surgical edited _ =>
    left
    have sound := splitChange_surgical_sound valid split surgical
    have rebuilds : applyLoop block.shown 0 result.subEdits = newText := by
      rw [← sound.rebuilds, applySubEdits, sortSubEdits_eq_self (sound.ordered.imp And.left)]
    rw [edited.accepted, rebuilds]
    intro e member
    constructor
    · rw [(sound.wellFormed e member).oldTextEq]
      exact fun inOld => oldPlain (mem_of_mem_drop (mem_of_mem_take inOld))
    · intro inNew
      rw [← rebuilds] at newPlain
      exact newPlain (mem_applyLoop member inNew 0)

/-- No insertion of an anchor raises behind its effect. -/
def SurgicalFaults.NoStray (faults : SurgicalFaults) : Prop :=
  faults.whole.mutation.insertion ≠ .doneAndRaised ∧
    ∀ index, (faults.subEdit index).mutation.insertion ≠ .doneAndRaised

namespace SurgicalDocument

/-- No title of a batch to come is on the stack. -/
def FreshTitles (doc : SurgicalDocument) : Prop :=
  ∀ batch ≥ doc.batches, surgicalUndoTitle batch ∉ doc.undo.getAllUndoActionTitles

/-- What a call does: it completes, or it raises and restores the start, unless
its context stays open, an undo raises, or the whole block is replaced without a
context and unrecorded. -/
def AllOrNothing (doc : SurgicalDocument) (config : SurgicalConfig) (faults : SurgicalFaults)
    (opcodes : List Opcode) (newText : Text) (result : SurgicalDocument × Bool) : Prop :=
  ∃ events, result.1.events = doc.events ++ events ∧ CallEvents events ∧ (result.2 = false →
      Completed config opcodes newText doc.block result.1.block events) ∧
    (result.2 = true → result.1.undo.opened = [] → .undoRaised ∉ events →
      (events = [.replacedWhole] → faults.whole.replace.recording = true) →
        doc.Restored result.1 faults.close faults.NoStray)

variable {doc : SurgicalDocument} {config : SurgicalConfig}
  {faults : SurgicalFaults} {opcodes : List Opcode} {newText : Text}

theorem AsBefore.refl (doc : SurgicalDocument) : doc.AsBefore doc :=
  ⟨rfl, rfl, rfl⟩

theorem allOrNothing_raised : doc.AllOrNothing config faults opcodes newText (doc, true) :=
  ⟨[], (append_nil _).symm, .nothing, nofun, fun _ _ _ _ => ⟨.refl doc, fun _ _ => rfl⟩⟩

theorem AllOrNothing.of_batches {batches : ℕ} {result : SurgicalDocument × Bool}
    (holds : { doc with batches := batches }.AllOrNothing config faults opcodes newText result) :
    doc.AllOrNothing config faults opcodes newText result := by
  obtain ⟨events, log, calls, completes, restores⟩ := holds
  refine ⟨events, log, calls, completes, fun raised closed quiet guarded => ?_⟩
  obtain ⟨⟨block, redlines, changes⟩, anchors⟩ :=
    restores raised closed quiet guarded
  exact ⟨⟨block, redlines, changes⟩,
    fun noStray go => anchors noStray ⟨go.bookmarks, go.anchor, go.fresh⟩⟩

theorem enterContext_cases (doc : SurgicalDocument) (raises : Bool) :
    doc.enterContext raises = ({ doc with batches := doc.batches + 1 }, none) ∨
      doc.undo.locked = false ∧ doc.enterContext raises =
        (doc.entered, some (surgicalUndoTitle doc.batches)) := by
  rw [enterContext]
  split
  · exact .inl rfl
  · rename_i ready
    rw [Bool.or_eq_true, not_or, Bool.not_eq_true, Bool.not_eq_true] at ready
    exact .inr ⟨ready.2, rfl⟩

theorem allOrNothing_closed (fresh : doc.FreshTitles)
    {applied : SurgicalDocument × Bool}
    {inside : List SurgicalEvent}
    (within : ∃ added, doc.Within applied.1 (surgicalUndoTitle doc.batches) added faults.NoStray)
    (log : applied.1.events = doc.entered.events ++ inside)
    (calls : ∀ ended, ended = [] ∨ ended = [SurgicalEvent.undoRaised] → CallEvents
        (.entered (surgicalUndoTitle doc.batches) :: inside ++ .left :: ended))
    (completes : applied.2 = false → Completed config opcodes newText doc.block applied.1.block
        (.entered (surgicalUndoTitle doc.batches) :: inside ++ [.left])) :
    doc.AllOrNothing config faults opcodes newText
      (applied.1.closeSurgicalContext faults.close doc.session.changes.length
        (!applied.2) (surgicalUndoTitle doc.batches), applied.2) := by
  obtain ⟨next, raised⟩ := applied
  have logged : ∀ ended, next.events ++ .left :: ended = doc.events ++
      (.entered (surgicalUndoTitle doc.batches) :: inside ++ .left :: ended) := by
    intro ended
    rw [log, entered]
    simp
  cases raised with
  | false =>
    obtain ⟨block, events⟩ := next.closeSurgicalContext_success faults.close
      doc.session.changes.length (surgicalUndoTitle doc.batches)
    refine ⟨_, events.trans (logged []), calls [] (.inl rfl), fun _ => ?_, nofun⟩
    simp only [Bool.not_false, block]
    exact completes rfl
  | true =>
    obtain ⟨added, within⟩ := within
    rcases next.closeSurgicalContext_events faults.close
        doc.session.changes.length false (surgicalUndoTitle doc.batches) with
      events | events
    · refine ⟨_, events.trans (logged []), calls [] (.inl rfl), nofun, fun _ closed _ _ => ?_⟩
      exact within.rollback (fresh doc.batches le_rfl) rfl closed events
    · rw [append_assoc] at events
      refine ⟨_, events.trans (logged [.undoRaised]), calls _ (.inr rfl), nofun,
        fun _ _ quiet _ => ?_⟩
      simp at quiet

theorem replaceWhole_completed {edit : EditFaults} {inUndoContext : Bool}
    (success : (doc.replaceWhole edit newText inUndoContext).2 = false)
    (calls : CallEvents events) (member : .replacedWhole ∈ events) :
    Completed config opcodes newText doc.block
      (doc.replaceWhole edit newText inUndoContext).1.block events := by
  obtain ⟨middle, replaced, isMiddle⟩ :=
    replacePreservingFormat_replaces success
  rw [append_nil] at replaced
  have block : (doc.replaceWhole edit newText inUndoContext).1.block = middle :=
    replaced
  rw [block]
  rcases isMiddle with new | ⟨rfl, same⟩
  · exact .whole member new
  · exact .unchanged (fun e isReplaced => calls.notBoth isReplaced member) rfl same

theorem allOrNothing_replaceWhole :
    doc.AllOrNothing config faults opcodes newText
      (doc.replaceWhole faults.whole newText false) := by
  refine ⟨[.replacedWhole], rfl, .whole,
    fun success => replaceWhole_completed success .whole (by simp),
    fun raised _ _ recording => ?_⟩
  have untouched := replacePreservingFormat_raised (recording rfl) raised
  rw [append_nil] at untouched
  have edited := @ReviewSession.recordMutation_of_redlines doc.session
    (faults.whole.call (replacePreservingFormat faults.whole.replace false
      doc.session.redlines [] doc.block [] newText) doc.block.shown newText)
    (congrArg EditedText.redlines untouched)
  have session : (doc.replaceWhole faults.whole newText false).1.session =
    doc.session.edited doc.session.redlines := edited
  refine ⟨⟨congrArg EditedText.block untouched, ?_, ?_⟩, fun _ _ => ?_⟩
  all_goals rw [session]; rfl

theorem allOrNothing_wholeBlock (noOpen : doc.undo.opened = [])
    (fresh : doc.FreshTitles) (splitAuthor : Bool) :
    doc.AllOrNothing config faults opcodes newText (doc.wholeBlock faults splitAuthor newText) := by
  unfold wholeBlock
  split_ifs
  · exact allOrNothing_raised
  · rw [applyInUndoContext]
    rcases doc.enterContext_cases faults.enterWhole with
      refused | ⟨unlocked, inContext⟩
    · rw [refused]
      exact allOrNothing_replaceWhole.of_batches
    · rw [inContext]
      apply allOrNothing_closed fresh _ rfl
      · exact fun ended atMost => .guardedWhole _ atMost
      · exact fun success => replaceWhole_completed success (.guardedWhole _ (.inl rfl)) (by simp)
      · have within := Within.enter noOpen unlocked faults.NoStray
        exact (within.log .replacedWhole).recordEdit (fun noStray => noStray.1)
          _ _ _
  · exact allOrNothing_replaceWhole

theorem allOrNothing_surgicalBatch (noOpen : doc.undo.opened = [])
    (fresh : doc.FreshTitles) (splitAuthor : Bool)
    (split : splitChange doc.block.shown newText config.wordDiffThreshold
      opcodes = some result) (surgical : result.mode = .surgical)
    (sound : SplitSound doc.block.shown newText opcodes result)
    (unstruck : doc.block.shown = doc.block.accepted) :
    doc.AllOrNothing config faults opcodes newText
      (doc.surgicalBatch faults splitAuthor newText result.subEdits) := by
  unfold surgicalBatch
  rcases doc.enterContext_cases faults.enterBatch with
    refused | ⟨unlocked, inContext⟩
  · rw [refused]
    have later : { doc with batches := doc.batches + 1 }.FreshTitles :=
      fun batch beyond => fresh batch (Nat.le_of_succ_le beyond)
    exact (@allOrNothing_wholeBlock { doc with batches := doc.batches + 1 } config
      faults opcodes newText noOpen later splitAuthor).of_batches
  · rw [inContext]
    have reversed :=
      rightToLeft_eq_reverse (sound.ordered.imp And.left)
    obtain ⟨reached, -, log, all⟩ := applyBatch_events faults.subEdit
      (rightToLeft result.subEdits) 0 doc.entered
    apply allOrNothing_closed fresh _ log
    · exact fun ended atMost => .surgical _ reached atMost
    · intro success
      rw [all success, reversed]
      apply Completed.surgical split surgical _ rfl
      rw [reversed] at success
      have start : EditedFrom doc.block.shown 0 [] doc.entered.block := by
        have finished := @EditedFrom.finished doc.block.shown 0
        rwa [drop_zero, ← BlockText.eq_plain_of_shown unstruck] at finished
      have edited := @applyBatch_edited doc.block.shown faults.subEdit
        result.subEdits.reverse 0 doc.entered [] start
      rw [reverse_reverse, append_nil] at edited
      apply edited _ (sound.ordered.imp And.right) success
      exact fun e member => sound.wellFormed e (mem_reverse.mp member)
    · exact (Within.enter noOpen unlocked faults.NoStray).applyBatch (fun noStray => noStray.2) _

theorem allOrNothing_empty (sound : SplitSound doc.block.shown newText opcodes result)
    (empty : result.subEdits.isEmpty = true) :
    doc.AllOrNothing config faults opcodes newText (doc, false) := by
  have rebuilds := sound.rebuilds
  rw [isEmpty_iff.mp empty] at rebuilds
  have same : doc.block.shown = newText := rebuilds
  exact ⟨[], (append_nil _).symm, .nothing,
    fun _ => .unchanged nofun rfl (congrArg _ same.symm), nofun⟩

theorem recordPreserveReplace_allOrNothing (noOpen : doc.undo.opened = []) (fresh : doc.FreshTitles)
    (valid : ValidOpcodes doc.block.shown newText opcodes) (splits : Bool) :
    doc.AllOrNothing config faults opcodes newText
      (doc.recordPreserveReplace config faults opcodes newText splits) := by
  have whole : ∀ splitAuthor, doc.AllOrNothing config faults opcodes newText
      (doc.wholeBlock faults splitAuthor newText) :=
    allOrNothing_wholeBlock noOpen fresh
  unfold recordPreserveReplace
  split
  · exact whole _
  · split
    · exact allOrNothing_raised
    · split
      · exact allOrNothing_raised
      · rename_i result split
        split
        · exact whole _
        · rename_i surgical
          rw [not_not] at surgical
          have sound := splitChange_surgical_sound valid split surgical
          split
          · next empty => exact allOrNothing_empty sound empty
          · split
            · exact whole _
            · split
              · exact whole _
              · rename_i safe
                rw [Bool.not_eq_true', Bool.not_eq_false, blockSafeForSurgical, Bool.and_eq_true,
                  decide_eq_true_eq] at safe
                split
                · exact allOrNothing_raised
                · split
                  · exact allOrNothing_raised
                  · exact whole _
                  · exact allOrNothing_surgicalBatch noOpen fresh _ split surgical sound safe.1

/-- **All or nothing.** Whatever fails in a call with no context open at its
start: a context that is entered is left exactly once, and the whole block is not
replaced behind a sub-edit.  A call that does not raise has replaced the block,
or applied every sub-edit once and at its own offsets.  A call that raises, has
left its context, and has not failed to undo restores text and changes, and the
anchors too unless one gets stuck; only an unrecorded replacement of the whole
block has no context to rely on. -/
theorem recordPreserveReplace_atomic (doc : SurgicalDocument) (config : SurgicalConfig)
    (faults : SurgicalFaults) (opcodes : List Opcode) (newText : Text) (splits : Bool)
    (noOpen : doc.undo.opened = []) (fresh : doc.FreshTitles)
    (valid : ValidOpcodes doc.block.shown newText opcodes) :
    let result := doc.recordPreserveReplace config faults opcodes newText splits
    ∃ events, result.1.events = doc.events ++ events ∧ (events.filter (·.isContext) = [] ∨ ∃ title,
        events.filter (·.isContext) = [.entered title, .left]) ∧
      (∀ e, .replaced e ∈ events → .replacedWhole ∉ events) ∧
      (result.2 = false → Completed config opcodes newText doc.block result.1.block events ∧
          ('\r' ∉ doc.block.shown → '\r' ∉ newText → result.1.block.accepted = newText ∨
              result.1.block = doc.block ∧ doc.block.shown = newText)) ∧
      (result.2 = true → result.1.undo.opened = [] → .undoRaised ∉ events →
        (events = [.replacedWhole] → faults.whole.replace.recording = true) →
          doc.Restored result.1 faults.close faults.NoStray) := by
  obtain ⟨events, log, calls, completes, restores⟩ :=
    @recordPreserveReplace_allOrNothing doc config faults opcodes newText noOpen fresh valid splits
  refine ⟨events, log, calls.contexts, fun e => calls.notBoth, fun success => ?_, restores⟩
  have completed := completes success
  exact ⟨completed, completed.reads valid⟩

open ReviewSession (openSession userRedline sessionRedline noMutationFaults)

/-- A block of three words, and a new text that keeps the middle one. -/
def threeWords : SurgicalDocument :=
  ⟨.plain "a b c".toList, openSession, ⟨[], [], false⟩, [], 1, []⟩

def outerWords : Text := "x b y".toList

def outerOpcodes : List Opcode :=
  [⟨.replace, 0, 1, 0, 1⟩, ⟨.equal, 1, 2, 1, 2⟩, ⟨.replace, 2, 3, 2, 3⟩]

def wholeThreshold : SurgicalConfig := ⟨true, .finite 1, 40⟩

def replacedEdit : EditFaults where
  move := .exact
  replace := ⟨true, false, ⟨[], []⟩, [userRedline, sessionRedline [] 0]⟩
  mutation := noMutationFaults
  acceptedText := ['y']
  rejectedText := ['c']
  actionTitle := "Replace".toList
  missesLock := false
  staysLocked := false

def raisedEdit : EditFaults :=
  { replacedEdit with
    replace := ⟨true, true, ⟨[⟨'a', true⟩], [userRedline]⟩, []⟩ }

def raisedBatch (stuck : Bool) : SurgicalFaults where
  readBlock := false
  readWhole := false
  offsetSafe := true
  range := false
  preFlight _ := .exact
  enterBatch := false
  enterWhole := false
  subEdit index := if index = 0 then replacedEdit else raisedEdit
  whole := replacedEdit
  close := ⟨false, false, false, false, fun _ => stuck, false⟩

theorem threeWords_valid : ValidOpcodes threeWords.block.shown outerWords outerOpcodes := by
  decide

theorem threeWords_fresh : threeWords.FreshTitles :=
  fun _ _ => not_mem_nil

theorem recordPreserveReplace_atomic_raisedBatch : threeWords.Restored
      (threeWords.recordPreserveReplace wholeThreshold (raisedBatch false)
        outerOpcodes outerWords true).1
      (raisedBatch false).close (raisedBatch false).NoStray := by
  obtain ⟨events, log, -, -, -, restores⟩ :=
    recordPreserveReplace_atomic threeWords wholeThreshold (raisedBatch false)
      outerOpcodes outerWords true rfl threeWords_fresh threeWords_valid
  have logged : events = (threeWords.recordPreserveReplace wholeThreshold
      (raisedBatch false) outerOpcodes outerWords true).1.events := log.symm
  subst logged
  exact restores (by decide +kernel) (by decide +kernel) (by decide +kernel) (by decide +kernel)

/-- The undo takes the text back; an anchor that cannot be removed stays. -/
theorem not_atomic_stuckAnchor : ¬ ∀ (doc : SurgicalDocument) (config : SurgicalConfig)
      (faults : SurgicalFaults) (opcodes : List Opcode) (newText : Text),
      doc.undo.opened = [] → doc.FreshTitles →
      ValidOpcodes doc.block.shown newText opcodes →
      let final := (doc.recordPreserveReplace config faults opcodes newText true).1
      final.undo.opened = [] → .undoRaised ∉ final.events →
        final.block.accepted = newText ∨ final.block = doc.block ∧
            final.session.changes = doc.session.changes ∧
            final.session.bookmarks = doc.session.bookmarks := by
  intro always
  have outcome := always threeWords wholeThreshold (raisedBatch true)
    outerOpcodes outerWords rfl threeWords_fresh threeWords_valid
    (by decide +kernel) (by decide +kernel)
  revert outcome
  decide +kernel

end SurgicalDocument

end WriterAgent.Writer
