import WriterAgent.Writer.Review.SurgicalEdit
import WriterAgent.Writer.SplitChange

/-!
# The text behind a surgical edit

Sub-edits are applied from right to left, so the offsets of those to come stay
those of the old text.
-/

namespace WriterAgent.Writer

open PyText List

variable {subEdits : List SubEdit} {block : BlockText} {e : SubEdit} {old : Text}

namespace BlockText

theorem plain_append (first second : Text) :
    plain (first ++ second) = plain first ++ plain second :=
  map_append

theorem shown_plain (s : Text) : (plain s).shown = s := by
  rw [shown, plain, map_map]
  exact map_id s

theorem accepted_append (first second : BlockText) :
    accepted (first ++ second) = first.accepted ++ second.accepted := by
  rw [accepted, filter_append, map_append]
  rfl

theorem accepted_plain (s : Text) : (plain s).accepted = s := by
  have all : (plain s).filter (!·.struck) = plain s := by
    apply filter_eq_self.mpr
    intro char member
    obtain ⟨c, -, rfl⟩ := mem_map.mp member
    rfl
  rw [accepted, all]
  exact shown_plain s

theorem accepted_strike (block : BlockText) : block.strike.accepted = [] := by
  have none : block.strike.filter (!·.struck) = [] := by
    apply filter_eq_nil_iff.mpr
    intro char member
    obtain ⟨c, -, rfl⟩ := mem_map.mp member
    exact Bool.false_ne_true
  rw [accepted, none, map_nil]

theorem eq_plain_of_shown (same : block.shown = block.accepted) : block = plain block.shown := by
  have lengths : (block.filter (!·.struck)).length = block.length := by
    have mapped := congrArg List.length same
    rw [shown, accepted, length_map, length_map] at mapped
    exact mapped.symm
  have unstruck := length_filter_eq_length_iff.mp lengths
  have kept : block.map (fun char => ⟨char.char, false⟩) = block.map id := by
    apply map_congr_left
    intro char member
    have flag : char.struck = false := by simpa using unstruck char member
    rw [id, ← flag]
  rw [plain, shown, map_map]
  exact (map_id block).symm.trans kept.symm

end BlockText

theorem normalizeLinebreaks_eq_self {s : Text} (absent : '\r' ∉ s) : normalizeLinebreaks s = s := by
  rw [normalizeLinebreaks, @replaceText_eq_self ['\r', '\n'] _ s '\r' (by decide) absent,
    @replaceText_eq_self ['\n', '\r'] _ s '\r' (by decide) absent,
    @replaceText_eq_self ['\r'] _ s '\r' (by decide) absent]

/-- What stands in the place of a sub-edit: its new text, or its old one when
they differ in line breaks only. -/
def EditedPiece (e : SubEdit) (piece : BlockText) : Prop :=
  piece.accepted = normalizeLinebreaks e.newText ∨ piece = .plain e.oldText ∧
      normalizeLinebreaks e.newText = normalizeLinebreaks e.oldText

/-- The old text behind an offset with each sub-edit applied once, at its own
offsets. -/
inductive EditedFrom (old : Text) : ℕ → List SubEdit → BlockText → Prop where
  | finished (cursor : ℕ) : EditedFrom old cursor [] (.plain (old.drop cursor))
  | edited {cursor : ℕ} {e : SubEdit} {rest : List SubEdit}
      {piece tail : BlockText} : EditedPiece e piece →
      EditedFrom old e.oldEnd rest tail →
      EditedFrom old cursor (e :: rest) (.plain (slice old cursor e.oldStart) ++ (piece ++ tail))

namespace EditedFrom

variable {old : Text}

theorem later {start cursor : ℕ} (edited : EditedFrom old start subEdits block)
    (ordered : start ≤ cursor) (behind : ∀ e ∈ subEdits, cursor ≤ e.oldStart) :
    ∃ tail, block = .plain (slice old start cursor) ++ tail ∧
      EditedFrom old cursor subEdits tail := by
  cases edited with
  | finished =>
    refine ⟨_, ?_, .finished cursor⟩
    rw [← BlockText.plain_append, slice_append_drop ordered]
  | edited piece tail =>
    refine ⟨_, ?_, .edited piece tail⟩
    rw [← slice_append_slice ordered (behind _ mem_cons_self), BlockText.plain_append, append_assoc]

theorem selects (edited : EditedFrom old 0 subEdits block) (wellFormed : e.WellFormed old)
    (behind : ∀ other ∈ subEdits, e.oldEnd ≤ other.oldStart) :
    block.take e.oldStart = BlockText.plain (slice old 0 e.oldStart) ∧
      slice block e.oldStart e.oldEnd = BlockText.plain e.oldText ∧
      EditedFrom old e.oldEnd subEdits (block.drop e.oldEnd) := by
  obtain ⟨tail, rfl, tailEdited⟩ :=
    edited.later (Nat.zero_le e.oldEnd) behind
  have startBound := wellFormed.ordered.trans wellFormed.bound
  have frontLength : (BlockText.plain (slice old 0 e.oldStart)).length = e.oldStart := by
    rw [BlockText.plain, length_map, length_slice 0 startBound, Nat.sub_zero]
  have pieceLength : (BlockText.plain e.oldText).length = e.oldEnd - e.oldStart := by
    rw [BlockText.plain, length_map, wellFormed.oldTextEq, length_slice _ wellFormed.bound]
  have stop : e.oldStart + (e.oldEnd - e.oldStart) = e.oldEnd :=
    Nat.add_sub_of_le wellFormed.ordered
  rw [← slice_append_slice (Nat.zero_le e.oldStart) wellFormed.ordered,
    ← wellFormed.oldTextEq, BlockText.plain_append, append_assoc]
  refine ⟨take_left' frontLength, ?_, ?_⟩
  · have middle := @slice_eq_of_append _
      (BlockText.plain (slice old 0 e.oldStart)) (BlockText.plain e.oldText)
      tail
    rwa [frontLength, pieceLength, stop] at middle
  · rw [← append_assoc, drop_left']
    · exact tailEdited
    · rw [length_append, frontLength, pieceLength, stop]

theorem accepted {cursor : ℕ} (edited : EditedFrom old cursor subEdits block)
    (noReturn : ∀ e ∈ subEdits, '\r' ∉ e.oldText ∧ '\r' ∉ e.newText) :
    block.accepted = applyLoop old cursor subEdits := by
  induction edited with
  | finished cursor => exact BlockText.accepted_plain _
  | @edited cursor e rest piece tail isPiece _ ih =>
    rw [forall_mem_cons] at noReturn
    have pieceText : piece.accepted = e.newText := by
      rcases isPiece with applied | ⟨rfl, same⟩
      · rw [applied, normalizeLinebreaks_eq_self noReturn.1.2]
      · rw [normalizeLinebreaks_eq_self noReturn.1.1,
          normalizeLinebreaks_eq_self noReturn.1.2] at same
        rw [BlockText.accepted_plain, same]
    rw [BlockText.accepted_append, BlockText.accepted_append,
      BlockText.accepted_plain, pieceText, ih noReturn.2, applyLoop]

end EditedFrom

theorem mem_applyLoop {c : Char} (member : e ∈ subEdits) (inNew : c ∈ e.newText)
    (cursor : ℕ) : c ∈ applyLoop old cursor subEdits := by
  induction subEdits generalizing cursor with
  | nil => cases member
  | cons first rest ih =>
    rw [applyLoop, mem_append, mem_append]
    rcases mem_cons.mp member with rfl | later
    · exact .inr (.inl inNew)
    · exact .inr (.inr (ih later _))

theorem splitChange_surgical_sound {new : Text} {opcodes : List Opcode}
    {threshold : Option Binary64} {result : SplitResult} (valid : ValidOpcodes old new opcodes)
    (split : splitChange old new threshold opcodes = some result)
    (surgical : result.mode = .surgical) :
    SplitSound old new opcodes result := by
  obtain ⟨subEdits, built, sound⟩ :=
    buildSurgicalEdits_sound valid (fractionChanged opcodes)
  rw [splitChange] at split
  split at split
  · cases split
    cases surgical
  · rw [built, Option.map_some, Option.some.injEq] at split
    rw [← split]
    exact sound

section Replace

variable {faults : ReplaceFaults} {inUndoContext : Bool}
  {redlines : List SessionRedline} {front piece back : BlockText}
  {newText : Text}

theorem replacePreservingFormat_replaces
    (success : (replacePreservingFormat faults inUndoContext redlines front piece
      back newText).raised = false) :
    ∃ middle, (replacePreservingFormat faults inUndoContext redlines front piece
        back newText).after.block = front ++ (middle ++ back) ∧
      (middle.accepted = normalizeLinebreaks newText ∨ middle = piece ∧
          normalizeLinebreaks newText = normalizeLinebreaks piece.shown) := by
  unfold replacePreservingFormat at success ⊢
  dsimp only at success ⊢
  split
  · rename_i recording
    rw [if_pos recording] at success
    split
    · next same => exact ⟨piece, rfl, .inr ⟨rfl, same⟩⟩
    · rename_i differ
      rw [if_neg differ] at success
      split
      · rename_i raises
        rw [if_pos raises] at success
        cases success
      · refine ⟨_, rfl, .inl ?_⟩
        rw [BlockText.accepted_append, BlockText.accepted_strike,
          BlockText.accepted_plain, nil_append]
  · rename_i direct
    rw [if_neg direct] at success
    split
    · rename_i raises
      rw [if_pos raises] at success
      cases success
    · exact ⟨_, rfl, .inl (BlockText.accepted_plain _)⟩

theorem replacePreservingFormat_raised (recording : faults.recording = true)
    (raised : (replacePreservingFormat faults false redlines front piece back
      newText).raised = true) :
    (replacePreservingFormat faults false redlines front piece back
      newText).after = ⟨front ++ (piece ++ back), redlines⟩ := by
  unfold replacePreservingFormat at raised ⊢
  rw [if_pos recording] at raised ⊢
  split
  · rfl
  · rename_i differ
    rw [if_neg differ] at raised
    split
    · rfl
    · rename_i quiet
      rw [if_neg quiet] at raised
      cases raised

end Replace

theorem orderedInsert_last {later : List SubEdit}
    (behind : ∀ other ∈ later, e.oldStart < other.oldStart) :
    later.orderedInsert (fun left right : SubEdit => right.oldStart ≤ left.oldStart) e =
        later ++ [e] := by
  induction later with
  | nil => rfl
  | cons other rest ih =>
    rw [forall_mem_cons] at behind
    rw [orderedInsert_cons, if_neg (Nat.not_le_of_gt behind.1), ih behind.2]
    rfl

theorem rightToLeft_eq_reverse (ordered : subEdits.Pairwise fun left right =>
      left.oldStart < right.oldStart) :
    SurgicalDocument.rightToLeft subEdits = subEdits.reverse := by
  rw [SurgicalDocument.rightToLeft]
  induction subEdits with
  | nil => rfl
  | cons e rest ih =>
    rw [pairwise_cons] at ordered
    rw [insertionSort_cons, ih ordered.2, reverse_cons]
    apply orderedInsert_last
    intro other member
    exact ordered.1 other (mem_reverse.mp member)

end WriterAgent.Writer
