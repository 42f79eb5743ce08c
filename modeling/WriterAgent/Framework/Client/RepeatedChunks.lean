import WriterAgent.Framework.Client.StreamingLoop

/-!
# The guard against endless repetition

The streaming loop raises when the same piece of content comes again and again.
-/

namespace WriterAgent.Framework

open PyText List

variable {ν : Type}

/-- A piece of more than two characters comes again and again. -/
def EndlessLoop (contents : List Text) : Prop :=
  ∃ piece : Text, 2 < piece.length ∧ List.replicate repeatedStreamingChunkLimit piece <:+: contents

def lastContentsOf (contents : List Text) : List Text :=
  contents.drop (contents.length - repeatedStreamingChunkLimit)

variable {contents : List Text}

theorem lastContentsOf_concat (contents : List Text) (piece : Text) :
    (lastContentsOf contents ++ [piece]).drop ((lastContentsOf contents ++ [piece]).length -
          repeatedStreamingChunkLimit) =
      lastContentsOf (contents ++ [piece]) := by
  rw [lastContentsOf, lastContentsOf, length_append, length_append,
    ← drop_append_of_le_length (by omega),
    drop_drop]
  congr 1
  rw [length_drop]
  omega

theorem guard_iff (contents : List Text) (piece : Text) :
    ((lastContentsOf (contents ++ [piece])).length =
          repeatedStreamingChunkLimit ∧
        piece.length > 2 ∧
        ((lastContentsOf (contents ++ [piece])).all fun text =>
          (lastContentsOf (contents ++ [piece])).head? == some text) = true) ↔
      2 < piece.length ∧ List.replicate repeatedStreamingChunkLimit piece <:+
          contents ++ [piece] := by
  have suffix : List.replicate repeatedStreamingChunkLimit piece <:+
      contents ++ [piece] ↔ lastContentsOf (contents ++ [piece]) =
        List.replicate repeatedStreamingChunkLimit piece := by
    rw [suffix_iff_eq_drop, eq_comm]
    rfl
  have isLast : piece ∈ lastContentsOf (contents ++ [piece]) := by
    rw [lastContentsOf, drop_append_of_le_length
      (by rw [length_append, length_singleton, repeatedStreamingChunkLimit]; omega)]
    exact mem_append_right _ (mem_singleton_self piece)
  rw [suffix]
  constructor
  · rintro ⟨length, long, same⟩
    refine ⟨long, eq_replicate_iff.mpr ⟨length, ?_⟩⟩
    rw [all_eq_true] at same
    intro text member
    have ofText := eq_of_beq (same text member)
    have ofPiece := eq_of_beq (same piece isLast)
    rw [ofText] at ofPiece
    exact Option.some.inj ofPiece
  · rintro ⟨long, same⟩
    rw [same]
    refine ⟨length_replicate, long, ?_⟩
    rw [all_eq_true]
    intro text member
    rw [eq_of_mem_replicate member]
    exact beq_self_eq_true (some piece)

theorem endlessLoop_concat {piece : Text} (before : ¬EndlessLoop contents) :
    EndlessLoop (contents ++ [piece]) ↔ 2 < piece.length ∧
      List.replicate repeatedStreamingChunkLimit piece <:+ contents ++ [piece] := by
  constructor
  · rintro ⟨repeated, long, occurs⟩
    rcases infix_concat_iff.mp occurs with suffix | earlier
    · have same : repeated = piece := by
        have nonempty : List.replicate repeatedStreamingChunkLimit repeated ≠ [] :=
          cons_ne_nil repeated (List.replicate 19 repeated)
        simpa using suffix.getLast nonempty
      subst same
      exact ⟨long, suffix⟩
    · exact absurd ⟨repeated, long, earlier⟩ before
  · rintro ⟨long, suffix⟩
    exact ⟨piece, long, suffix.isInfix⟩

def contentTexts (pieces : List (Bool × Text)) : List Text :=
  (pieces.filter fun piece => !piece.1).map Prod.snd

namespace Reading

theorem showPiece_content {reading : Reading ν} {text : Text}
    (kept : reading.lastContents = lastContentsOf contents) (before : ¬EndlessLoop contents) :
    (EndlessLoop (contents ++ [text]) ∧ reading.showPiece (false, text) = .error .infiniteLoop) ∨
      ¬EndlessLoop (contents ++ [text]) ∧ ∃ next, reading.showPiece (false, text) = .ok next ∧
          next.lastContents = lastContentsOf (contents ++ [text]) := by
  have guard := guard_iff contents text
  rw [← endlessLoop_concat before] at guard
  simp only [showPiece, kept, lastContentsOf_concat, Bool.false_eq_true, if_false]
  by_cases endless : EndlessLoop (contents ++ [text])
  · exact .inl ⟨endless, if_pos (guard.mpr endless)⟩
  · exact .inr ⟨endless, _, if_neg (guard.not.mpr endless), rfl⟩

theorem showPieces_isOk {reading : Reading ν} {contents : List Text} {pieces : List (Bool × Text)}
    (kept : reading.lastContents = lastContentsOf contents) (before : ¬EndlessLoop contents) :
    (∃ next, pieces.foldlM showPiece reading = .ok next) ↔
      ¬EndlessLoop (contents ++ contentTexts pieces) := by
  induction pieces generalizing reading contents with
  | nil =>
    rw [contentTexts, filter_nil, map_nil, append_nil]
    exact ⟨fun _ => before, fun _ => ⟨reading, rfl⟩⟩
  | cons piece rest ih =>
    obtain ⟨isThink, text⟩ := piece
    cases isThink with
    | true =>
      exact @ih
        { reading with collected := reading.collected.showText true text }
        contents kept before
    | false =>
      have texts : contents ++ contentTexts ((false, text) :: rest) =
          contents ++ [text] ++ contentTexts rest := by
        rw [append_assoc]
        rfl
      rw [foldlM_cons, texts]
      rcases showPiece_content kept before with
        ⟨endless, raised⟩ | ⟨notEndless, next, shown, keeps⟩
      · rw [raised]
        constructor
        · rintro ⟨next, impossible⟩
          cases impossible
        · intro notEndless
          obtain ⟨repeated, long, occurs⟩ := endless
          exact absurd ⟨repeated, long, occurs.trans (prefix_append _ _).isInfix⟩ notEndless
      · rw [shown]
        exact ih keeps notEndless

end Reading

end WriterAgent.Framework
