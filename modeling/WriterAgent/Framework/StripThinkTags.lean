import WriterAgent.Foundations.TextCompare
import WriterAgent.Framework.ThinkTagStreamSplitter
import WriterAgent.Framework.Client.StreamNormalizer

/-!
# Think tags in a whole answer

`strip_think_tags` cuts the closed blocks out of a text with one expression,
and then looks for an unclosed one in what is left.
-/

namespace WriterAgent.Framework

open PyText List

/-- The text without its closed blocks and the thoughts of these, in one scan.
The first argument counts the characters still to be skipped. -/
def stripBlocks : ℕ → Text → Text × List Text
  | _, [] => ([], [])
  | skip + 1, _ :: rest => stripBlocks skip rest
  | 0, c :: rest =>
    match thinkBlock? (c :: rest) with
    | some (length, thought) =>
      let (clean, thoughts) := stripBlocks (length - 1) rest
      (clean, thought :: thoughts)
    | none =>
      let (clean, thoughts) := stripBlocks 0 rest
      (c :: clean, thoughts)

/-- The thoughts that are not blank, stripped and joined by blank lines. -/
def joinThoughts (thoughts : List Text) : Text :=
  joinBlankLine ((thoughts.map strip).filter fun thought => !thought.isEmpty)

variable {text needle : Text} {parts : List (Bool × Text)} {mode : Bool}

theorem stripBlocks_eq (before : Option Char) (skip : ℕ) (text : Text) : stripBlocks skip text =
      (substitute (fun _ rest => (thinkBlock? rest).map fun found => (found.1, []))
        before skip text,
        matchesOf (fun _ rest => thinkBlock? rest) before skip text) := by
  induction text generalizing before skip with
  | nil => cases skip <;> rfl
  | cons c rest induction =>
    cases skip with
    | succ skip => exact induction (some c) skip
    | zero =>
      unfold stripBlocks substitute matchesOf
      cases thinkBlock? (c :: rest) with
      | none => simp only [Option.map_none, induction (some c) 0]
      | some block => simp only [Option.map_some, induction (some c), nil_append]

theorem stripThinkTags_eq (text : Text) : stripThinkTags text =
      if text.isEmpty then ([], none)
      else
        let (clean, thoughts) := stripBlocks 0 text
        let (clean, thoughts) :=
          match findText (tagOf false) clean with
          | some start =>
            (clean.take start, thoughts ++ [clean.drop (start + (tagOf false).length)])
          | none => (clean, thoughts)
        (strip clean, if thoughts.isEmpty then none else some (joinThoughts thoughts)) := by
  rw [stripBlocks_eq none]
  rfl

theorem findText_eq_of_first {idx : ℕ} (here : needle <+: text.drop idx)
    (notBefore : ∀ j < idx, ¬needle <+: text.drop j) : findText needle text = some idx := by
  cases found : findText needle text with
  | none => exact absurd here (findText_eq_none found idx)
  | some k =>
    obtain ⟨there, first⟩ := findText_eq_some found
    have noEarlier : ¬k < idx := fun below => notBefore k below there
    have noLater : ¬idx < k := fun below => first idx below here
    rw [Nat.le_antisymm (Nat.le_of_not_lt noLater) (Nat.le_of_not_lt noEarlier)]

theorem findText_none_of_absent (absent : ¬needle <:+: text) : findText needle text = none := by
  cases found : findText needle text with
  | none => rfl
  | some k => exact absurd (isInfix_iff_drop.mpr ⟨k, (findText_eq_some found).1⟩) absent

theorem open_not_before (absent : ¬tagOf false <:+: text) (rest : Text) (j : ℕ)
    (below : j < text.length) : ¬tagOf false <+: text.drop j ++ (tagOf false ++ rest) := by
  apply TagModes.first_clear rest _ j below
  intro occurs
  obtain ⟨k, here⟩ := isInfix_iff_drop.mp occurs
  have room := here.length_le
  have size : (tagOf false).length = 7 := by decide
  simp only [length_drop, length_dropLast, length_append, size] at room
  have inBoth : tagOf false <+: text.drop k ++ tagOf false := by
    rw [← drop_append_of_le_length (by omega)]
    exact here.trans (( dropLast_prefix _).drop k)
  by_cases inside : 7 ≤ text.length - k
  · apply absent
    refine isInfix_iff_drop.mpr ⟨k, ?_⟩
    exact prefix_of_prefix_length_le inBoth (prefix_append _ _) (by rw [length_drop]; exact inside)
  · -- the second tag would start inside the first one
    have overlap : (tagOf false).drop (text.length - k) <+: tagOf false := by
      have dropped := inBoth.drop (text.length - k)
      have exact_length : (text.drop k).length = text.length - k := length_drop
      rwa [← exact_length, drop_left, exact_length] at dropped
    have partly : text.length - k = 1 ∨ text.length - k = 2 ∨ text.length - k = 3 ∨
        text.length - k = 4 ∨ text.length - k = 5 ∨ text.length - k = 6 := by omega
    revert overlap
    rcases partly with size | size | size | size | size | size <;> rw [size] <;> decide

theorem thinkBlock?_of_not_prefix (absent : ¬tagOf false <+: text) : thinkBlock? text = none := by
  have none : stripStart thinkOpen text = none := by
    rw [Option.eq_none_iff_forall_ne_some]
    intro rest found
    exact absent ⟨rest, (stripStart_eq_some_iff.mp found).symm⟩
  rw [thinkBlock?, none]

theorem thinkBlock?_open (rest : Text) : thinkBlock? (tagOf false ++ rest) =
      (findText (tagOf true) rest).map fun close =>
        ((tagOf false).length + close + (tagOf true).length, rest.take close) := by
  rfl

theorem stripBlocks_skip (skip : ℕ) (text : Text) :
    stripBlocks skip text = stripBlocks 0 (text.drop skip) := by
  induction text generalizing skip with
  | nil => cases skip <;> rfl
  | cons c rest induction =>
    cases skip with
    | zero => rfl
    | succ skip => exact induction skip

theorem stripBlocks_copy {front rest : Text}
    (clear : ∀ j < front.length, ¬tagOf false <+: front.drop j ++ rest) :
    stripBlocks 0 (front ++ rest) = (front ++ (stripBlocks 0 rest).1, (stripBlocks 0 rest).2) := by
  induction front with
  | nil => rfl
  | cons c front induction =>
    have noBlock : thinkBlock? (c :: (front ++ rest)) = none := by
      apply thinkBlock?_of_not_prefix
      exact clear 0 (by simp)
    have later := induction fun j below => clear (j + 1) (by simpa using below)
    rw [cons_append, stripBlocks, noBlock]
    rw [later]
    rfl

theorem stripBlocks_block {thought : Text} (rest : Text)
    (first : ¬tagOf true <:+: (thought ++ tagOf true).dropLast) :
    stripBlocks 0 (tagOf false ++ (thought ++ tagOf true ++ rest)) =
      ((stripBlocks 0 rest).1, thought :: (stripBlocks 0 rest).2) := by
  have closed : findText (tagOf true) (thought ++ tagOf true ++ rest) = some thought.length := by
    apply findText_eq_of_first
    · rw [append_assoc, drop_left]
      exact prefix_append _ _
    · intro j below
      rw [append_assoc, drop_append_of_le_length (Nat.le_of_lt below)]
      exact TagModes.first_clear rest first j below
  have block : thinkBlock? (tagOf false ++ (thought ++ tagOf true ++ rest)) =
      some ((tagOf false ++ (thought ++ tagOf true)).length, thought) := by
    rw [thinkBlock?_open, closed, Option.map_some, append_assoc thought, take_left]
    simp only [length_append, Nat.add_assoc]
  cases whole : tagOf false ++ (thought ++ tagOf true ++ rest) with
  | nil => simp [tagOf] at whole
  | cons c text =>
    rw [whole] at block
    rw [stripBlocks, block]
    dsimp only
    have later : text.drop ((tagOf false ++ (thought ++ tagOf true)).length - 1) = rest := by
      have dropped : (c :: text).drop (tagOf false ++ (thought ++ tagOf true)).length =
          rest := by
        rw [← whole, ← append_assoc, ← append_assoc, append_assoc (tagOf false), drop_left]
      exact dropped
    rw [stripBlocks_skip, later]

theorem stripBlocks_unclosed (absent : ¬tagOf true <:+: text.drop (tagOf false).length) :
    stripBlocks 0 text = (text, []) := by
  induction text with
  | nil => rfl
  | cons c rest induction =>
    have noBlock : thinkBlock? (c :: rest) = none := by
      by_cases opened : tagOf false <+: c :: rest
      · obtain ⟨later, split⟩ := opened
        rw [← split, drop_left] at absent
        rw [← split, thinkBlock?_open, findText_none_of_absent absent]
        rfl
      · exact thinkBlock?_of_not_prefix opened
    rw [stripBlocks, noBlock]
    rw [induction]
    intro occurs
    apply absent
    have suffix : rest.drop (tagOf false).length <:+ (c :: rest).drop (tagOf false).length := by
      have shifted : rest = (c :: rest).drop 1 := rfl
      rw [shifted, drop_drop, Nat.add_comm, ← drop_drop]
      exact drop_suffix _ _
    exact occurs.trans suffix.isInfix

def contentOf (parts : List (Bool × Text)) : Text :=
  (parts.filter fun part => !part.1).flatMap Prod.snd

def thinkingOf (parts : List (Bool × Text)) : Text :=
  (parts.filter Prod.fst).flatMap Prod.snd

def closedThoughts : List (Bool × Text) → List Text
  | [] | [_] => []
  | (inThinking, text) :: parts =>
    if inThinking then text :: closedThoughts parts else closedThoughts parts

def openThought : List (Bool × Text) → Option Text
  | [] => none
  | [(inThinking, text)] => if inThinking then some text else none
  | _ :: parts => openThought parts

theorem parts_ne_nil (parted : thinkModes.Parted mode text parts) : parts ≠ [] := by
  cases parted <;> simp

theorem stripBlocks_parted (parted : thinkModes.Parted mode text parts) :
    stripBlocks 0 ((if mode then tagOf false else []) ++ text) =
      (contentOf parts ++ ((openThought parts).map (tagOf false ++ ·)).getD [],
        closedThoughts parts) := by
  induction parted with
  | @last mode text absent =>
    cases mode with
    | false =>
      have copied := @stripBlocks_copy text [] fun j below here =>
        absent (isInfix_iff_drop.mpr ⟨j, by rwa [append_nil] at here⟩)
      simpa [contentOf, openThought, closedThoughts, stripBlocks] using copied
    | true =>
      have left : ¬tagOf true <:+: (tagOf false ++ text).drop (tagOf false).length := by
        exact absent
      simpa [contentOf, openThought, closedThoughts] using stripBlocks_unclosed left
  | @tag mode text rest parts first later induction =>
    obtain ⟨part, parts, rfl⟩ := exists_cons_of_ne_nil (parts_ne_nil later)
    cases mode with
    | false =>
      have copied := stripBlocks_copy (TagModes.first_clear rest first)
      have rest_read : stripBlocks 0 (tagOf false ++ rest) = _ := induction
      change stripBlocks 0 ([] ++ (text ++ tagOf false ++ rest)) = _
      rw [nil_append, append_assoc, copied, rest_read]
      simp [contentOf, openThought, closedThoughts]
    | true =>
      have rest_read : stripBlocks 0 ([] ++ rest) = _ := induction
      rw [nil_append] at rest_read
      have cut := stripBlocks_block rest first
      change stripBlocks 0 (tagOf false ++ (text ++ tagOf true ++ rest)) = _
      rw [cut, rest_read]
      simp [contentOf, openThought, closedThoughts]

theorem textsOf_eq (parts : List (Bool × Text)) :
    contentOf parts = ((TagModes.tagged parts).filter fun cell => !cell.1).map Prod.snd ∧
      thinkingOf parts = ((TagModes.tagged parts).filter Prod.fst).map Prod.snd := by
  induction parts with
  | nil => exact ⟨rfl, rfl⟩
  | cons part parts induction =>
    obtain ⟨mode, text⟩ := part
    have cons : TagModes.tagged ((mode, text) :: parts) =
        text.map (mode, ·) ++ TagModes.tagged parts := rfl
    rw [cons, filter_append, filter_append, map_append, map_append, ← induction.1, ← induction.2]
    cases mode <;> simp [contentOf, thinkingOf, filter_map, Function.comp_def]

theorem blank_thinkingOf_iff (parts : List (Bool × Text)) : Blank (thinkingOf parts) ↔
      (∀ thought ∈ closedThoughts parts, Blank thought) ∧
        ∀ thought ∈ openThought parts, Blank thought := by
  induction parts using closedThoughts.induct with
  | case1 => simp [thinkingOf, closedThoughts, openThought, Blank]
  | case2 part =>
    obtain ⟨mode, text⟩ := part
    cases mode <;> simp [thinkingOf, closedThoughts, openThought, Blank]
  | case3 text parts more induction =>
    obtain ⟨part, parts, rfl⟩ := exists_cons_of_ne_nil more
    have split : thinkingOf ((true, text) :: part :: parts) =
        text ++ thinkingOf (part :: parts) := rfl
    rw [split, blank_append_iff, induction]
    simp [closedThoughts, openThought, and_assoc]
  | case4 inThinking text parts more outside induction =>
    obtain ⟨part, parts, rfl⟩ := exists_cons_of_ne_nil more
    cases inThinking with
    | true => exact absurd rfl outside
    | false => exact induction

theorem joinThoughts_eq_nil_iff (thoughts : List Text) :
    joinThoughts thoughts = [] ↔ ∀ thought ∈ thoughts, Blank thought := by
  have visible : ∀ thought ∈ (thoughts.map strip).filter (fun thought => !thought.isEmpty),
      thought ≠ [] := by
    intro thought member
    simpa using (mem_filter.mp member).2
  have blank : (thoughts.map strip).filter (fun thought => !thought.isEmpty) = [] ↔
      ∀ thought ∈ thoughts, Blank thought := by
    simp only [filter_eq_nil_iff, forall_mem_map, ← strip_eq_nil_iff]
    simp
  rw [← blank, joinThoughts]
  cases kept : (thoughts.map strip).filter (fun thought => !thought.isEmpty) with
  | nil => simp [joinBlankLine]
  | cons first rest =>
    rw [kept] at visible
    have shown := visible first (by simp)
    cases rest with
    | nil => simpa [joinBlankLine] using shown
    | cons second rest => simp [joinBlankLine, shown]

/-- Cutting out the blocks brings the parts of an opening tag together. -/
def JoinMakesTag (text : Text) : Prop :=
  ∃ parts, thinkModes.Parted false text parts ∧ tagOf false <:+: contentOf parts

open ThinkTagStreamSplitter (segments init segments_reads)

/-- The splitter, fed with the chunks of a text, and `strip_think_tags` tell the
same content and both some thinking or both none. -/
structure Agrees (chunks : List Text) : Prop where
  content : strip (contentOf (segments init chunks)) = (stripThinkTags chunks.flatten).1
  thinking : strip (thinkingOf (segments init chunks)) ≠ [] ↔
    ∃ thinking, (stripThinkTags chunks.flatten).2 = some thinking ∧ thinking ≠ []

theorem stripThinkTags_parted (parted : thinkModes.Parted false text parts) : stripThinkTags text =
      let clean := contentOf parts ++ ((openThought parts).map (tagOf false ++ ·)).getD []
      match findText (tagOf false) clean with
      | some start =>
        (strip (clean.take start), some (joinThoughts (closedThoughts parts ++
            [clean.drop (start + (tagOf false).length)])))
      | none =>
        (strip clean, if (closedThoughts parts).isEmpty then none
          else some (joinThoughts (closedThoughts parts))) := by
  have blocks : stripBlocks 0 ([] ++ text) = _ := stripBlocks_parted parted
  rw [nil_append] at blocks
  rw [stripThinkTags_eq]
  cases text with
  | nil =>
    rw [Prod.mk.injEq] at blocks
    rw [← blocks.1, ← blocks.2]
    rfl
  | cons c text =>
    rw [if_neg (by simp), blocks]
    dsimp only
    split
    · simp
    · rfl

theorem exists_thought_iff {thoughts : List Text} :
    (∃ thinking, (if thoughts.isEmpty then none else some (joinThoughts thoughts)) =
      some thinking ∧ thinking ≠ []) ↔ ¬∀ thought ∈ thoughts, Blank thought := by
  cases thoughts with
  | nil => simp
  | cons thought thoughts =>
    rw [← joinThoughts_eq_nil_iff]
    simp

theorem agrees_of_parted {chunks : List Text}
    (parted : thinkModes.Parted false chunks.flatten parts)
    (absent : ¬tagOf false <:+: contentOf parts) :
    strip (contentOf parts) = (stripThinkTags chunks.flatten).1 ∧ (strip (thinkingOf parts) ≠ [] ↔
        ∃ thinking, (stripThinkTags chunks.flatten).2 = some thinking ∧ thinking ≠ []) := by
  rw [stripThinkTags_parted parted, ne_eq, strip_eq_nil_iff, blank_thinkingOf_iff]
  dsimp only
  cases opened : openThought parts with
  | none =>
    have noTag : findText (tagOf false)
        (contentOf parts ++ (Option.map (tagOf false ++ ·) none).getD []) = none := by
      rw [Option.map_none, Option.getD_none, append_nil]
      exact findText_none_of_absent absent
    rw [noTag]
    rw [exists_thought_iff]
    simp
  | some thought =>
    have atEnd : findText (tagOf false)
        (contentOf parts ++ (Option.map (tagOf false ++ ·) (some thought)).getD []) =
          some (contentOf parts).length := by
      apply findText_eq_of_first
      · rw [drop_left]
        exact prefix_append _ _
      · intro j below
        rw [drop_append_of_le_length (Nat.le_of_lt below)]
        exact open_not_before absent thought j below
    rw [atEnd]
    dsimp only
    constructor
    · rw [take_left]
    · have left : (contentOf parts ++ (Option.map (tagOf false ++ ·) (some thought)).getD
          []).drop ((contentOf parts).length + (tagOf false).length) = thought := by
        rw [← drop_drop, drop_left]
        exact drop_left
      rw [left]
      have whole : (∃ thinking, some (joinThoughts (closedThoughts parts ++ [thought])) =
          some thinking ∧ thinking ≠ []) ↔
            joinThoughts (closedThoughts parts ++ [thought]) ≠ [] := by
        simp
      rw [whole, ne_eq, joinThoughts_eq_nil_iff, forall_mem_append]
      simp

theorem content_ne_of_parted (parted : thinkModes.Parted false text parts)
    (joined : tagOf false <:+: contentOf parts) :
    strip (contentOf parts) ≠ (stripThinkTags text).1 := by
  obtain ⟨front, back, split⟩ := joined
  intro same
  rw [stripThinkTags_parted parted] at same
  dsimp only at same
  generalize ((openThought parts).map (tagOf false ++ ·)).getD [] = opened at same
  have here : tagOf false <+: (contentOf parts ++ opened).drop front.length := by
    rw [← split, append_assoc, append_assoc, drop_left]
    exact prefix_append _ _
  cases found : findText (tagOf false) (contentOf parts ++ opened) with
  | none => exact findText_eq_none found _ here
  | some start =>
    have early : start ≤ front.length := by
      by_contra late
      exact (findText_eq_some found).2 front.length (Nat.lt_of_not_le late) here
    have inside : start ≤ (contentOf parts).length := by
      rw [← split, append_assoc, length_append]
      exact Nat.le_trans early (Nat.le_add_right _ _)
    rw [found] at same
    dsimp only at same
    rw [take_append_of_le_length inside] at same
    have blank : Blank ((contentOf parts).drop start) := by
      refine @blank_of_strip_append ((contentOf parts).take start) _ ?_
      rw [take_append_drop]
      exact same
    have bracket : '<' ∈ (contentOf parts).drop start := by
      rw [← split, append_assoc, drop_append_of_le_length early]
      exact mem_append_right _ (mem_append_left _ (by decide))
    have visible := blank '<' bracket
    revert visible
    decide

/-- **The two readings agree where no new tag comes together.** -/
theorem stripThinkTags_agrees_iff (chunks : List Text) :
    Agrees chunks ↔ ¬JoinMakesTag chunks.flatten := by
  obtain ⟨parts, parted⟩ := thinkModes.exists_parted false chunks.flatten
  have reads : TagModes.tagged (segments init chunks) = TagModes.tagged parts := by
    rw [segments_reads init (tagOf_length_pos false), parted.tagged_eq]
    rfl
  have content : contentOf (segments init chunks) = contentOf parts := by
    rw [(textsOf_eq _).1, reads, ← (textsOf_eq _).1]
  have thinking : thinkingOf (segments init chunks) = thinkingOf parts := by
    rw [(textsOf_eq _).2, reads, ← (textsOf_eq _).2]
  have makes : JoinMakesTag chunks.flatten ↔ tagOf false <:+: contentOf parts := by
    constructor
    · rintro ⟨others, othersParted, joined⟩
      rwa [(textsOf_eq _).1, parted.tagged_eq, ← othersParted.tagged_eq, ← (textsOf_eq _).1]
    · exact fun joined => ⟨parts, parted, joined⟩
  rw [makes]
  constructor
  · intro agrees joined
    exact content_ne_of_parted parted joined (content ▸ agrees.content)
  · intro absent
    obtain ⟨sameContent, sameThinking⟩ := agrees_of_parted parted absent
    exact ⟨content ▸ sameContent, thinking ▸ sameThinking⟩

def tagAroundBlock : Text := "<th<think>x</think>ink>y".toList

/-- The stream shows `<think>y`, and the whole answer is empty. -/
theorem tagAroundBlock_disagrees : ¬Agrees [tagAroundBlock] := by
  intro agrees
  have content := agrees.content
  revert content
  decide +kernel

end WriterAgent.Framework
