import WriterAgent.Writer.Search.ChainedSearch

/-!
# What a chained range covers

A range that is chained from a match covers the lines of the search text when
the match fills its paragraph on the sides where the range goes on.
-/

namespace WriterAgent.Writer

open PyText List

theorem isSpace_of_mem_spaceCodepoints {c : Char}
    (member : c.toNat ∈ spaceCodepoints) : isSpace c = true := by
  simp only [spaceCodepoints, mem_cons, not_mem_nil, or_false] at member
  simp only [isSpace, Bool.or_eq_true, Bool.and_eq_true, decide_eq_true_eq, beq_iff_eq]
  omega

theorem foldsSpaces_foldSpaces : FoldsSpaces foldSpaces := by
  have lineBreaks : FoldsSpaces normalizeLinebreaks := by
    have first : FoldsSpaces (replaceText ['\r', '\n'] ['\n']) :=
      .of_replaceText (cons_ne_nil _ _) (by decide) (by decide)
    have second : FoldsSpaces (replaceText ['\n', '\r'] ['\n']) :=
      .of_replaceText (cons_ne_nil _ _) (by decide) (by decide)
    have third : FoldsSpaces (replaceText ['\r'] ['\n']) :=
      .of_replaceText (cons_ne_nil _ _) (by decide) (by decide)
    exact (first.comp second).comp third
  apply lineBreaks.comp
  apply FoldsSpaces.map
  · intro c visible
    refine if_neg fun contained => ?_
    rw [isSpace_of_mem_spaceCodepoints (contains_iff_mem.mp contained)] at visible
    cases visible
  · intro c space
    rw [spaceNormalize]
    split
    · rfl
    · exact space

variable {text anchor part : Text} {document after before rest : List Text}
  {found : Found} {lastEnd firstStart : Option Position}

section Lines

variable {lowercase : Lowercase}

theorem le_goRightIn (paragraph : ℕ) (texts : List Text) (count : ℕ) :
    paragraph ≤ (goRightIn paragraph texts count).paragraph := by
  induction texts generalizing paragraph count with
  | nil => exact le_rfl
  | cons text rest ih =>
    cases rest with
    | nil => exact le_rfl
    | cons next rest =>
      rw [goRightIn]
      split
      · exact le_rfl
      · exact (Nat.le_succ paragraph).trans (ih (paragraph + 1) _)

theorem goRightIn_of_le {paragraph count : ℕ} (inside : count ≤ text.length) :
    goRightIn paragraph (text :: rest) count = ⟨paragraph, count⟩ := by
  cases rest with
  | nil => rw [goRightIn, Nat.min_eq_left inside]
  | cons next rest => rw [goRightIn, if_pos inside]

theorem linesFrom_ne_nil (text : Text) (rest : List Text)
    (start further stop : ℕ) : linesFrom (text :: rest) start further stop ≠ [] := by
  cases further with
  | zero | succ => exact cons_ne_nil _ _

def lastCount (text part : Text) : ℕ :=
  (text.length - (lstripBy isSpace text).length) + (strip part).length

/-- What is counted off for a last line lies in the paragraph (or this ends
the text), begins the paragraph as it is compared and is as long as the line
as it is compared. -/
structure CountsOff (lowercase : Lowercase) (text part : Text) (rest : List Text) : Prop where
  inside : lastCount text part ≤ text.length ∨ rest = []
  begins : compareNormalize lowercase (text.take (lastCount text part)) <+:
    compareNormalize lowercase text
  length : (compareNormalize lowercase (text.take (lastCount text part))).length =
    (compareNormalize lowercase part).length

theorem matchesHead_eq_some {offset : ℕ} (found : matchesHead lowercase text part = some offset) :
    compareNormalize lowercase part <+: compareNormalize lowercase text ∧
      offset = lastCount text part := by
  rw [matchesHead] at found
  split_ifs at found with starts
  exact ⟨ isPrefixOf_iff_prefix.mp starts, (Option.some.inj found).symm⟩

/-- **The last line.** The lines up to the place that the cursor has gone to
are the last line exactly when that line is counted off. -/
theorem lastLine_iff {paragraph : ℕ} (starts : compareNormalize lowercase part <+:
      compareNormalize lowercase text) :
    (linesFrom (text :: rest) 0
        ((goRightIn paragraph (text :: rest) (lastCount text part)).paragraph - paragraph)
        (goRightIn paragraph (text :: rest)
          (lastCount text part)).offset).map (compareNormalize lowercase) =
      [compareNormalize lowercase part] ↔
      CountsOff lowercase text part rest := by
  have single : ∀ stop, text.take stop = text.take (lastCount text part) →
      ((linesFrom (text :: rest) 0 0 stop).map (compareNormalize lowercase) =
        [compareNormalize lowercase part] ↔
      compareNormalize lowercase (text.take (lastCount text part)) <+:
          compareNormalize lowercase text ∧
        (compareNormalize lowercase (text.take (lastCount text part))).length =
          (compareNormalize lowercase part).length) := by
    intro stop same
    rw [linesFrom, drop_zero, same, map_singleton, singleton_inj]
    constructor
    · intro equal
      rw [equal]
      exact ⟨starts, rfl⟩
    · intro begins
      exact (prefix_of_prefix_length_le begins.1 starts begins.2.le).eq_of_length begins.2
  rcases le_or_gt (lastCount text part) text.length with inside | beyond
  · rw [goRightIn_of_le inside, Nat.sub_self, single _ rfl]
    exact ⟨fun holds => ⟨.inl inside, holds.1, holds.2⟩,
      fun counts => ⟨counts.begins, counts.length⟩⟩
  · cases rest with
    | nil =>
      rw [goRightIn, Nat.sub_self, single]
      · exact ⟨fun holds => ⟨.inr rfl, holds.1, holds.2⟩,
          fun counts => ⟨counts.begins, counts.length⟩⟩
      · rw [Nat.min_eq_right beyond.le, take_length, take_of_length_le beyond.le]
    | cons next rest =>
      rw [goRightIn, if_neg (Nat.not_le_of_gt beyond)]
      have further := le_goRightIn (paragraph + 1) (next :: rest)
        (lastCount text part - (text.length + 1))
      obtain ⟨more, isMore⟩ := Nat.exists_eq_add_of_le further
      rw [isMore, Nat.add_right_comm, Nat.add_assoc, Nat.add_sub_cancel_left]
      constructor
      · intro equal
        have tail := (List.cons.inj equal).2
        rw [map_eq_nil_iff] at tail
        exact absurd tail (linesFrom_ne_nil _ _ _ _ _)
      · intro counts
        rcases counts.inside with inside | impossible
        · exact absurd inside (Nat.not_le_of_gt beyond)
        · cases impossible

/-- The last of the lines behind a paragraph is counted off. -/
def LastCountsOff (lowercase : Lowercase) (document : List Text)
    (paragraph : ℕ) (after : List Text) : Prop :=
  ∀ part ∈ after.getLast?, ∀ text ∈ document[paragraph + after.length]?,
    CountsOff lowercase text part (document.drop (paragraph + after.length + 1))

theorem drop_eq_cons {paragraph : ℕ} (found : document[paragraph]? = some text) :
    document.drop paragraph = text :: document.drop (paragraph + 1) := by
  obtain ⟨inside, isText⟩ := List.getElem?_eq_some_iff.mp found
  rw [drop_eq_getElem_cons inside, isText]

/-- **Forwards.** The lines behind the anchor are covered exactly when the last
one is counted off. -/
theorem chainForward_spec {paragraph : ℕ} (lines : after ≠ [])
    (chained : chainForward lowercase document paragraph after = some lastEnd) :
    ∃ stop, lastEnd = some stop ∧ paragraph + 1 ≤ stop.paragraph ∧
      ((linesFrom (document.drop (paragraph + 1)) 0
          (stop.paragraph - (paragraph + 1)) stop.offset).map (compareNormalize lowercase) =
          after.map (compareNormalize lowercase) ↔
        LastCountsOff lowercase document paragraph after) := by
  induction after generalizing paragraph with
  | nil => exact absurd rfl lines
  | cons part parts ih =>
    rw [chainForward] at chained
    cases found : document[paragraph + 1]? with
    | none =>
      rw [found] at chained
      cases chained
    | some text =>
      have split := drop_eq_cons found
      rw [found] at chained
      cases parts with
      | nil =>
        obtain ⟨offset, matched, isEnd⟩ :=
          Option.map_eq_some_iff.mp chained
        obtain ⟨starts, rfl⟩ := matchesHead_eq_some matched
        refine ⟨_, isEnd.symm, ?_, ?_⟩
        · exact le_goRightIn _ _ _
        · rw [goRight, split, map_singleton, lastLine_iff starts]
          constructor
          · intro counts last isLast other isOther
            rw [length_singleton] at isOther ⊢
            rw [found] at isOther
            cases isLast
            cases isOther
            exact counts
          · exact fun counts => counts part rfl text found
      | cons next parts =>
        dsimp only at chained
        split_ifs at chained with matched
        have same := eq_of_beq matched
        obtain ⟨stop, isStop, further, covers⟩ :=
          ih (cons_ne_nil _ _) chained
        refine ⟨stop, isStop, by omega, ?_⟩
        have index : stop.paragraph - (paragraph + 1) =
            (stop.paragraph - (paragraph + 1 + 1)) + 1 := by
          omega
        have last : LastCountsOff lowercase document paragraph (part :: next :: parts) ↔
              LastCountsOff lowercase document (paragraph + 1) (next :: parts) := by
          rw [LastCountsOff, LastCountsOff, List.getLast?_cons_cons, length_cons,
            ← Nat.add_assoc paragraph, Nat.add_right_comm paragraph]
        rw [last, ← covers, split, index, linesFrom, map_cons, drop_zero, same]
        exact cons_inj_right _

theorem compareNormalize_of_blank {s : Text} (blank : Blank s) :
    compareNormalize lowercase s = [] :=
  compareForm_of_blank foldsSpaces_foldSpaces blank

theorem blank_drop_rstrip (s : Text) : Blank (s.drop (rstripBy isSpace s).length) := by
  have dropped : (s.rdropWhile isSpace ++ s.rtakeWhile isSpace).drop
      (s.rdropWhile isSpace).length = s.rtakeWhile isSpace := drop_left
  rw [rdropWhile_append_rtakeWhile] at dropped
  rw [rstripBy, dropped]
  exact fun c member => mem_rtakeWhile_imp member

/-- **Backwards.** Blank lines before the anchor are covered. -/
theorem chainBackward_spec {paragraph : ℕ} (lines : before ≠ [])
    (blank : ∀ part ∈ before, Blank part)
    (chained : chainBackward lowercase document paragraph before = some firstStart) :
    ∃ start front, firstStart = some start ∧ start.paragraph + before.length = paragraph ∧
      front.map (compareNormalize lowercase) = before.reverse.map (compareNormalize lowercase) ∧
      ∀ further stop, linesFrom (document.drop start.paragraph) start.offset
          (before.length + further) stop =
        front ++ linesFrom (document.drop paragraph) 0 further stop := by
  induction before generalizing paragraph with
  | nil => exact absurd rfl lines
  | cons part parts ih =>
    cases paragraph with
    | zero => cases chained
    | succ paragraph =>
      rw [chainBackward] at chained
      cases found : document[paragraph]? with
      | none =>
        rw [found] at chained
        cases chained
      | some text =>
        have split := drop_eq_cons found
        rw [found] at chained
        cases parts with
        | nil =>
          obtain ⟨offset, matched, isStart⟩ :=
            Option.map_eq_some_iff.mp chained
          have partBlank := blank part mem_cons_self
          have isOffset : (rstripBy isSpace text).length = offset := by
            rw [matchesTail, strip_eq_nil_iff.mpr partBlank] at matched
            split_ifs at matched
            exact Option.some.inj matched
          have inside : offset ≤ text.length := by
            rw [← isOffset]
            exact (rstripBy_isPrefix _ _).length_le
          have start : goRight document paragraph offset = ⟨paragraph, offset⟩ := by
            rw [goRight, split, goRightIn_of_le inside]
          refine ⟨⟨paragraph, offset⟩, [text.drop offset], ?_, rfl, ?_, ?_⟩
          · rw [← isStart, start]
          · rw [map_singleton, reverse_singleton,
              map_singleton, compareNormalize_of_blank partBlank,
              ← isOffset,
              compareNormalize_of_blank (blank_drop_rstrip text)]
          · intro further stop
            rw [split, length_singleton, Nat.add_comm 1]
            rfl
        | cons next parts =>
          dsimp only at chained
          split_ifs at chained with matched
          have same := eq_of_beq matched
          obtain ⟨start, front, isStart, isBefore, covers, each⟩ :=
            ih (cons_ne_nil _ _) (fun other member =>
                blank other (mem_cons_of_mem _ member)) chained
          refine ⟨start, front ++ [text], isStart, ?_, ?_, ?_⟩
          · rw [← isBefore]
            rfl
          · have reversed : (part :: next :: parts).reverse = (next :: parts).reverse ++ [part] :=
              reverse_cons
            rw [map_append, covers, reversed, map_append, map_singleton, same, map_singleton]
          · intro further stop
            have later := each (further + 1) stop
            rw [split, linesFrom] at later
            rw [length_cons, Nat.add_right_comm, Nat.add_assoc, later, append_assoc]
            rfl

/-- A match lies in its paragraph and compares equal to the line. -/
structure ExactMatch (lowercase : Lowercase) (document : List Text)
    (anchor : Text) (found : Found) (text : Text) : Prop where
  paragraph : document[found.paragraph]? = some text
  ordered : found.start ≤ found.stop
  inside : found.stop ≤ text.length
  same : compareNormalize lowercase ((text.take found.stop).drop found.start) =
    compareNormalize lowercase anchor

/-- The match starts its paragraph when there are lines before the anchor, and
ends it when there are lines behind. -/
structure FillsParagraph (before after : List Text) (found : Found) (text : Text) : Prop where
  starts : before ≠ [] → Blank (text.take found.start)
  stops : after ≠ [] → Blank (text.drop found.stop)

theorem compareNormalize_around_iff {middle : Text} (visible : ¬ Blank anchor)
    (same : compareNormalize lowercase middle =
      compareNormalize lowercase anchor) (left right : Text) :
    compareNormalize lowercase (left ++ (middle ++ right)) =
      compareNormalize lowercase anchor ↔ Blank left ∧ Blank right := by
  rw [← same]
  apply compareForm_around_iff foldsSpaces_foldSpaces
  intro blank
  rw [compareNormalize_of_blank blank] at same
  have long := lowercase.length_le (strip (foldSpaces anchor))
  rw [compareNormalize, compareForm] at same
  rw [← same] at long
  apply visible
  rw [← foldsSpaces_foldSpaces.blank_iff, ← strip_eq_nil_iff]
  exact eq_nil_of_length_eq_zero (Nat.le_zero.mp long)

/-- **The anchor's line.** What the range holds of the anchor's paragraph is
the anchor exactly when the match fills the paragraph. -/
theorem anchorLine_iff (exact : ExactMatch lowercase document anchor found text)
    (visible : ¬ Blank anchor) :
    compareNormalize lowercase ((if after = [] then text.take found.stop else text).drop
          (if before = [] then found.start else 0)) =
      compareNormalize lowercase anchor ↔
      FillsParagraph before after found text := by
  have around := compareNormalize_around_iff visible exact.same
  have takes : text.take found.start ++
      (text.take found.stop).drop found.start = text.take found.stop := by
    have front := take_append_drop found.start (text.take found.stop)
    rwa [take_take, Nat.min_eq_left exact.ordered] at front
  have drops : (text.take found.stop).drop found.start ++
      text.drop found.stop = text.drop found.start := by
    have split := congrArg (List.drop found.start) (take_append_drop found.stop text)
    rwa [drop_append_of_le_length (by
      rw [length_take, Nat.min_eq_left exact.inside]
      exact exact.ordered)] at split
  by_cases first : before = []
  · by_cases last : after = []
    · rw [if_pos last, if_pos first]
      exact ⟨fun _ => ⟨absurd first, absurd last⟩, fun _ => exact.same⟩
    · rw [if_neg last, if_pos first, ← drops]
      have alone := around [] (text.drop found.stop)
      rw [nil_append] at alone
      rw [alone]
      exact ⟨fun blank => ⟨absurd first, fun _ => blank.2⟩, fun fills => ⟨nofun, fills.stops last⟩⟩
  · by_cases last : after = []
    · rw [if_pos last, if_neg first, drop_zero, ← takes]
      have alone := around (text.take found.start) []
      rw [append_nil] at alone
      rw [alone]
      exact ⟨fun blank => ⟨fun _ => blank.1, absurd last⟩, fun fills => ⟨fills.starts first, nofun⟩⟩
    · rw [if_neg last, if_neg first, drop_zero]
      have whole : text.take found.start ++
          ((text.take found.stop).drop found.start ++ text.drop found.stop) =
            text := by
        rw [drops, take_append_drop]
      have both := around (text.take found.start) (text.drop found.stop)
      rw [whole] at both
      rw [both]
      exact ⟨fun blank => ⟨fun _ => blank.1, fun _ => blank.2⟩,
        fun fills => ⟨fills.starts first, fills.stops last⟩⟩

theorem forward_lines (isText : document[found.paragraph]? = some text)
    (chained : chainForward lowercase document found.paragraph after = some lastEnd) :
    ∃ behind, found.paragraph ≤ (lastEnd.getD found.range.stop).paragraph ∧
      (∀ start, linesFrom (document.drop found.paragraph) start
          ((lastEnd.getD found.range.stop).paragraph - found.paragraph)
          (lastEnd.getD found.range.stop).offset =
        (if after = [] then text.take found.stop else text).drop start :: behind) ∧
      (behind.map (compareNormalize lowercase) = after.map (compareNormalize lowercase) ↔
        LastCountsOff lowercase document found.paragraph after) := by
  rw [drop_eq_cons isText]
  by_cases none : after = []
  · subst none
    cases chained
    refine ⟨[], le_rfl, fun start => ?_, fun _ => nofun, fun _ => rfl⟩
    rw [Option.getD_none, Found.range, Nat.sub_self, if_pos rfl, linesFrom]
  · obtain ⟨stop, rfl, further, covers⟩ := chainForward_spec none chained
    refine ⟨_, (Nat.le_succ _).trans further, fun start => ?_, covers⟩
    have index : stop.paragraph - found.paragraph =
        (stop.paragraph - (found.paragraph + 1)) + 1 := by
      omega
    rw [Option.getD_some, index, if_neg none, linesFrom]

theorem backward_lines (blank : ∀ part ∈ before, Blank part)
    (chained : chainBackward lowercase document found.paragraph before.reverse = some firstStart) :
    ∃ front, (firstStart.getD found.range.start).paragraph ≤ found.paragraph ∧
      front.map (compareNormalize lowercase) = before.map (compareNormalize lowercase) ∧
      ∀ further stop, linesFrom (document.drop (firstStart.getD found.range.start).paragraph)
          (firstStart.getD found.range.start).offset
          ((found.paragraph - (firstStart.getD found.range.start).paragraph) + further) stop =
        front ++ linesFrom (document.drop found.paragraph)
          (if before = [] then found.start else 0) further stop := by
  by_cases none : before = []
  · subst none
    rw [reverse_nil, chainBackward] at chained
    cases chained
    refine ⟨[], le_rfl, rfl, fun further stop => ?_⟩
    rw [Option.getD_none, Found.range, Nat.sub_self, Nat.zero_add]
    rfl
  · obtain ⟨start, front, rfl, isBefore, covers, each⟩ := chainBackward_spec
      (fun empty => none (reverse_eq_nil_iff.mp empty))
      (fun part member => blank part (mem_reverse.mp member)) chained
    rw [reverse_reverse] at covers
    refine ⟨front, ?_, covers, fun further stop => ?_⟩
    · rw [Option.getD_some]
      omega
    · rw [Option.getD_some, if_neg none, ← each further stop]
      congr 1
      omega

/-- The text of a range is the lines, as they are compared. -/
def Covers (lowercase : Lowercase) (document parts : List Text) (range : DocRange) : Prop :=
  (rangeLines document range).map (compareNormalize lowercase) =
    parts.map (compareNormalize lowercase)

/-- **One range.** A range that is chained from a match covers the lines
exactly when the match fills its paragraph and the last line is counted
off. -/
theorem covers_chainRange_iff {range : DocRange}
    (exact : ExactMatch lowercase document anchor found text)
    (visible : ¬ Blank anchor) (blank : ∀ part ∈ before, Blank part)
    (chained : chainRange lowercase document before after found = some range) :
    Covers lowercase document (before ++ anchor :: after) range ↔
      FillsParagraph before after found text ∧
        LastCountsOff lowercase document found.paragraph after := by
  rw [chainRange] at chained
  cases forwards : chainForward lowercase document found.paragraph after with
  | none =>
    rw [forwards] at chained
    cases chained
  | some lastEnd =>
    cases backwards : chainBackward lowercase document found.paragraph before.reverse with
    | none =>
      rw [forwards, backwards] at chained
      cases chained
    | some firstStart =>
      rw [forwards, backwards] at chained
      have isRange := Option.some.inj chained
      obtain ⟨behind, notBefore, lines, last⟩ :=
        forward_lines exact.paragraph forwards
      obtain ⟨front, notBehind, covers, each⟩ :=
        backward_lines blank backwards
      have index : (lastEnd.getD found.range.stop).paragraph -
          (firstStart.getD found.range.start).paragraph =
        (found.paragraph - (firstStart.getD found.range.start).paragraph) +
          ((lastEnd.getD found.range.stop).paragraph - found.paragraph) := by
        omega
      rw [Covers, ← isRange, rangeLines]
      rw [index, each, lines, map_append, map_append, covers, append_cancel_left_eq, map_cons,
        map_cons, cons_eq_cons, anchorLine_iff exact visible, last]

theorem splitAtAnchor_eq_some {parts : List Text}
    (split : splitAtAnchor parts = some (before, anchor, after)) :
    parts = before ++ anchor :: after ∧ (∀ part ∈ before, Blank part) ∧ ¬ Blank anchor := by
  rw [splitAtAnchor, span_eq_takeWhile_dropWhile] at split
  have whole := takeWhile_append_dropWhile (p := fun part => (strip part).isEmpty) (l := parts)
  cases rest : parts.dropWhile fun part => (strip part).isEmpty with
  | nil =>
    rw [rest] at split
    cases split
  | cons first others =>
    rw [rest] at split whole
    obtain ⟨rfl, same⟩ := Prod.mk.inj (Option.some.inj split)
    obtain ⟨rfl, rfl⟩ := Prod.mk.inj same
    refine ⟨whole.symm, fun part member => ?_, fun blank => ?_⟩
    · have empty := mem_takeWhile_imp member
      exact strip_eq_nil_iff.mp (isEmpty_iff.mp empty)
    · have kept := List.head?_dropWhile_not (fun part => (strip part).isEmpty) parts
      rw [rest] at kept
      simp [strip_eq_nil_iff.mpr blank] at kept

theorem mem_inPasses {α : Type} {allMatches : Bool} {pass : Bool → List α}
    {hit : α} (member : hit ∈ inPasses allMatches pass) :
    ∃ caseSensitive, hit ∈ pass caseSensitive := by
  rw [inPasses] at member
  split at member
  · exact ⟨false, mem_of_mem_take member⟩
  · exact ⟨true, mem_of_mem_take member⟩

/-- The search for the anchor returns exact matches within a paragraph. -/
def ExactSearch (lowercase : Lowercase) (search : LoSearch) (document parts : List Text) : Prop :=
  ∀ before anchor after, splitAtAnchor parts = some (before, anchor, after) →
    ∀ caseSensitive, ∀ found ∈ search caseSensitive (escapeForLoRegex anchor),
      ∃ text, ExactMatch lowercase document anchor found text

/-- A match fills its paragraph where the range goes on, and the last line is
counted off. -/
def MatchFits (lowercase : Lowercase) (document parts : List Text) (found : Found) : Prop :=
  ∀ before anchor after, splitAtAnchor parts = some (before, anchor, after) →
    (∀ text ∈ document[found.paragraph]?, FillsParagraph before after found text) ∧
    LastCountsOff lowercase document found.paragraph after

/-- **Chained ranges.** With an exact search every range that the chaining
returns is the searched text and nothing else exactly when every match that it
chains fits. -/
theorem chainedRanges_cover_iff {lowercase : Lowercase} {search : LoSearch}
    {document parts : List Text} (allMatches : Bool)
    (exact : ExactSearch lowercase search document parts) :
    (∀ range ∈ chainedRanges lowercase search document parts allMatches,
      Covers lowercase document parts range) ↔
    ∀ chained ∈ chainedMatches lowercase search document parts allMatches,
      MatchFits lowercase document parts chained.1 := by
  have each : ∀ chained ∈ chainedMatches lowercase search document parts allMatches,
      (Covers lowercase document parts chained.2 ↔
        MatchFits lowercase document parts chained.1) := by
    intro chained member
    rw [chainedMatches] at member
    split at member
    · cases member
    · cases split : splitAtAnchor parts with
      | none =>
        rw [split] at member
        cases member
      | some pieces =>
        obtain ⟨before, anchor, after⟩ := pieces
        rw [split] at member
        obtain ⟨whole, blank, visible⟩ := splitAtAnchor_eq_some split
        obtain ⟨caseSensitive, inPass⟩ := mem_inPasses member
        obtain ⟨found, isFound, made⟩ := mem_filterMap.mp inPass
        obtain ⟨range, isRange, rfl⟩ := Option.map_eq_some_iff.mp made
        obtain ⟨text, isExact⟩ :=
          exact before anchor after split caseSensitive found isFound
        have covers := covers_chainRange_iff isExact visible blank isRange
        rw [← whole] at covers
        rw [covers]
        constructor
        · intro fits others other rest same
          cases split.symm.trans same
          refine ⟨fun line isLine => ?_, fits.2⟩
          cases isExact.paragraph.symm.trans isLine
          exact fits.1
        · intro fits
          obtain ⟨fills, last⟩ := fits before anchor after split
          exact ⟨fills text isExact.paragraph, last⟩
  rw [chainedRanges, forall_mem_map]
  exact forall₂_congr each

end Lines

/-- A paragraph with more than the first line, and the second line. -/
def longerLine : List Text := ["foo baz".toList, "bar".toList]

def twoLines : List Text := ["foo".toList, "bar".toList]

/-- The search finds the first line at the start of the first paragraph. -/
def fooSearch : LoSearch := fun _ pattern =>
  if pattern = "foo".toList then [⟨0, 0, 3⟩] else []

theorem fooSearch_exact : ExactSearch .ascii fooSearch longerLine twoLines := by
  intro before anchor after split caseSensitive found isFound
  cases split
  have isMatch : found = ⟨0, 0, 3⟩ := mem_singleton.mp isFound
  subst isMatch
  exact ⟨"foo baz".toList, rfl, by decide, by decide, by decide +kernel⟩

theorem chainedRanges_cover_iff_longerLine :
    (∀ range ∈ chainedRanges .ascii fooSearch longerLine twoLines true,
      Covers .ascii longerLine twoLines range) ↔
    ∀ chained ∈ chainedMatches .ascii fooSearch longerLine twoLines true,
      MatchFits .ascii longerLine twoLines chained.1 :=
  chainedRanges_cover_iff true fooSearch_exact

/-- The range holds the rest of the first paragraph, too. -/
theorem longerLine_notCovered : ¬ ∀ (search : LoSearch)
    (document parts : List Text) (allMatches : Bool),
    ExactSearch .ascii search document parts →
      ∀ range ∈ chainedRanges .ascii search document parts allMatches,
        Covers .ascii document parts range := by
  intro covered
  have covers := covered fooSearch longerLine twoLines false fooSearch_exact
    ⟨⟨0, 0⟩, ⟨1, 3⟩⟩ (by decide +kernel)
  revert covers
  rw [Covers]
  decide +kernel

end WriterAgent.Writer
