import WriterAgent.Writer.Math.TexRegions

/-!
# The segments partition the fragment

The segments stand, in order, for spans that cover the fragment.
-/

namespace WriterAgent.Writer

open PyText List

variable {isDigit isWord : Char → Bool} {lower : Text → Text} {s : Text}

/-- A match of `</math\s*>` from one index to another. -/
def MathCloses (s : Text) (close stop : ℕ) : Prop :=
  ∃ length, mathCloseLength (s.drop close) = some length ∧ stop = close + length

/-- A `<math` tag with its end, and a close behind it. -/
structure MathElement (isWord : Char → Bool) (s : Text) (start tagStop close stop : ℕ) : Prop where
  opens : isMathOpen isWord (s.drop start) = true
  tag : tagEnd s start = some tagStop
  behind : tagStop < close
  closes : MathCloses s close stop

theorem tagEndLoop_eq_some {inSingle inDouble : Bool} {index tagStop : ℕ} {rest : Text}
    (found : tagEndLoop inSingle inDouble index rest = some tagStop) :
    index ≤ tagStop ∧ tagStop < index + rest.length := by
  induction rest generalizing inSingle inDouble index with
  | nil => cases found
  | cons c rest ih =>
    rw [tagEndLoop] at found
    rw [length_cons]
    split_ifs at found
    · have later := ih found
      omega
    · have later := ih found
      omega
    · cases found
      omega
    · have later := ih found
      omega

theorem tagEnd_eq_some {start tagStop : ℕ} (found : tagEnd s start = some tagStop) :
    start ≤ tagStop ∧ tagStop < s.length := by
  have bounds := tagEndLoop_eq_some found
  rw [length_drop] at bounds
  omega

theorem mathCloseLength_eq_some {rest : Text} {length : ℕ}
    (found : mathCloseLength rest = some length) :
    0 < length ∧ length ≤ rest.length := by
  obtain ⟨tail, starts, closes⟩ := Option.bind_eq_some_iff.mp found
  have total := stripStartFold_length starts
  have fewer := lstripBy_length_le isSpace tail
  split at closes
  · rename_i later stripped
    cases closes
    rw [stripped, length_cons] at fewer
    omega
  · cases closes

theorem MathElement.bounds {start tagStop close stop : ℕ}
    (element : MathElement isWord s start tagStop close stop) :
    start ≤ tagStop ∧ tagStop < close ∧ close < stop ∧ stop ≤ s.length := by
  obtain ⟨length, found, rfl⟩ := element.closes
  have first := tagEnd_eq_some element.tag
  have last := mathCloseLength_eq_some found
  rw [length_drop] at last
  exact ⟨first.1, element.behind, by omega, by omega⟩

/-- A TeX region opens at the index, between two others, and closes there. -/
def TexWithin (isDigit : Char → Bool) (s : Text) (start stop index : ℕ) :
    Prop :=
  start ≤ index ∧ ∃ delimiter close, TexOpens isDigit s index delimiter ∧
    index + delimiter.opening.length ≤ close ∧ TexCloses s delimiter close ∧
      close + delimiter.closing.length ≤ stop

/-- A `<math>` element lies between two indices. -/
def MathWithin (isWord : Char → Bool) (s : Text) (start stop : ℕ) : Prop :=
  ∃ first tagStop close last, start ≤ first ∧
    MathElement isWord s first tagStop close last ∧ last ≤ stop

/-- No math lies between two indices. -/
def HoldsNoMath (isDigit isWord : Char → Bool) (s : Text) (start stop : ℕ) :
    Prop :=
  (∀ index, ¬ TexWithin isDigit s start stop index) ∧ ¬ MathWithin isWord s start stop

/-- The tail from a `<math` whose tag or whose close is missing. -/
def UnclosedMath (isWord : Char → Bool) (s : Text) (start stop : ℕ) : Prop :=
  stop = s.length ∧ isMathOpen isWord (s.drop start) = true ∧
    ∀ tagStop close last, ¬ MathElement isWord s start tagStop close last

/-- The prose between two indices is the tail of an unclosed element, or holds
no math but what a second `$` opens. -/
def IsProse (isDigit isWord : Char → Bool) (s : Text) (start stop : ℕ) :
    Prop :=
  UnclosedMath isWord s start stop ∨ (∀ index, TexWithin isDigit s start stop index →
      SecondDollar isDigit s start index) ∧
    ¬ MathWithin isWord s start stop

theorem IsProse.of_none {start stop : ℕ} (noRegion : NoRegion isDigit s start stop)
    (noMath : ∀ index, start ≤ index → index < stop → isMathOpen isWord (s.drop index) = false) :
    IsProse isDigit isWord s start stop := by
  right
  constructor
  · rintro index ⟨above, delimiter, close, opens, behind, closes, inside⟩
    have positive := delimiter.opening_length.1
    apply noRegion index above (by omega) delimiter opens
    exact ⟨close, behind, closes⟩
  · rintro ⟨first, tagStop, close, last, above, element, inside⟩
    have bounds := element.bounds
    have opens := element.opens
    rw [noMath first above (by omega)] at opens
    cases opens

/-- The segments stand for the spans of the fragment from an index on. -/
inductive Segmented (isDigit isWord : Char → Bool) (lower : Text → Text)
    (isHtml : ℕ → ℕ → Prop) (s : Text) : ℕ → List MathSegment → Prop where
  | done : Segmented isDigit isWord lower isHtml s s.length []
  | html {start stop : ℕ} {later : List MathSegment} :
      start < stop → stop ≤ s.length → isHtml start stop →
      Segmented isDigit isWord lower isHtml s stop later →
      Segmented isDigit isWord lower isHtml s start (⟨.html, slice s start stop, false⟩ :: later)
  | math {start tagStop close stop : ℕ} {later : List MathSegment} :
      start < stop → stop ≤ s.length →
      MathElement isWord s start tagStop close stop →
      (∀ earlier last, tagStop < earlier → earlier < close → ¬ MathCloses s earlier last) →
      Segmented isDigit isWord lower isHtml s stop later →
      Segmented isDigit isWord lower isHtml s start
        (⟨.math, slice s start stop, displayBlockFromOpenTag isWord lower
          (slice s start (tagStop + 1))⟩ :: later)
  | tex {start stop : ℕ} {delimiter : TexDelimiter} {inner : Text}
      {later : List MathSegment} :
      start < stop → stop ≤ s.length →
      TexOpens isDigit s start delimiter →
      slice s start stop = delimiter.opening ++ (inner ++ delimiter.closing) →
      Segmented isDigit isWord lower isHtml s stop later →
      Segmented isDigit isWord lower isHtml s start (⟨.tex, inner, delimiter.displayBlock⟩ :: later)

theorem Segmented.single_html {isHtml : ℕ → ℕ → Prop} {position : ℕ}
    {text : Text}
    (segmented : Segmented isDigit isWord lower isHtml s position
      [⟨.html, text, false⟩]) : isHtml position s.length := by
  generalize isSegments : [(⟨.html, text, false⟩ : MathSegment)] = segments at segmented
  cases segmented with
  | done => cases isSegments
  | html _ _ isProse later =>
    obtain ⟨-, rfl⟩ := List.cons.inj isSegments
    cases later
    exact isProse
  | math _ _ _ _ _ | tex _ _ _ _ _ => cases (congrArg MathSegment.kind (List.cons.inj isSegments).1)

theorem Segmented.htmlBefore {isHtml : ℕ → ℕ → Prop} {position start : ℕ} {later : List MathSegment}
    (ordered : position ≤ start) (inside : start ≤ s.length) (isProse : isHtml position start)
    (segmented : Segmented isDigit isWord lower isHtml s start later) :
    Segmented isDigit isWord lower isHtml s position (htmlBefore s position start ++ later) := by
  rw [Writer.htmlBefore]
  split
  · next before => exact .html before inside isProse segmented
  · rename_i notBefore
    obtain rfl : position = start := by omega
    exact segmented

theorem searchMathOpen_eq_some {position start : ℕ}
    (found : searchMathOpen isWord s position = some start) :
    position ≤ start ∧ start < s.length ∧ isMathOpen isWord (s.drop start) = true ∧
        ∀ index, position ≤ index → index < start → isMathOpen isWord (s.drop index) = false := by
  obtain ⟨⟨index, _⟩, first, rfl⟩ := Option.map_eq_some_iff.mp found
  obtain ⟨above, below, opens, none⟩ := firstFrom_eq_some first
  refine ⟨above, below, ?_, fun earlier isAbove isBelow => ?_⟩
  · by_contra closed
    rw [if_neg closed] at opens
    cases opens
  · have absent := none earlier isAbove isBelow
    by_contra opened
    rw [if_pos (Bool.not_eq_false _ ▸ opened)] at absent
    cases absent

theorem searchMathOpen_eq_none {position : ℕ} (absent : searchMathOpen isWord s position = none) :
    ∀ index, position ≤ index → index < s.length → isMathOpen isWord (s.drop index) = false := by
  intro index above below
  have none := firstFrom_eq_none (Option.map_eq_none_iff.mp absent) index above below
  by_contra opened
  rw [if_pos (Bool.not_eq_false _ ▸ opened)] at none
  cases none

theorem mathSegment_cases {start : ℕ} (opens : isMathOpen isWord (s.drop start) = true) :
    mathSegment isWord lower s start = (htmlSegment (s.drop start), none) ∧
        UnclosedMath isWord s start s.length ∨
      ∃ tagStop close stop, mathSegment isWord lower s start =
            (⟨.math, slice s start stop, displayBlockFromOpenTag isWord lower
              (slice s start (tagStop + 1))⟩, some stop) ∧
          MathElement isWord s start tagStop close stop ∧
          ∀ earlier last, tagStop < earlier → earlier < close → ¬ MathCloses s earlier last := by
  cases tag : tagEnd s start with
  | none =>
    left
    refine ⟨by simp only [mathSegment, tag], rfl, opens, ?_⟩
    intro tagStop close last element
    have found := element.tag
    rw [tag] at found
    cases found
  | some tagStop =>
    cases closed : firstMathClose s (tagStop + 1) with
    | none =>
      left
      refine ⟨by simp only [mathSegment, tag, closed], rfl, opens, ?_⟩
      intro otherStop close last element
      have bounds := element.bounds
      have found := element.tag
      rw [tag] at found
      cases found
      obtain ⟨length, closes, -⟩ := element.closes
      rw [firstFrom_eq_none closed close element.behind (by omega)]
        at closes
      cases closes
    | some match_ =>
      obtain ⟨close, length⟩ := match_
      obtain ⟨behind, -, closes, none⟩ := firstFrom_eq_some closed
      right
      refine ⟨tagStop, close, close + length, by simp only [mathSegment, tag, closed],
        ⟨opens, tag, behind, length, closes, rfl⟩, ?_⟩
      rintro earlier last isBehind isBefore ⟨other, isClose, -⟩
      rw [none earlier isBehind isBefore] at isClose
      cases isClose

theorem nextIsland_cases (isDigit isWord : Char → Bool) (s : Text) (position : ℕ) :
    nextIsland isDigit isWord s position = .none ∧ IsProse isDigit isWord s position s.length ∨
      (∃ start, nextIsland isDigit isWord s position = .math start ∧
        position ≤ start ∧ start < s.length ∧ isMathOpen isWord (s.drop start) = true ∧
          IsProse isDigit isWord s position start) ∨
      ∃ region delimiter, nextIsland isDigit isWord s position = .tex region ∧
          FirstRegion isDigit s position region delimiter ∧
          IsProse isDigit isWord s position region.start := by
  cases math : searchMathOpen isWord s position with
  | none =>
    have noMath := searchMathOpen_eq_none math
    cases tex : nextCompleteTexRegion isDigit s position with
    | none =>
      left
      exact ⟨by simp only [nextIsland, math, tex],
        .of_none (nextCompleteTexRegion_eq_none tex) noMath⟩
    | some region =>
      obtain ⟨delimiter, first⟩ := nextCompleteTexRegion_eq_some tex
      have span := first.span
      right; right
      refine ⟨region, delimiter, by simp only [nextIsland, math, tex], first,
        .of_none first.first fun index above below => ?_⟩
      exact noMath index above (by omega)
  | some start =>
    obtain ⟨above, inside, opens, noMath⟩ := searchMathOpen_eq_some math
    cases tex : nextCompleteTexRegion isDigit s position with
    | none =>
      right; left
      refine ⟨start, by simp only [nextIsland, math, tex], above, inside,
        opens, .of_none (fun index isAbove isBelow => ?_) noMath⟩
      exact nextCompleteTexRegion_eq_none tex index isAbove (by omega)
    | some region =>
      obtain ⟨delimiter, first⟩ := nextCompleteTexRegion_eq_some tex
      right
      by_cases earlier : start ≤ region.start
      · left
        refine ⟨start, by simp only [nextIsland, math, tex, earlier, if_true], above, inside, opens,
          .of_none (fun index isAbove isBelow => ?_) noMath⟩
        exact first.first index isAbove (by omega)
      · right
        refine ⟨region, delimiter, by simp only [nextIsland, math, tex, earlier, if_false], first,
          .of_none first.first fun index isAbove isBelow => ?_⟩
        exact noMath index isAbove (by omega)

/-- **Scan.** The loop ends, and its segments partition the text from the
position on. -/
theorem segmentLoop_spec (isDigit isWord : Char → Bool) (lower : Text → Text) (s : Text)
    {fuel position : ℕ} (inside : position ≤ s.length) (enough : s.length < position + fuel) :
    ∃ segments, segmentLoop isDigit isWord lower s fuel position = some segments ∧
        Segmented isDigit isWord lower (IsProse isDigit isWord s) s position
          segments := by
  induction fuel generalizing position with
  | zero => omega
  | succ fuel ih =>
    rw [segmentLoop]
    split
    · rename_i before
      rcases nextIsland_cases isDigit isWord s position with
        ⟨island, prose⟩ | ⟨start, island, above, below, opens, prose⟩ |
          ⟨region, delimiter, island, first, prose⟩
      · simp only [island]
        refine ⟨_, rfl, ?_⟩
        rw [← slice_to_end]
        exact .html before le_rfl prose .done
      · simp only [island]
        rcases @mathSegment_cases isWord lower s start opens with
          ⟨segment, unclosed⟩ | ⟨tagStop, close, stop, segment, element, none⟩
        · simp only [segment]
          refine ⟨_, rfl, ?_⟩
          apply Segmented.htmlBefore above below.le prose
          rw [← slice_to_end]
          exact .html below le_rfl (.inl unclosed) .done
        · have bounds := element.bounds
          obtain ⟨later, loop, segmented⟩ :=
            @ih stop bounds.2.2.2 (by omega)
          simp only [segment, loop]
          refine ⟨_, rfl, ?_⟩
          apply Segmented.htmlBefore above below.le prose
          exact .math (by omega) bounds.2.2.2 element none segmented
      · obtain ⟨ordered, isInside, span⟩ := first.span
        have above := first.above
        obtain ⟨later, loop, segmented⟩ :=
          @ih region.stop isInside (by omega)
        simp only [island, loop]
        refine ⟨_, rfl, ?_⟩
        apply Segmented.htmlBefore above (by omega) prose
        rw [first.displayBlock]
        exact .tex ordered isInside first.opens span segmented
    · rename_i behind
      obtain rfl : position = s.length := by omega
      exact ⟨[], rfl, .done⟩

theorem containsDollarLoop_of_opens {start index : ℕ}
    (opens : TexOpens isDigit s index .dollar) (above : start ≤ index) :
    containsDollarLoop isDigit s start (s.drop start) = true := by
  have inText := opens.inText
  have positive := TexDelimiter.dollar.opening_length.1
  generalize isRest : s.drop start = rest
  induction rest generalizing start with
  | nil =>
    rw [drop_eq_nil_iff] at isRest
    omega
  | cons c rest ih =>
    obtain ⟨behind, -⟩ := drop_eq_cons isRest
    rw [containsDollarLoop]
    rcases Nat.eq_or_lt_of_le above with rfl | strictly
    · obtain ⟨tail, whole⟩ := opens.opening
      rw [isRest] at whole
      have isDollar : c = '$' := (List.cons.inj whole).1.symm
      have currency := opens.currency rfl
      rw [behind] at currency
      rw [if_neg (not_not_intro isDollar), opens.unescaped, currency]
      simp
    · have later := ih (Nat.succ_le_of_lt strictly) behind
      split_ifs
      · exact later
      · exact later
      · rfl
      · exact later
      · rfl

theorem containsMixedMath_of_opens {index : ℕ} {delimiter : TexDelimiter}
    (opens : TexOpens isDigit s index delimiter) :
    htmlFragmentContainsMixedMath isDigit isWord s = true := by
  have inText : delimiter.opening <:+: s :=
    opens.opening.isInfix.trans (drop_suffix index s).isInfix
  have texMath : htmlFragmentContainsTexMath isDigit s = true := by
    simp only [htmlFragmentContainsTexMath, Bool.or_eq_true]
    cases delimiter with
    | dollars => exact .inl (.inl (.inl (hasText_iff.mpr inText)))
    | bracket => exact .inl (.inl (.inr (hasText_iff.mpr inText)))
    | paren => exact .inl (.inr (hasText_iff.mpr inText))
    | dollar => exact .inr (containsDollarLoop_of_opens opens (Nat.zero_le index))
  rw [htmlFragmentContainsMixedMath, texMath, Bool.or_true]

theorem Segmented.containsMixedMath {isHtml : ℕ → ℕ → Prop} {position : ℕ}
    {segments : List MathSegment}
    (segmented : Segmented isDigit isWord lower isHtml s position segments)
    (found : ∃ segment ∈ segments, segment.kind ≠ .html) :
    htmlFragmentContainsMixedMath isDigit isWord s = true := by
  induction segmented with
  | done =>
    obtain ⟨segment, member, -⟩ := found
    cases member
  | html _ _ _ _ ih =>
    obtain ⟨segment, member, isMath⟩ := found
    rcases mem_cons.mp member with rfl | later
    · exact absurd rfl isMath
    · exact ih ⟨segment, later, isMath⟩
  | @math start tagStop close stop later _ _ element _ _ _ =>
    have mathml : htmlFragmentContainsMathml isWord s = true :=
      searchText_iff.mpr ⟨s.drop start, drop_suffix start s, element.opens⟩
    rw [htmlFragmentContainsMixedMath, mathml, Bool.true_or]
  | tex _ _ opens _ _ _ => exact containsMixedMath_of_opens opens

/-- **Segments.** Every fragment is split into segments that partition it, its
prose holds no complete math but for the two exceptions of `IsProse`, and the
fast check finds every fragment with math. -/
theorem segmentHtmlWithMixedMath_lossless (isDigit isWord : Char → Bool)
    (lower : Text → Text) (fragment : Text) :
    ∃ segments, segmentHtmlWithMixedMath isDigit isWord lower fragment = some segments ∧
        Segmented isDigit isWord lower (IsProse isDigit isWord fragment) fragment 0 segments ∧
        ((∀ segment ∈ segments, segment.kind = .html) ∨
          htmlFragmentContainsMixedMath isDigit isWord fragment = true) := by
  have scanned : ∃ segments,
      segmentHtmlWithMixedMath isDigit isWord lower fragment = some segments ∧
        Segmented isDigit isWord lower (IsProse isDigit isWord fragment) fragment 0 segments := by
    rw [segmentHtmlWithMixedMath]
    split
    · rename_i empty
      rw [List.isEmpty_iff] at empty
      subst empty
      exact ⟨[], rfl, .done⟩
    · exact segmentLoop_spec isDigit isWord lower fragment (Nat.zero_le _) (by omega)
  obtain ⟨segments, split, segmented⟩ := scanned
  refine ⟨segments, split, segmented, ?_⟩
  by_cases math : ∃ segment ∈ segments, segment.kind ≠ .html
  · exact .inr (segmented.containsMixedMath math)
  · left
    push Not at math
    exact math

/-- The second `$` of a `$$` that is not closed opens a complete region, which
stays in the prose. -/
theorem not_holdsNoMath_secondDollar :
    ¬ ∀ (isDigit isWord : Char → Bool) (lower : Text → Text) (fragment : Text),
      ∃ segments, segmentHtmlWithMixedMath isDigit isWord lower fragment = some segments ∧
          Segmented isDigit isWord lower (HoldsNoMath isDigit isWord fragment)
            fragment 0 segments := by
  intro lossless
  let isWord : Char → Bool := fun c => isAsciiLetter c || isAsciiDigit c
  obtain ⟨segments, split, segmented⟩ :=
    lossless isAsciiDigit isWord id "$$a$".toList
  cases split
  have clean := segmented.single_html
  apply clean.1 1
  refine ⟨Nat.zero_le _, .dollar, 3, ?_, by decide, ⟨by decide, ?_⟩, by decide⟩
  · exact ⟨by decide, ⟨['a', '$'], rfl⟩, fun _ => by decide, fun _ => by decide⟩
  · exact ⟨[], rfl⟩

end WriterAgent.Writer
