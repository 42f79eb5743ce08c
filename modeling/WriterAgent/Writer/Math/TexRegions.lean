import WriterAgent.Foundations.EditScript
import WriterAgent.Foundations.TextScan

/-!
# Segments of HTML with math

`plugin/writer/math/html_math_segment.py`: an HTML fragment is split into prose,
`<math>` elements and TeX regions.  `str.isdigit`, the word characters of `\b` and
`str.lower` are parameters.
-/

namespace WriterAgent.Writer

open PyText

inductive SegmentKind where
  | html
  | math
  | tex
  deriving DecidableEq, Repr

structure MathSegment where
  kind : SegmentKind
  text : Text
  displayBlock : Bool
  deriving DecidableEq, Repr

/-- The delimiters `$$`, `\[`, `\(` and `$`. -/
inductive TexDelimiter where
  | dollars
  | bracket
  | paren
  | dollar
  deriving DecidableEq, Repr

namespace TexDelimiter

def opening : TexDelimiter → Text
  | dollars => ['$', '$']
  | bracket => ['\\', '[']
  | paren => ['\\', '(']
  | dollar => ['$']

def closing : TexDelimiter → Text
  | dollars => ['$', '$']
  | bracket => ['\\', ']']
  | paren => ['\\', ')']
  | dollar => ['$']

def displayBlock : TexDelimiter → Bool
  | dollars => true
  | bracket => true
  | paren => false
  | dollar => false

end TexDelimiter

def precedingBackslashes (s : Text) (index : ℕ) : ℕ :=
  ((s.take index).reverse.takeWhile (· == '\\')).length

def isEscaped (s : Text) (index : ℕ) : Bool :=
  precedingBackslashes s index % 2 == 1

/-- The opener that `_scan_next_tex_open` sees at an index, given the text from
there; a `$` before a digit is currency. -/
def texOpenAt (isDigit : Char → Bool) (s : Text) (index : ℕ) (rest : Text) : Option TexDelimiter :=
  if isEscaped s index then none
  else if TexDelimiter.dollars.opening.isPrefixOf rest then some .dollars
  else if TexDelimiter.bracket.opening.isPrefixOf rest then some .bracket
  else if TexDelimiter.paren.opening.isPrefixOf rest then some .paren
  else if TexDelimiter.dollar.opening.isPrefixOf rest then
    if rest.tail.head?.any isDigit then none else some .dollar
  else none

def scanNextTexOpen (isDigit : Char → Bool) (s : Text) (position : ℕ) : Option (ℕ × TexDelimiter) :=
  firstFrom (texOpenAt isDigit s) position (s.drop position)

def texCloseAt (s : Text) (delimiter : TexDelimiter) (index : ℕ) (rest : Text) : Option Unit :=
  if delimiter.closing.isPrefixOf rest && !isEscaped s index then some ()
  else none

/-- `_try_close_tex`: the end of the region and its inner text. -/
def tryCloseTex (s : Text) (openStart : ℕ) (delimiter : TexDelimiter) : Option (ℕ × Text) :=
  let bodyStart := openStart + delimiter.opening.length
  (firstFrom (texCloseAt s delimiter) bodyStart (s.drop bodyStart)).map fun (index, _) =>
      (index + delimiter.closing.length, slice s bodyStart index)

structure TexRegion where
  start : ℕ
  stop : ℕ
  inner : Text
  displayBlock : Bool
  deriving DecidableEq, Repr

/-- The loop of `_next_complete_tex_region`.  An opener without a closer is
skipped with all its characters. -/
def texRegionLoop (isDigit : Char → Bool) (s : Text) : ℕ → ℕ → Option TexRegion
  | 0, _ => none
  | fuel + 1, position =>
    match scanNextTexOpen isDigit s position with
    | none => none
    | some (openStart, delimiter) =>
      match tryCloseTex s openStart delimiter with
      | some (stop, inner) => some ⟨openStart, stop, inner, delimiter.displayBlock⟩
      | none => texRegionLoop isDigit s fuel (openStart + delimiter.opening.length)

def nextCompleteTexRegion (isDigit : Char → Bool) (s : Text) (position : ℕ) : Option TexRegion :=
  texRegionLoop isDigit s (s.length + 1) position

/-- `_MATH_OPEN_RE` matches at the start of the text. -/
def isMathOpen (isWord : Char → Bool) (rest : Text) : Bool :=
  (stripStartFold "<math".toList rest).any fun tail =>
    !tail.head?.any isWord

/-- The length of the match of `_MATH_CLOSE_RE` at the start of the text. -/
def mathCloseLength (rest : Text) : Option ℕ :=
  (stripStartFold "</math".toList rest).bind fun tail =>
    match lstripBy isSpace tail with
    | '>' :: later => some (rest.length - later.length)
    | _ => none

def searchMathOpen (isWord : Char → Bool) (s : Text) (position : ℕ) : Option ℕ :=
  (firstFrom (fun _ rest => if isMathOpen isWord rest then some () else none)
    position (s.drop position)).map (·.1)

/-- `_first_math_close`: where the match starts, and its length. -/
def firstMathClose (s : Text) (start : ℕ) : Option (ℕ × ℕ) :=
  firstFrom (fun _ => mathCloseLength) start (s.drop start)

/-- The loop of `_tag_end`. -/
def tagEndLoop : Bool → Bool → ℕ → Text → Option ℕ
  | _, _, _, [] => none
  | inSingle, inDouble, index, c :: rest =>
    if c = '\'' ∧ inDouble = false then
      tagEndLoop (!inSingle) inDouble (index + 1) rest
    else if c = '"' ∧ inSingle = false then
      tagEndLoop inSingle (!inDouble) (index + 1) rest
    else if c = '>' ∧ inSingle = false ∧ inDouble = false then some index
    else tagEndLoop inSingle inDouble (index + 1) rest

def tagEnd (s : Text) (start : ℕ) : Option ℕ :=
  tagEndLoop false false start (s.drop start)

/-- `name\s*=\s*(['"])(.*?)\1` at the start of the text, with its value. -/
def attributeAt (name rest : Text) : Option Text :=
  (stripStartFold name rest).bind fun tail =>
    match lstripBy isSpace tail with
    | '=' :: later =>
      match lstripBy isSpace later with
      | quote :: body =>
        if (quote = '\'' ∨ quote = '"') ∧ quote ∈ body then
          some (body.takeWhile (· != quote))
        else none
      | [] => none
    | _ => none

def searchAttribute (isWord : Char → Bool) (name : Text) : Option Char → Text → Option Text
  | _, [] => none
  | before, c :: rest =>
    let found :=
      if before.any isWord = isWord c then none
      else attributeAt name (c :: rest)
    match found with
    | some value => some value
    | none => searchAttribute isWord name (some c) rest

def displayBlockFromOpenTag (isWord : Char → Bool) (lower : Text → Text) (openTag : Text) : Bool :=
  let valueOf name := (searchAttribute isWord name none openTag).map
    fun value => lower (strip value)
  let display := valueOf "display".toList
  if display = some "block".toList then true
  else if display = some "inline".toList then false
  else if valueOf "mode".toList = some "display".toList then true
  else false

/-- What comes next behind a position. -/
inductive Island where
  | none
  | math (start : ℕ)
  | tex (region : TexRegion)
  deriving DecidableEq, Repr

section Scan

variable (isDigit isWord : Char → Bool) (lower : Text → Text)

def nextIsland (s : Text) (position : ℕ) : Island :=
  match searchMathOpen isWord s position, nextCompleteTexRegion isDigit s position with
  | none, none => .none
  | some mathStart, none => .math mathStart
  | none, some region => .tex region
  | some mathStart, some region => if mathStart ≤ region.start then .math mathStart else .tex region

def htmlSegment (text : Text) : MathSegment := ⟨.html, text, false⟩

def htmlBefore (s : Text) (position start : ℕ) : List MathSegment :=
  if position < start then [htmlSegment (slice s position start)] else []

/-- The segment from a `<math`, and where the scan goes on; an element that is
not closed takes the whole tail as prose. -/
def mathSegment (s : Text) (openStart : ℕ) : MathSegment × Option ℕ :=
  match tagEnd s openStart with
  | none => (htmlSegment (s.drop openStart), none)
  | some closing =>
    match firstMathClose s (closing + 1) with
    | none => (htmlSegment (s.drop openStart), none)
    | some (closeStart, length) =>
      let openTag := slice s openStart (closing + 1)
      (⟨.math, slice s openStart (closeStart + length),
        displayBlockFromOpenTag isWord lower openTag⟩,
        some (closeStart + length))

/-- The loop of `segment_html_with_mixed_math`; none when it is cut off. -/
def segmentLoop (s : Text) : ℕ → ℕ → Option (List MathSegment)
  | 0, _ => none
  | fuel + 1, position =>
    if position < s.length then
      match nextIsland isDigit isWord s position with
      | .none => some [htmlSegment (s.drop position)]
      | .math start =>
        match mathSegment isWord lower s start with
        | (segment, none) => some (htmlBefore s position start ++ [segment])
        | (segment, some next) =>
          (segmentLoop s fuel next).map fun later =>
            htmlBefore s position start ++ segment :: later
      | .tex region =>
        (segmentLoop s fuel region.stop).map fun later =>
          htmlBefore s position region.start ++ ⟨.tex, region.inner, region.displayBlock⟩ :: later
    else some []

def segmentHtmlWithMixedMath (fragment : Text) : Option (List MathSegment) :=
  if fragment.isEmpty then some []
  else segmentLoop isDigit isWord lower fragment (fragment.length + 1) 0

end Scan

def htmlFragmentContainsMathml (isWord : Char → Bool) (fragment : Text) :
    Bool :=
  searchText (isMathOpen isWord) fragment

/-- The loop of `html_fragment_contains_tex_math` over the `$` characters. -/
def containsDollarLoop (isDigit : Char → Bool) (s : Text) : ℕ → Text → Bool
  | _, [] => false
  | index, c :: rest =>
    if c ≠ '$' then containsDollarLoop isDigit s (index + 1) rest
    else if isEscaped s index then containsDollarLoop isDigit s (index + 1) rest
    else if rest.head? = some '$' then true
    else if rest.head?.any isDigit then
      containsDollarLoop isDigit s (index + 1) rest
    else true

def htmlFragmentContainsTexMath (isDigit : Char → Bool) (fragment : Text) :
    Bool :=
  hasText ['$', '$'] fragment || hasText ['\\', '['] fragment ||
    hasText ['\\', '('] fragment || containsDollarLoop isDigit fragment 0 fragment

def htmlFragmentContainsMixedMath (isDigit isWord : Char → Bool) (fragment : Text) : Bool :=
  htmlFragmentContainsMathml isWord fragment || htmlFragmentContainsTexMath isDigit fragment

end WriterAgent.Writer

/-!
## Complete TeX regions

An opener that is neither escaped nor currency starts a region when a closer
that is not escaped stands behind it.  The scan finds the first such opener.
-/

namespace WriterAgent.Writer

open PyText

/-- An opener stands at the index. -/
structure TexOpens (isDigit : Char → Bool) (s : Text) (index : ℕ)
    (delimiter : TexDelimiter) : Prop where
  unescaped : isEscaped s index = false
  opening : delimiter.opening <+: s.drop index
  single : delimiter = .dollar → ¬ TexDelimiter.dollars.opening <+: s.drop index
  currency : delimiter = .dollar → (s.drop (index + 1)).head?.any isDigit = false

/-- A closer stands at the index. -/
structure TexCloses (s : Text) (delimiter : TexDelimiter) (index : ℕ) : Prop where
  unescaped : isEscaped s index = false
  closing : delimiter.closing <+: s.drop index

/-- The opener at the index has a closer behind it. -/
def TexCompletes (s : Text) (index : ℕ) (delimiter : TexDelimiter) : Prop :=
  ∃ close, index + delimiter.opening.length ≤ close ∧ TexCloses s delimiter close

/-- The index is that of the second `$` of a `$$` that is not closed and does
not start before the position. -/
def SecondDollar (isDigit : Char → Bool) (s : Text) (position index : ℕ) :
    Prop :=
  ∃ opener, position ≤ opener ∧ index = opener + 1 ∧
    TexOpens isDigit s opener .dollars ∧ ¬ TexCompletes s opener .dollars

variable {delimiter first second : TexDelimiter} {region : TexRegion}

namespace TexDelimiter

theorem opening_length (delimiter : TexDelimiter) :
    0 < delimiter.opening.length ∧ delimiter.opening.length ≤ 2 := by
  cases delimiter <;> decide

theorem closing_length (delimiter : TexDelimiter) :
    delimiter.closing.length = delimiter.opening.length := by
  cases delimiter <;> rfl

end TexDelimiter

variable {isDigit : Char → Bool} {s : Text} {index : ℕ}

theorem texOpenAt_eq_some_iff :
    texOpenAt isDigit s index (s.drop index) = some delimiter ↔
      TexOpens isDigit s index delimiter := by
  have behind : s.drop (index + 1) = (s.drop index).tail := List.tail_drop.symm
  constructor
  · intro found
    rw [texOpenAt] at found
    split at found
    · cases found
    · rename_i unescaped
      rw [Bool.not_eq_true] at unescaped
      split_ifs at found
      · rename_i opening
        cases found
        exact ⟨unescaped, List.isPrefixOf_iff_prefix.mp opening, nofun,
          nofun⟩
      · rename_i opening
        cases found
        exact ⟨unescaped, List.isPrefixOf_iff_prefix.mp opening, nofun,
          nofun⟩
      · rename_i opening
        cases found
        exact ⟨unescaped, List.isPrefixOf_iff_prefix.mp opening,
          nofun, nofun⟩
      · rename_i single _ _ opening noCurrency
        cases found
        rw [List.isPrefixOf_iff_prefix] at single
        rw [Bool.not_eq_true] at noCurrency
        exact ⟨unescaped, List.isPrefixOf_iff_prefix.mp opening,
          fun _ => single, fun _ => behind ▸ noCurrency⟩
  · rintro ⟨unescaped, opening, single, currency⟩
    rw [behind] at currency
    rw [texOpenAt, unescaped]
    obtain ⟨tail, whole⟩ := opening
    rw [← whole] at single currency ⊢
    cases delimiter with
    | dollars | bracket | paren => rfl
    | dollar =>
      have notDollars : TexDelimiter.dollars.opening.isPrefixOf
          (TexDelimiter.dollar.opening ++ tail) = false := by
        rw [Bool.eq_false_iff, Ne, List.isPrefixOf_iff_prefix]
        exact single rfl
      rw [notDollars]
      have noDigit := currency rfl
      simp only [TexDelimiter.opening, List.cons_append, List.nil_append,
        List.tail_cons] at noDigit ⊢
      simp [List.isPrefixOf, noDigit]

theorem TexOpens.unique (one : TexOpens isDigit s index first)
    (other : TexOpens isDigit s index second) : first = second := by
  have found := texOpenAt_eq_some_iff.mpr one
  rw [texOpenAt_eq_some_iff.mpr other] at found
  exact (Option.some.inj found).symm

theorem TexOpens.inside (one : TexOpens isDigit s index first) (length : first.opening.length = 2)
    (other : TexOpens isDigit s (index + 1) second) :
    first = .dollars ∧ (second = .dollars ∨ second = .dollar) := by
  obtain ⟨tail, whole⟩ := one.opening
  have opening := other.opening
  rw [← List.tail_drop, ← whole] at opening
  cases first with
  | dollars =>
    refine ⟨rfl, ?_⟩
    cases second with
    | dollars => exact .inl rfl
    | dollar => exact .inr rfl
    | bracket | paren => simp [TexDelimiter.opening] at opening
  | bracket | paren => cases second <;> simp [TexDelimiter.opening] at opening
  | dollar => cases length

theorem scanNextTexOpen_eq_some {position index : ℕ}
    (scanned : scanNextTexOpen isDigit s position = some (index, delimiter)) :
    position ≤ index ∧ index < s.length ∧ TexOpens isDigit s index delimiter ∧
      ∀ earlier, position ≤ earlier → earlier < index → ∀ other,
        ¬ TexOpens isDigit s earlier other := by
  obtain ⟨above, below, opens, none⟩ := firstFrom_eq_some scanned
  refine ⟨above, below, texOpenAt_eq_some_iff.mp opens, ?_⟩
  intro earlier isAbove isBelow other isOpener
  have absent := none earlier isAbove isBelow
  rw [texOpenAt_eq_some_iff.mpr isOpener] at absent
  cases absent

theorem TexOpens.inText (opens : TexOpens isDigit s index delimiter) :
    index + delimiter.opening.length ≤ s.length := by
  have length := opens.opening.length_le
  rw [List.length_drop] at length
  have positive := delimiter.opening_length.1
  omega

variable {position : ℕ}

theorem scanNextTexOpen_eq_none (scanned : scanNextTexOpen isDigit s position = none) :
    ∀ index, position ≤ index → ∀ delimiter, ¬ TexOpens isDigit s index delimiter := by
  intro index above delimiter opens
  have inText := opens.inText
  have positive := delimiter.opening_length.1
  have absent := firstFrom_eq_none scanned index above (by omega)
  rw [texOpenAt_eq_some_iff.mpr opens] at absent
  cases absent

theorem texCloseAt_eq_some_iff : texCloseAt s delimiter index (s.drop index) = some () ↔
      TexCloses s delimiter index := by
  rw [texCloseAt]
  split
  · rename_i holds
    rw [Bool.and_eq_true, Bool.not_eq_true', List.isPrefixOf_iff_prefix] at holds
    exact ⟨fun _ => ⟨holds.2, holds.1⟩, fun _ => rfl⟩
  · rename_i fails
    rw [Bool.and_eq_true, Bool.not_eq_true', List.isPrefixOf_iff_prefix] at fails
    exact ⟨nofun, fun closes => absurd ⟨closes.2, closes.1⟩ fails⟩

theorem tryCloseTex_eq_some {openStart stop : ℕ} {inner : Text}
    (closed : tryCloseTex s openStart delimiter = some (stop, inner)) :
    ∃ close, openStart + delimiter.opening.length ≤ close ∧
      TexCloses s delimiter close ∧ stop = close + delimiter.closing.length ∧
        inner = slice s (openStart + delimiter.opening.length) close ∧
        ∀ earlier, openStart + delimiter.opening.length ≤ earlier →
          TexCloses s delimiter earlier → close ≤ earlier := by
  obtain ⟨⟨close, _⟩, first, same⟩ := Option.map_eq_some_iff.mp closed
  cases same
  obtain ⟨above, below, closes, none⟩ := firstFrom_eq_some first
  refine ⟨close, above, texCloseAt_eq_some_iff.mp closes, rfl, rfl, ?_⟩
  intro earlier isAbove isCloser
  by_contra isBelow
  have absent := none earlier isAbove (not_le.mp isBelow)
  rw [texCloseAt_eq_some_iff.mpr isCloser] at absent
  cases absent

theorem tryCloseTex_eq_none {openStart : ℕ} (unclosed : tryCloseTex s openStart delimiter = none) :
    ¬ TexCompletes s openStart delimiter := by
  rintro ⟨close, above, closes⟩
  have none := Option.map_eq_none_iff.mp unclosed
  have length := closes.closing.length_le
  rw [List.length_drop, delimiter.closing_length] at length
  have positive := delimiter.opening_length.1
  have absent := firstFrom_eq_none none close above (by omega)
  rw [texCloseAt_eq_some_iff.mpr closes] at absent
  cases absent

/-- From the position up to the limit, only a second `$` opens a region. -/
def NoRegion (isDigit : Char → Bool) (s : Text) (position limit : ℕ) : Prop :=
  ∀ index, position ≤ index → index < limit → ∀ delimiter,
    TexOpens isDigit s index delimiter → TexCompletes s index delimiter →
      SecondDollar isDigit s position index

theorem NoRegion.skip {position index limit : ℕ} {delimiter : TexDelimiter}
    (scanned : scanNextTexOpen isDigit s position = some (index, delimiter))
    (unclosed : ¬ TexCompletes s index delimiter)
    (later : NoRegion isDigit s (index + delimiter.opening.length) limit) :
    NoRegion isDigit s position limit := by
  obtain ⟨above, -, opens, none⟩ := scanNextTexOpen_eq_some scanned
  intro other isAbove isBelow second isOpener completes
  rcases lt_trichotomy other index with before | rfl | behind
  · exact absurd isOpener (none other isAbove before second)
  · rw [isOpener.unique opens] at completes
    exact absurd completes unclosed
  · by_cases outside : index + delimiter.opening.length ≤ other
    · obtain ⟨opener, isBehind, same, isDollars, isUnclosed⟩ :=
        later other outside isBelow second isOpener completes
      exact ⟨opener, by omega, same, isDollars, isUnclosed⟩
    · obtain ⟨-, short⟩ := delimiter.opening_length
      obtain rfl : other = index + 1 := by omega
      obtain ⟨rfl, isSecond⟩ := opens.inside (by omega) isOpener
      rcases isSecond with rfl | rfl
      · obtain ⟨close, isBehind, closes⟩ := completes
        exact absurd ⟨close, by omega, closes⟩ unclosed
      · exact ⟨index, above, rfl, opens, unclosed⟩

/-- What the scan for a region has found: its delimiter, and no region in front
of it. -/
structure FirstRegion (isDigit : Char → Bool) (s : Text) (position : ℕ)
    (region : TexRegion) (delimiter : TexDelimiter) : Prop where
  above : position ≤ region.start
  opens : TexOpens isDigit s region.start delimiter
  closed : tryCloseTex s region.start delimiter = some (region.stop, region.inner)
  displayBlock : region.displayBlock = delimiter.displayBlock
  first : NoRegion isDigit s position region.start

theorem texRegionLoop_spec {fuel position : ℕ} (enough : s.length < position + fuel) :
    (∀ region, texRegionLoop isDigit s fuel position = some region →
      ∃ delimiter, FirstRegion isDigit s position region delimiter) ∧
      (texRegionLoop isDigit s fuel position = none → NoRegion isDigit s position s.length) := by
  induction fuel generalizing position with
  | zero =>
    refine ⟨nofun, fun _ index above below => ?_⟩
    omega
  | succ fuel ih =>
    rw [texRegionLoop]
    cases scanned : scanNextTexOpen isDigit s position with
    | none =>
      refine ⟨nofun, fun _ index above _ delimiter opens => ?_⟩
      exact absurd opens (scanNextTexOpen_eq_none scanned index above delimiter)
    | some opener =>
      obtain ⟨openStart, delimiter⟩ := opener
      obtain ⟨above, -, opens, none⟩ := scanNextTexOpen_eq_some scanned
      cases closed : tryCloseTex s openStart delimiter with
      | some close =>
        simp only [closed]
        refine ⟨fun region found => ?_, nofun⟩
        cases found
        refine ⟨delimiter, above, opens, closed, rfl, ?_⟩
        intro index isAbove isBelow other isOpener
        exact absurd isOpener (none index isAbove isBelow other)
      | none =>
        simp only [closed]
        have unclosed := tryCloseTex_eq_none closed
        have positive := delimiter.opening_length.1
        obtain ⟨found, absent⟩ :=
          @ih (openStart + delimiter.opening.length) (by omega)
        constructor
        · intro region isFound
          obtain ⟨own, first⟩ := found region isFound
          have isAbove := first.above
          exact ⟨own, by omega, first.opens, first.closed,
            first.displayBlock, first.first.skip scanned unclosed⟩
        · intro isAbsent
          exact (absent isAbsent).skip scanned unclosed

theorem nextCompleteTexRegion_eq_some
    (found : nextCompleteTexRegion isDigit s position = some region) :
    ∃ delimiter, FirstRegion isDigit s position region delimiter :=
  (texRegionLoop_spec (by omega)).1 region found

theorem nextCompleteTexRegion_eq_none (absent : nextCompleteTexRegion isDigit s position = none) :
    NoRegion isDigit s position s.length :=
  (texRegionLoop_spec (by omega)).2 absent

theorem FirstRegion.span (first : FirstRegion isDigit s position region delimiter) :
    region.start < region.stop ∧ region.stop ≤ s.length ∧ slice s region.start region.stop =
        delimiter.opening ++ (region.inner ++ delimiter.closing) := by
  obtain ⟨close, above, closes, stop, inner, -⟩ :=
    tryCloseTex_eq_some first.closed
  have length := closes.closing.length_le
  rw [List.length_drop] at length
  have positive := delimiter.opening_length.1
  have same := delimiter.closing_length
  have behind : slice s close region.stop = delimiter.closing := by
    rw [stop]
    exact slice_of_prefix closes.closing
  have body : slice s (region.start + delimiter.opening.length) region.stop =
      region.inner ++ delimiter.closing := by
    have ordered : close ≤ region.stop := by omega
    rw [inner, ← behind]
    exact (slice_append_slice above ordered).symm
  have ordered : region.start + delimiter.opening.length ≤ region.stop := by omega
  refine ⟨by omega, by omega, ?_⟩
  rw [← slice_append_slice (Nat.le_add_right _ _) ordered, body,
    slice_of_prefix first.opens.opening]

end WriterAgent.Writer
