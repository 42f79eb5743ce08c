import WriterAgent.Foundations.TextCompare
import WriterAgent.Writer.Review.SurgicalEdit

/-!
# Search across paragraphs

`plugin/writer/search.py`: `find_chained_range` asks for matches of a regular
expression, which lie in one paragraph each.  A text with line breaks that is
not found so is looked for by its first visible line, and the paragraphs around
a match are compared with the other lines.
-/

namespace WriterAgent.Writer

open PyText

def spaceCodepoints : List ℕ :=
  [0x00A0, 0x202F, 0x2007, 0x2009, 0x2000, 0x2001, 0x2002, 0x2003, 0x2004,
    0x2005, 0x2006, 0x2008, 0x200A, 0x205F, 0x3000]

/-- `SPACE_NORMALIZE_MAP` on one character. -/
def spaceNormalize (c : Char) : Char :=
  if spaceCodepoints.contains c.toNat then ' ' else c

def horizontalSpaceClass : Text :=
  ("[ \\t\\u00a0\\u202f\\u2007\\u2009\\u2000\\u2001\\u2002\\u2003\\u2004" ++
    "\\u2005\\u2006\\u2008\\u200a\\u205f\\u3000]").toList

/-- `re.sub(r" +", " ", s)`. -/
def squeezeSpaces (s : Text) : Text :=
  s.foldr (fun c rest =>
    if c == ' ' && rest.head? == some ' ' then rest else c :: rest) []

def regexSpecials : List Char :=
  ['\\', '^', '$', '.', '|', '?', '*', '+', '(', ')', '[', ']', '{', '}']

def escapeForLoRegex (s : Text) : Text :=
  let escaped := (s.map spaceNormalize).flatMap fun c =>
    if regexSpecials.contains c then ['\\', c] else [c]
  (squeezeSpaces escaped).flatMap fun c =>
    if c == ' ' then horizontalSpaceClass ++ ['+'] else [c]

/-- The white space that `_compare_normalize` rewrites before it strips. -/
def foldSpaces (s : Text) : Text :=
  (normalizeLinebreaks s).map spaceNormalize

def compareNormalize (lowercase : Lowercase) (s : Text) : Text :=
  compareForm lowercase foldSpaces s

/-- A place in the text: a paragraph and the characters before it there. -/
structure Position where
  paragraph : ℕ
  offset : ℕ
  deriving DecidableEq, Repr

structure DocRange where
  start : Position
  stop : Position
  deriving DecidableEq, Repr

/-- A match of the search: a paragraph, and where it starts and ends there. -/
structure Found where
  paragraph : ℕ
  start : ℕ
  stop : ℕ
  deriving DecidableEq, Repr

def Found.range (found : Found) : DocRange :=
  ⟨⟨found.paragraph, found.start⟩, ⟨found.paragraph, found.stop⟩⟩

/-- `goRight` from the start of the first of some paragraphs: a paragraph break
counts as a character, and the end of the text is as far as it goes. -/
def goRightIn : ℕ → List Text → ℕ → Position
  | paragraph, [], _ => ⟨paragraph, 0⟩
  | paragraph, [last], count => ⟨paragraph, min count last.length⟩
  | paragraph, text :: next :: rest, count =>
    if count ≤ text.length then ⟨paragraph, count⟩
    else goRightIn (paragraph + 1) (next :: rest) (count - (text.length + 1))

def goRight (document : List Text) (paragraph count : ℕ) : Position :=
  goRightIn paragraph (document.drop paragraph) count

/-- The lines of some paragraphs from an offset in the first one to an offset
in the one that many paragraphs further on. -/
def linesFrom : List Text → ℕ → ℕ → ℕ → List Text
  | [], _, _, _ => []
  | text :: _, start, 0, stop => [(text.take stop).drop start]
  | text :: rest, start, further + 1, stop => text.drop start :: linesFrom rest 0 further stop

def rangeLines (document : List Text) (range : DocRange) : List Text :=
  linesFrom (document.drop range.start.paragraph) range.start.offset
    (range.stop.paragraph - range.start.paragraph) range.stop.offset

def maxSearchReplacements : ℕ := 200

/-- The successive matches of a pattern, `findFirst` and then `findNext`, with
and without regard to case. -/
abbrev LoSearch := Bool → Text → List Found

/-- The matches of the first pass that has some: all of them up to the limit,
or one. -/
def inPasses {α : Type} (allMatches : Bool) (pass : Bool → List α) : List α :=
  let limit := if allMatches then maxSearchReplacements else 1
  if (pass true).isEmpty then (pass false).take limit
  else (pass true).take limit

def findLoRegexRanges (search : LoSearch) (candidate : Text) (allMatches : Bool) : List Found :=
  inPasses allMatches fun caseSensitive =>
    search caseSensitive (escapeForLoRegex candidate)

def searchTryStrings (searchString : Text) : List Text :=
  [searchString, strip (squeezeSpaces (replaceChar '\n' ' ' searchString))]
    |>.filter (!·.isEmpty)

/-- `_paragraph_matches_part` with `head`: how far the cursor goes. -/
def matchesHead (lowercase : Lowercase) (paragraph part : Text) : Option ℕ :=
  if (compareNormalize lowercase part).isPrefixOf (compareNormalize lowercase paragraph) then
    some ((paragraph.length - (lstripBy isSpace paragraph).length) + (strip part).length)
  else none

/-- `_paragraph_matches_part` with `tail`. -/
def matchesTail (lowercase : Lowercase) (paragraph part : Text) : Option ℕ :=
  if (compareNormalize lowercase part).isSuffixOf (compareNormalize lowercase paragraph) then
    some ((rstripBy isSpace paragraph).length - (strip part).length)
  else none

/-- `_paragraph_matches_part` without a flag. -/
def matchesWhole (lowercase : Lowercase) (paragraph part : Text) : Bool :=
  compareNormalize lowercase paragraph == compareNormalize lowercase part

/-- The loop over the lines behind the anchor; the position is `none` when
there are no such lines. -/
def chainForward (lowercase : Lowercase) (document : List Text) :
    ℕ → List Text → Option (Option Position)
  | _, [] => some none
  | paragraph, part :: parts =>
    match document[paragraph + 1]? with
    | none => none
    | some text =>
      match parts with
      | [] => (matchesHead lowercase text part).map fun offset =>
        some (goRight document (paragraph + 1) offset)
      | _ :: _ =>
        if matchesWhole lowercase text part then
          chainForward lowercase document (paragraph + 1) parts
        else none

def chainBackward (lowercase : Lowercase) (document : List Text) :
    ℕ → List Text → Option (Option Position)
  | _, [] => some none
  | 0, _ :: _ => none
  | paragraph + 1, part :: parts =>
    match document[paragraph]? with
    | none => none
    | some text =>
      match parts with
      | [] => (matchesTail lowercase text part).map fun offset =>
        some (goRight document paragraph offset)
      | _ :: _ =>
        if matchesWhole lowercase text part then
          chainBackward lowercase document paragraph parts
        else none

/-- The lines before the anchor, the anchor and the lines behind it; the anchor
is the first line that is not blank. -/
def splitAtAnchor (parts : List Text) : Option (List Text × Text × List Text) :=
  match parts.span fun part => (strip part).isEmpty with
  | (_, []) => none
  | (before, anchor :: after) => some (before, anchor, after)

def chainRange (lowercase : Lowercase) (document before after : List Text)
    (found : Found) : Option DocRange :=
  match chainForward lowercase document found.paragraph after with
  | none => none
  | some lastEnd =>
    match chainBackward lowercase document found.paragraph before.reverse with
    | none => none
    | some firstStart => some ⟨firstStart.getD found.range.start, lastEnd.getD found.range.stop⟩

def chainedMatches (lowercase : Lowercase) (search : LoSearch)
    (document parts : List Text) (allMatches : Bool) :
    List (Found × DocRange) :=
  if parts.length ≤ 1 then []
  else
    match splitAtAnchor parts with
    | none => []
    | some (before, anchor, after) =>
      inPasses allMatches fun caseSensitive =>
        (search caseSensitive (escapeForLoRegex anchor)).filterMap fun found =>
            (chainRange lowercase document before after found).map (found, ·)

/-- The paragraph-chaining part of `find_chained_range`. -/
def chainedRanges (lowercase : Lowercase) (search : LoSearch)
    (document parts : List Text) (allMatches : Bool) : List DocRange :=
  (chainedMatches lowercase search document parts allMatches).map Prod.snd

/-- `find_chained_range`; without `all_matches` there is at most one range. -/
def findChainedRange (lowercase : Lowercase) (search : LoSearch)
    (document : List Text) (searchString : Text) (allMatches : Bool) :
    List DocRange :=
  let direct := (searchTryStrings searchString).map fun candidate =>
    findLoRegexRanges search candidate allMatches
  match direct.find? (!·.isEmpty) with
  | some ranges => ranges.map Found.range
  | none => chainedRanges lowercase search document (searchString.splitOn '\n') allMatches

end WriterAgent.Writer
