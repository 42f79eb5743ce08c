import WriterAgent.Foundations.DecimalDigit

/-!
# Paragraphs of a notebook document

`plugin/notebook/notebook_runner.py`: an imported notebook is a Writer body of
paragraphs.  Where the output of a cell ends is not recorded; it is read off
the styles, the texts and the in-flow objects of the paragraphs.
-/

namespace WriterAgent.Notebook

open PyText

/-- What a paragraph holds: characters, and objects anchored like a
character. -/
inductive Piece where
  | char (c : Char)
  | image
  | runButton (cell : Nat)
  | codeField (cell : Nat)
deriving DecidableEq

def Piece.char? : Piece → Option Char
  | .char c => some c
  | _ => none

def Piece.isControl : Piece → Bool
  | .runButton _ | .codeField _ => true
  | _ => false

def chars (s : Text) : List Piece := s.map .char

/-- A paragraph, with the notebook cells whose content is in it. -/
structure Paragraph where
  style : Text
  pieces : List Piece
  owners : List Nat
deriving DecidableEq

namespace Paragraph

/-- `_paragraph_string`: the characters, without the objects. -/
def string (p : Paragraph) : Text := p.pieces.filterMap Piece.char?

/-- `_paragraph_has_frame`. -/
def hasFrame (p : Paragraph) : Bool := p.pieces.any fun piece => piece.char?.isNone

/-- `not _paragraph_string(cursor).strip()`. -/
def isEmpty (p : Paragraph) : Bool := (strip p.string).isEmpty

/-- `_apply_para_style`. -/
def withStyle (style : Option Text) (p : Paragraph) : Paragraph :=
  match style with
  | some style => { p with style := style }
  | none => p

end Paragraph

/-- What the runner does not decide itself: the paragraph styles of the
document, the characters that `\w` matches, whether a bookmark goes along with
what is inserted right where it stands, and whether an empty paragraph takes
the style of the deleted ones before it. -/
structure Writer where
  resolveParaStyle : Text → Option Text
  isWord : Char → Bool
  marksFollow : Bool
  joinKeepsStyle : Bool

/-- `str.lower` on a character, exact where the lower case is in one of the
style names below. -/
def lowerStyleChar (c : Char) : Char :=
  if c = 'Ö' then 'ö' else if c.toNat = 0x212A then 'k' else c.toLower

def styleCompact (paraStyle : Text) : Text :=
  removeChar ' ' (paraStyle.map lowerStyleChar)

def styleIsHeading12 (paraStyle : Text) : Bool :=
  ["heading1".toList, "heading2".toList].contains (styleCompact paraStyle)

def styleIsPreformatted (paraStyle : Text) : Bool :=
  ["preformattedtext".toList, "preformatted".toList].contains (styleCompact paraStyle)

def styleIsBody (paraStyle : Text) : Bool :=
  ["textbody".toList, "textkörper".toList, "bodytext".toList].contains (styleCompact paraStyle)

/-- `_STYLE_MD_H1` and its like. -/
def styleMdH1 : Text := "Heading 1".toList
def styleMdH2 : Text := "Heading 2".toList
def styleOutput : Text := "Preformatted Text".toList
def styleBody : Text := "Text Body".toList
def styleNotebookIn : Text := "WriterAgent Notebook In".toList

def after? (front s : Text) : Option Text :=
  if front.isPrefixOf s then some (s.drop front.length) else none

/-- `^LABEL \[[0-9 ]*\]:`. -/
def promptMatches (label s : Text) : Bool :=
  match after? (label ++ " [".toList) s with
  | some rest => "]:".toList.isPrefixOf (rest.dropWhile fun c => isAsciiDigit c || c == ' ')
  | none => false

def inPromptMatches (s : Text) : Bool := promptMatches "In".toList s

def outPromptMatches (s : Text) : Bool := promptMatches "Out".toList s

/-- `_LEGACY_CHROME_RE`. -/
def legacyChromeMatches (isWord : Char → Bool) (s : Text) : Bool :=
  match after? "Cell ".toList s with
  | some rest =>
    rest.head?.any isDecimal && ["Markdown".toList, "Raw".toList, "Code".toList].any fun kind =>
        match after? (": ".toList ++ kind) (rest.dropWhile isDecimal) with
        | some rest => !rest.head?.any isWord
        | none => false
  | none => false

def formatInPrompt (executionCount : Option Nat) : Text :=
  match executionCount with
  | some count => "In [".toList ++ (Nat.repr count).toList ++ "]:".toList
  | none => "In [ ]:".toList

def isNextCellBoundary (writer : Writer) (paraStyle content : Text) : Bool :=
  let stripped := strip content
  if writer.resolveParaStyle styleNotebookIn = some paraStyle && !stripped.isEmpty then
    true
  else if inPromptMatches stripped then true
  else if "[In [".toList.isPrefixOf stripped && decide (": Code".toList <:+: stripped) then
    true
  else if outPromptMatches stripped || styleIsPreformatted paraStyle then false
  else if legacyChromeMatches writer.isWord stripped then true
  else if styleIsHeading12 paraStyle && !stripped.isEmpty then true
  else !stripped.isEmpty && styleIsBody paraStyle

def isLeftoverEmptyParagraph (p : Paragraph) : Bool :=
  p.isEmpty && !(styleIsPreformatted p.style || styleIsHeading12 p.style)

/-- The paragraph ends the output before it: a boundary, or, past the cell's
own field, a paragraph with an object (`_is_foreign_control_paragraph`). -/
def endsOutput (writer : Writer) (p : Paragraph) : Bool :=
  isNextCellBoundary writer p.style p.string || p.hasFrame

@[simp] theorem string_chars (style s : Text) (owners : List Nat) :
    (Paragraph.mk style (chars s) owners).string = s := by
  simp only [Paragraph.string, chars, List.filterMap_map]
  exact List.filterMap_some

@[simp] theorem Paragraph.withStyle_owners (style : Option Text) (p : Paragraph) :
    (p.withStyle style).owners = p.owners := by
  cases style <;> rfl

@[simp] theorem Paragraph.withStyle_pieces (style : Option Text) (p : Paragraph) :
    (p.withStyle style).pieces = p.pieces := by
  cases style <;> rfl

theorem noReturn_formatInPrompt (executionCount : Option Nat) :
    '\r' ∉ formatInPrompt executionCount := by
  cases executionCount with
  | none => decide
  | some count =>
    intro member
    simp only [formatInPrompt, Nat.toList_repr, List.mem_append] at member
    rcases member with (front | digit) | back
    · revert front
      decide
    · have isDigit := Nat.isDigit_of_mem_toDigits (by decide) (by decide) digit
      revert isDigit
      decide
    · revert back
      decide

theorem bracket_mem_strip (before : Text) (executionCount : Option Nat) :
    '[' ∈ strip (before ++ formatInPrompt executionCount) := by
  apply mem_strip _ (by decide)
  cases executionCount <;> simp [formatInPrompt]

theorem strip_formatInPrompt (executionCount : Option Nat) :
    strip (formatInPrompt executionCount) ≠ "Output".toList := by
  intro same
  have bracket := bracket_mem_strip [] executionCount
  rw [List.nil_append, same] at bracket
  revert bracket
  decide

theorem isNextCellBoundary_of_empty (writer : Writer) {paraStyle content : Text}
    (empty : strip content = []) :
    isNextCellBoundary writer paraStyle content = false := by
  unfold isNextCellBoundary
  rw [empty]
  simp [inPromptMatches, outPromptMatches, promptMatches, legacyChromeMatches, after?]

theorem pieces_ne_nil_of_endsOutput {writer : Writer} {p : Paragraph}
    (ends : endsOutput writer p = true) : p.pieces ≠ [] := by
  intro empty
  have noText : strip p.string = [] := by
    rw [Paragraph.string, empty]
    rfl
  rw [endsOutput, isNextCellBoundary_of_empty writer noText, Paragraph.hasFrame, empty] at ends
  cases ends

end WriterAgent.Notebook
