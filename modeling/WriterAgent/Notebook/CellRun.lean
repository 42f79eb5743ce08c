import Mathlib
import WriterAgent.Notebook.Paragraphs

/-!
# Running a code cell

A run clears the old output of the cell, writes the new text and images behind
the paragraph of the code field, and renumbers the prompt.
-/

namespace WriterAgent.Notebook

open PyText

/-- The body, and the paragraph and offset where the output bookmark of the
running cell stands. -/
structure Canvas where
  body : List Paragraph
  bookmark : Option (Nat × Nat)

namespace Canvas

variable (writer : Writer)

/-- `insertControlCharacter(PARAGRAPH_BREAK)`. -/
def splitParagraph (i k : Nat) (canvas : Canvas) : Canvas :=
  match canvas.body[i]? with
  | none => canvas
  | some p =>
    { body := canvas.body.take i ++ { p with pieces := p.pieces.take k } ::
          { p with pieces := p.pieces.drop k } :: canvas.body.drop (i + 1)
      bookmark := canvas.bookmark.map fun (j, m) =>
        if j < i then (j, m)
        else if i < j then (j + 1, m)
        else if m < k || (m == k && !writer.marksFollow) then (j, m)
        else (j + 1, m - k) }

/-- The parts of an inserted text, the rest of the paragraph behind the last
one. -/
def filledParagraphs (p : Paragraph) : List Text → List Paragraph
  | [] => [p]
  | [part] => [{ p with pieces := chars part ++ p.pieces }]
  | part :: parts => { p with pieces := chars part } :: filledParagraphs p parts

/-- `insertString` at the start of a paragraph.  A carriage return breaks the
paragraph. -/
def insertString (i : Nat) (s : Text) (canvas : Canvas) : Canvas :=
  match canvas.body[i]? with
  | none => canvas
  | some p =>
    let parts := s.splitOn '\r'
    { body := canvas.body.take i ++ (filledParagraphs p parts ++ canvas.body.drop (i + 1))
      bookmark := canvas.bookmark.map fun (j, m) =>
        if j < i then (j, m)
        else if i < j then (j + (parts.length - 1), m)
        else if m == 0 && !writer.marksFollow then (j, m)
        else (j + (parts.length - 1), m + (parts.getLast?.getD []).length) }

def setStyle (i : Nat) (style : Option Text) (canvas : Canvas) : Canvas :=
  { canvas with body := canvas.body.modify i (Paragraph.withStyle style) }

/-- The paragraphs behind deleted ones: an empty one may take the style of the
first of these. -/
def joinedTo (doomed : Option Paragraph) (rest : List Paragraph) : List Paragraph :=
  match doomed, rest with
  | some p, q :: rest =>
    (if q.pieces.isEmpty && writer.joinKeepsStyle then { q with style := p.style }
      else q) :: rest
  | _, rest => rest

/-- `setString("")` from the start of a paragraph to the start of a later one. -/
def deleteParagraphs (i n : Nat) (canvas : Canvas) : Canvas :=
  if n = 0 then canvas
  else
    { body := canvas.body.take i ++ joinedTo writer canvas.body[i]? (canvas.body.drop (i + n))
      bookmark := canvas.bookmark.bind fun (j, m) =>
        if j < i then some (j, m)
        else if j < i + n then none
        else some (j - n, m) }

/-- `setString("")` from the start of a paragraph to the end of the body. -/
def clearToEnd (i : Nat) (canvas : Canvas) : Canvas :=
  match canvas.body[i]? with
  | none => canvas
  | some p =>
    { body := canvas.body.take i ++ [{ p with pieces := [] }]
      bookmark := canvas.bookmark.filter fun (j, _) => decide (j < i) }

/-- `insertTextContent` of an image. -/
def insertImage (i k : Nat) (canvas : Canvas) : Canvas :=
  { canvas with
    body := canvas.body.modify i fun p =>
      { p with pieces := p.pieces.take k ++ .image :: p.pieces.drop k } }

end Canvas

/-- `_code_field_paragraph_end`: the paragraph of the code field. -/
def fieldParagraph (cell : Nat) (body : List Paragraph) : Option Nat :=
  body.findIdx? fun p => p.pieces.contains (.codeField cell)

def isOutputBookmarkHome (cell : Nat) (body : List Paragraph) (i : Nat) : Bool :=
  strip ((body[i]?.map Paragraph.string).getD []) == "Output".toList ||
    fieldParagraph cell body == some i

/-- `_reanchor_output_bookmark`: to the end of the field's paragraph, unless
the bookmark is at home. -/
def reanchorOutputBookmark (cell : Nat) (canvas : Canvas) : Canvas :=
  let anchored :=
    match fieldParagraph cell canvas.body with
    | some f =>
      { canvas with
        bookmark := some (f, ((canvas.body[f]?.map Paragraph.pieces).getD []).length) }
    | none => canvas
  match canvas.bookmark with
  | some (i, _) => if isOutputBookmarkHome cell canvas.body i then canvas else anchored
  | none => anchored

/-- The loop of `clear_cell_output`: the index of the paragraph where the
deleted range ends, which is a blank one right before the boundary if there is
one.  Nothing, when no boundary comes. -/
def rangeEnd (writer : Writer) : Nat → Bool → List Paragraph → Option Nat
  | _, _, [] => none
  | j, lastEmpty, p :: rest =>
    if endsOutput writer p then some (if lastEmpty then j - 1 else j)
    else rangeEnd writer (j + 1) (isLeftoverEmptyParagraph p && !p.hasFrame) rest

def clearCellOutput (writer : Writer) (cell : Nat) (canvas : Canvas) : Canvas :=
  let canvas := reanchorOutputBookmark cell canvas
  match fieldParagraph cell canvas.body with
  | none => canvas
  | some f =>
    match canvas.body.drop (f + 1) with
    | [] => canvas
    | p :: rest =>
      if endsOutput writer p then canvas
      else
        let cleared :=
          match rangeEnd writer 1 (isLeftoverEmptyParagraph p && !p.hasFrame) rest with
          | some n => canvas.deleteParagraphs writer (f + 1) n
          | none => canvas.clearToEnd (f + 1)
        if cleared.bookmark.isNone then reanchorOutputBookmark cell cleared
        else cleared

def utf16Length (s : Text) : Nat := (s.map fun c => if c.toNat < 0x10000 then 1 else 2).sum

def pieceUnits : Piece → Nat
  | .char c => if c.toNat < 0x10000 then 1 else 2
  | _ => 1

/-- The pieces that lie within the first `n` UTF-16 units. -/
def offsetOf : Nat → List Piece → Nat
  | _, [] => 0
  | n, piece :: pieces =>
    if pieceUnits piece ≤ n then offsetOf (n - pieceUnits piece) pieces + 1 else 0

/-- `goRight` from the start of the first paragraph: how many paragraphs are
passed, and the offset in the one reached. -/
def goRight : Nat → List Paragraph → Nat × Nat
  | _, [] => (0, 0)
  | n, [p] => (0, offsetOf n p.pieces)
  | n, p :: rest =>
    let units := (p.pieces.map pieceUnits).sum
    if n ≤ units then (0, offsetOf n p.pieces)
    else
      let (passed, k) := goRight (n - units - 1) rest
      (passed + 1, k)

section Writing

variable (writer : Writer)

/-- `_ensure_one_spacer_before_next_cell`, with the cursor at the start of a
paragraph. -/
def ensureOneSpacerBeforeNextCell (i : Nat) (canvas : Canvas) : Canvas :=
  match canvas.body[i + 1]? with
  | none => canvas
  | some next =>
    if next.isEmpty && !next.hasFrame then canvas
    else if isNextCellBoundary writer next.style next.string then
      canvas.splitParagraph writer i 0
    else canvas

/-- `_split_if_stdout_mashed_onto_chrome`.  The inserted text ends in the given
paragraph, and the rest is what is found as far behind the start of this
paragraph as the text is long. -/
def splitIfStdoutMashedOntoChrome (i : Nat) (display : Text) (canvas : Canvas) : Canvas :=
  let n := min (utf16Length display) 32767
  let (passed, k) := goRight n (canvas.body.drop i)
  let j := i + passed
  let leftover := (canvas.body[j]?.map fun p =>
    (p.pieces.drop k).filterMap Piece.char?).getD []
  let leftoverText := strip leftover
  if leftoverText.isEmpty then
    ensureOneSpacerBeforeNextCell writer i (canvas.setStyle i (writer.resolveParaStyle styleOutput))
  else
    let restored :=
      if inPromptMatches leftoverText || "[In [".toList.isPrefixOf leftoverText then
        writer.resolveParaStyle styleNotebookIn
      else
        (writer.resolveParaStyle styleMdH2).or (writer.resolveParaStyle styleMdH1)
    ((canvas.splitParagraph writer j k).setStyle (j + 1) restored).setStyle j
      (writer.resolveParaStyle styleOutput)

/-- The inner `_fill`. -/
def fillParagraph (i : Nat) (display : Text) (canvas : Canvas) : Canvas :=
  let filled := (canvas.setStyle i (writer.resolveParaStyle styleOutput)).insertString writer i
    display
  splitIfStdoutMashedOntoChrome writer (i + ((display.splitOn '\r').length - 1)) display filled

/-- The paragraph whose followers are collapsed: the bookmark's, or the field's
if the bookmark is not at home. -/
def collapseStart (cell : Nat) (canvas : Canvas) : Option Nat :=
  canvas.bookmark.bind fun (i, _) =>
    if isOutputBookmarkHome cell canvas.body i then some i
    else fieldParagraph cell canvas.body

/-- One round of `_collapse_leading_empty_paragraphs`; nothing, when it is
done. -/
def collapseRound (cell : Nat) (canvas : Canvas) : Option Canvas :=
  (collapseStart cell canvas).bind fun start =>
    canvas.body[start + 1]?.bind fun next =>
      if endsOutput writer next || !next.isEmpty then none
      else if start + 2 < canvas.body.length then
        some (canvas.deleteParagraphs writer (start + 1) 1)
      else some (canvas.clearToEnd (start + 1))

def collapseLeadingEmptyParagraphs (cell : Nat) : Nat → Canvas → Canvas
  | 0, canvas => canvas
  | rounds + 1, canvas =>
    match collapseRound writer cell canvas with
    | some canvas => collapseLeadingEmptyParagraphs cell rounds canvas
    | none => canvas

/-- The lead break that an import leaves behind the field, or a blank kept by
clearing. -/
def isFillable (next : Paragraph) : Bool :=
  next.isEmpty && !styleIsHeading12 next.style &&
    !isNextCellBoundary writer next.style next.string && !next.hasFrame

/-- `_insert_stdout_paragraph`: a blank paragraph behind the field is filled,
else a new one is made. -/
def insertStdoutParagraph (cell : Nat) (display : Text) (canvas : Canvas) : Canvas :=
  match fieldParagraph cell canvas.body with
  | none => canvas
  | some f =>
    let broken :=
      if canvas.body[f + 1]?.any (isFillable writer) then canvas
      else
        canvas.splitParagraph writer f ((canvas.body[f]?.map Paragraph.pieces).getD []).length
    collapseLeadingEmptyParagraphs writer cell 16
      (reanchorOutputBookmark cell (fillParagraph writer (f + 1) display broken))

end Writing

def prepareDisplayText (s : Text) : Text :=
  if s.length ≤ 50000 then s
  else
    let truncationSuffix := "\n\n[… truncated for import …]".toList
    s.take (50000 - truncationSuffix.length) ++ truncationSuffix

/-- The loop over the images, at a cursor.  An image goes into a paragraph of
its own; the break made for one that cannot be inserted stays. -/
def insertRunImages (writer : Writer) : List Bool → Nat × Nat → Canvas → Canvas
  | [], _, canvas => canvas
  | inserted :: images, (i, k), canvas =>
    let occupied := canvas.body[i]?.any fun p => p.hasFrame || !p.isEmpty
    let ((i, k), canvas) :=
      if occupied then ((i + 1, 0), canvas.splitParagraph writer i k)
      else ((i, k), canvas)
    if inserted then insertRunImages writer images (i, k + 1) (canvas.insertImage i k)
    else insertRunImages writer images (i, k) canvas

/-- A run of a code cell: the count the cell gets, the place of its bookmark
before the run, the text of `format_run_output_text`, and for each image of the
result whether Writer takes it. -/
structure CellRun where
  cell : Nat
  executionCount : Nat
  bookmark : Option (Nat × Nat)
  text : Text
  images : List Bool

def applyRunResult (writer : Writer) (run : CellRun) (canvas : Canvas) : Canvas :=
  let canvas := reanchorOutputBookmark run.cell canvas
  let display := prepareDisplayText run.text
  let canvas :=
    if (strip run.text).isEmpty || (strip display).isEmpty then canvas
    else insertStdoutParagraph writer run.cell display canvas
  let cursor := canvas.bookmark.or <| (fieldParagraph run.cell canvas.body).map fun f =>
    (f, ((canvas.body[f]?.map Paragraph.pieces).getD []).length)
  match cursor with
  | some cursor => insertRunImages writer run.images cursor canvas
  | none => canvas

/-- The rewriting of a gutter: its leading text, or as many positions as it has
characters. -/
def withPrompt (prompt : Text) (p : Paragraph) : Paragraph :=
  let leading := p.pieces.takeWhile fun piece => piece.char?.isSome
  let replaced :=
    if leading.isEmpty then min p.string.length 32767 else leading.length
  { p with pieces := chars prompt ++ p.pieces.drop replaced }

/-- A paragraph that the search for a gutter without a field takes. -/
def isPromptCandidate (cell : Nat) (p : Paragraph) : Bool :=
  let stripped := strip p.string
  decide ("Cell ".toList ++ (Nat.repr (cell + 1)).toList ++ ": Code".toList <:+: stripped) ||
    inPromptMatches stripped || "[In [".toList.isPrefixOf stripped

/-- `update_in_prompt`: the paragraph before the field's, else the first one
that looks like a gutter. -/
def updateInPrompt (cell executionCount : Nat) (body : List Paragraph) : List Paragraph :=
  let gutter :=
    match fieldParagraph cell body with
    | some (g + 1) => some g
    | _ => body.findIdx? (isPromptCandidate cell)
  match gutter with
  | some g => body.modify g (withPrompt (formatInPrompt (some executionCount)))
  | none => body

/-- `_execute_and_apply` on the body, for a run that was not interrupted.
Without the field there is no code, and `run_cell` refuses. -/
def executeAndApply (writer : Writer) (body : List Paragraph) (run : CellRun) : List Paragraph :=
  match fieldParagraph run.cell body with
  | none => body
  | some _ =>
    let cleared := clearCellOutput writer run.cell ⟨body, run.bookmark⟩
    let applied := applyRunResult writer run cleared
    updateInPrompt run.cell run.executionCount applied.body

end WriterAgent.Notebook
