import WriterAgent.Notebook.OutputWindow

/-!
# The layout of a notebook

The body of a notebook falls into stretches: the paragraphs of one code cell,
or paragraphs that hold no code field.
-/

namespace WriterAgent.Notebook

open List

/-- The paragraphs of a code cell.  They may hold content of another cell, but
if they do not they are a block that runs can work on. -/
structure CodeBlock (cell : Nat) (lead : List Paragraph) (field : Paragraph)
    (out : List Paragraph) : Prop where
  owned : ∀ p ∈ lead ++ field :: out, cell ∈ p.owners
  fields : ∀ p ∈ lead ++ field :: out, ∀ other, Piece.codeField other ∈ p.pieces → other = cell
  alone : (∀ p ∈ lead ++ field :: out, p.owners = [cell]) → CellBlock cell lead field out

variable {cell : Nat} {lead out : List Paragraph} {field p : Paragraph}

theorem CellBlock.own (block : CellBlock cell lead field out) :
    ∀ p ∈ lead ++ field :: out, OwnParagraph cell p := by
  intro p member
  rcases mem_append.mp member with inLead | inRest
  · exact block.ownLead p inLead
  · rcases mem_cons.mp inRest with rfl | inOut
    · exact block.ownField
    · exact block.ownOut p inOut

theorem CellBlock.codeBlock (block : CellBlock cell lead field out) :
    CodeBlock cell lead field out := by
  refine ⟨?_, fun p member => (block.own p member).fields, fun _ => block⟩
  intro p member
  rw [(block.own p member).owners]
  exact mem_singleton_self cell

/-- A part of the body. -/
inductive Stretch where
  | plain (paragraphs : List Paragraph)
  | code (cell : Nat) (lead : List Paragraph) (field : Paragraph) (out : List Paragraph)

variable {s : Stretch}

namespace Stretch

def paragraphs : Stretch → List Paragraph
  | plain paragraphs => paragraphs
  | code _ lead field out => lead ++ field :: out

def cell? : Stretch → Option Nat
  | plain _ => none
  | code cell _ _ _ => some cell

def Sound : Stretch → Prop
  | plain paragraphs => ∀ p ∈ paragraphs, ∀ cell, Piece.codeField cell ∉ p.pieces
  | code cell lead field out => CodeBlock cell lead field out

theorem Sound.cell_of_field (sound : s.Sound) (member : p ∈ s.paragraphs)
    (field : Piece.codeField cell ∈ p.pieces) : s.cell? = some cell := by
  cases s with
  | plain paragraphs => exact absurd field (sound p member cell)
  | code other lead fieldParagraph out =>
    rw [CodeBlock.fields sound p member cell field]
    rfl

theorem Sound.exists_owned (sound : s.Sound) (its : s.cell? = some cell) :
    ∃ p ∈ s.paragraphs, cell ∈ p.owners := by
  cases s with
  | plain paragraphs => cases its
  | code other lead field out =>
    cases its
    have member : field ∈ lead ++ field :: out := by simp
    exact ⟨field, member, CodeBlock.owned sound field member⟩

end Stretch

def cellsOf (stretches : List Stretch) : List Nat := stretches.filterMap Stretch.cell?

theorem mem_cellsOf {stretches : List Stretch} {s : Stretch} {cell : Nat}
    (member : s ∈ stretches) (its : s.cell? = some cell) : cell ∈ cellsOf stretches :=
  mem_filterMap.mpr ⟨s, member, its⟩

structure Layout (body : List Paragraph) (stretches : List Stretch) : Prop where
  body : body = stretches.flatMap Stretch.paragraphs
  sound : ∀ s ∈ stretches, s.Sound
  cells : (cellsOf stretches).Nodup
  owners : ∀ s ∈ stretches, ∀ p ∈ s.paragraphs, ∀ cell ∈ p.owners,
    cell ∈ cellsOf stretches → s.cell? = some cell

section Layouts

variable {body : List Paragraph} {stretches : List Stretch}

theorem Layout.mem (layout : Layout body stretches) (member : s ∈ stretches)
    (inStretch : p ∈ s.paragraphs) : p ∈ body := by
  rw [layout.body]
  exact mem_flatMap.mpr ⟨s, member, inStretch⟩

theorem Layout.plain {body : List Paragraph}
    (noField : ∀ p ∈ body, ∀ cell, Piece.codeField cell ∉ p.pieces) :
    Layout body [.plain body] := by
  refine ⟨by simp [Stretch.paragraphs], ?_, nodup_nil, ?_⟩
  · intro s member
    rw [mem_singleton.mp member]
    exact noField
  · intro s _ p _ cell _ member
    cases member

theorem Layout.snoc (layout : Layout body stretches) {new : Stretch} (sound : new.Sound)
    (fresh : ∀ p ∈ new.paragraphs, ∀ owner ∈ p.owners, owner ∉ cellsOf stretches)
    (unseen : ∀ cell, new.cell? = some cell → ∀ p ∈ body, cell ∉ p.owners) :
    Layout (body ++ new.paragraphs) (stretches ++ [new]) := by
  have split : cellsOf (stretches ++ [new]) = cellsOf stretches ++ new.cell?.toList := by
    cases found : new.cell? <;> simp [cellsOf, found]
  refine ⟨?_, ?_, ?_, ?_⟩
  · rw [flatMap_append, ← layout.body]
    simp
  · intro s member
    rcases mem_append.mp member with old | isNew
    · exact layout.sound s old
    · rw [mem_singleton.mp isNew]
      exact sound
  · rw [split, nodup_append]
    refine ⟨layout.cells, by cases new.cell? <;> simp, ?_⟩
    rintro cell old other isNew rfl
    obtain ⟨s, member, its⟩ := mem_filterMap.mp old
    obtain ⟨p, inStretch, owned⟩ := (layout.sound s member).exists_owned its
    exact unseen cell (Option.mem_toList.mp isNew) p (layout.mem member inStretch) owned
  · intro s member p inStretch cell owned known
    rw [split, mem_append, Option.mem_toList] at known
    rcases mem_append.mp member with old | isNew
    · rcases known with isOld | itsNew
      · exact layout.owners s old p inStretch cell owned isOld
      · exact absurd owned (unseen cell itsNew p (layout.mem old inStretch))
    · rw [mem_singleton.mp isNew] at inStretch ⊢
      exact known.resolve_left (fresh p inStretch cell owned)

end Layouts

end WriterAgent.Notebook

/-!
## Importing a notebook

`plugin/notebook/writer_importer.py`: the cells of a notebook are appended to
the body one after another.  A cell starts a new paragraph, unless nothing in
the body is visible yet.
-/

namespace WriterAgent.Notebook

open PyText

/-- A paragraph that Writer makes from an HTML fragment, in any style. -/
structure FragmentParagraph where
  style : Text
  pieces : List Piece
  plain : ∀ piece ∈ pieces, piece.isControl = false

/-- What becomes of an image of a markdown cell: it is embedded, its file is
not read, or Writer does not take it. -/
inductive EmbeddedImage where
  | embedded
  | unread
  | refused
deriving DecidableEq

/-- A block of a markdown cell.  Lists, block quotes, marked-up paragraphs and
cells that are HTML go through an HTML fragment, or are inserted as body
paragraphs when that fails; a marked-up paragraph then has no break of its own. -/
inductive MarkdownBlock where
  | heading1 (title : Text)
  | heading2 (title : Text)
  | paragraph (content : Text)
  | html (fragment : Option (List FragmentParagraph)) (fallback : List Text) (breaks : Bool)
  | image (outcome : EmbeddedImage) (fallback : Text)

/-- The outputs of a code cell as they are interleaved: joined texts, and
images with whether Writer takes them. -/
inductive OutputSegment where
  | text (content : Text)
  | image (inserted : Bool)

inductive NotebookCell where
  | markdown (blocks : List MarkdownBlock)
  | code (executionCount : Option Nat) (outputs : List OutputSegment)
  | raw (source : Text)

/-- The body during the import: what is appended goes to the last paragraph. -/
structure Draft where
  done : List Paragraph
  last : Paragraph

namespace Draft

def body (draft : Draft) : List Paragraph := draft.done ++ [draft.last]

def initial : Draft := ⟨[], ⟨"Standard".toList, [], []⟩⟩

/-- `_doc_body_nonempty`. -/
def bodyNonempty (draft : Draft) : Bool := draft.body.any fun p => !p.isEmpty

variable (cell : Nat)

def breakAtEnd (draft : Draft) : Draft :=
  ⟨draft.done ++ [draft.last], ⟨draft.last.style, [], [cell]⟩⟩

def append (pieces : List Piece) (draft : Draft) : Draft :=
  { draft with
    last :=
      { draft.last with
        pieces := draft.last.pieces ++ pieces
        owners :=
          if draft.last.owners.contains cell then draft.last.owners
          else draft.last.owners ++ [cell] } }

def withStyle (style : Option Text) (draft : Draft) : Draft :=
  { draft with last := draft.last.withStyle style }

/-- `insertString` at the end. -/
def insertString (s : Text) (draft : Draft) : Draft :=
  match s.splitOn '\r' with
  | [] => draft
  | part :: parts =>
    parts.foldl (fun draft part => (draft.breakAtEnd cell).append cell (chars part))
      (draft.append cell (chars part))

def leadBreak (lead : Bool) (draft : Draft) : Draft :=
  if lead && draft.bodyNonempty then draft.breakAtEnd cell else draft

variable (writer : Writer)

def appendBodyParagraph (content : Text) (style : Option Text) (lead : Bool)
    (draft : Draft) : Draft :=
  if content.isEmpty && style.isNone then draft
  else
    ((draft.leadBreak cell lead).withStyle
      (style.bind writer.resolveParaStyle)).insertString cell content

def appendBodyTextBlock (block : Text) (style : Option Text) (lead : Bool)
    (draft : Draft) : Draft :=
  let display := prepareDisplayText block
  if display.isEmpty then draft else draft.appendBodyParagraph cell writer display style lead

def insertFragment (fragment : List FragmentParagraph) (draft : Draft) : Draft :=
  match fragment with
  | [] => draft
  | first :: rest =>
    rest.foldl (fun draft p =>
        ((draft.breakAtEnd cell).withStyle (some p.style)).append cell p.pieces)
      ((draft.withStyle (some first.style)).append cell first.pieces)

def trimTrailingEmptyParagraph (draft : Draft) : Draft :=
  if draft.last.isEmpty && !decide ("Heading".toList <:+: draft.last.style) &&
      !draft.last.hasFrame then
    match draft.done.getLast? with
    | some p => ⟨draft.done.dropLast, p⟩
    | none => draft
  else draft

/-- `_append_paragraph_break_at_end(doc) if _doc_body_nonempty(doc)`. -/
def breakIfNonempty (draft : Draft) : Draft := draft.leadBreak cell true

def appendFallback : List Text → Bool → Draft → Draft
  | [], _, draft => draft
  | content :: contents, lead, draft =>
    appendFallback contents true
      (draft.appendBodyParagraph cell writer content (some styleBody) lead)

def appendBlock (lead : Bool) (block : MarkdownBlock) (draft : Draft) : Draft :=
  match block with
  | .heading1 title => draft.appendBodyParagraph cell writer title (some styleMdH1) lead
  | .heading2 title => draft.appendBodyParagraph cell writer title (some styleMdH2) lead
  | .paragraph content => draft.appendBodyParagraph cell writer content (some styleBody) lead
  | .html (some fragment) _ _ =>
    ((draft.leadBreak cell lead).insertFragment cell fragment).trimTrailingEmptyParagraph
  | .html none fallback breaks =>
    (draft.leadBreak cell lead).appendFallback cell writer fallback (breaks && lead)
  | .image .embedded _ => (draft.breakIfNonempty cell).append cell [.image]
  | .image .unread fallback => draft.appendBodyParagraph cell writer fallback (some styleBody) lead
  | .image .refused fallback =>
    (draft.breakIfNonempty cell).appendBodyParagraph cell writer fallback (some styleBody) lead

/-- `_append_markdown_cell`: every block but the first one starts with a break. -/
def appendMarkdownCell (lead : Bool) : List MarkdownBlock → Draft → Draft
  | [], draft => draft
  | block :: blocks, draft =>
    appendMarkdownCell true blocks (draft.appendBlock cell writer lead block)

def appendSegment (draft : Draft) (segment : OutputSegment) : Draft :=
  match segment with
  | .text content =>
    if (strip content).isEmpty then draft
    else draft.appendBodyTextBlock cell writer content (some styleOutput) true
  | .image inserted =>
    let broken := draft.breakAtEnd cell
    if inserted then broken.append cell [.image] else broken

/-- A code cell: the prompt with its run button, the code field in a paragraph
of its own, and the saved outputs. -/
def appendCodeCell (executionCount : Option Nat) (outputs : List OutputSegment)
    (lead : Bool) (draft : Draft) : Draft :=
  let gutter :=
    (draft.appendBodyParagraph cell writer (formatInPrompt executionCount)
      (writer.resolveParaStyle styleNotebookIn) lead).append cell [.runButton cell]
  let field :=
    ((gutter.breakAtEnd cell).withStyle (writer.resolveParaStyle styleBody)).append cell
      [.codeField cell]
  outputs.foldl (appendSegment cell writer) field

def appendCell (lead : Bool) (notebookCell : NotebookCell) (draft : Draft) : Draft :=
  match notebookCell with
  | .markdown blocks => draft.appendMarkdownCell cell writer lead blocks
  | .code executionCount outputs => draft.appendCodeCell cell writer executionCount outputs lead
  | .raw source => draft.appendBodyTextBlock cell writer source (some styleBody) lead

end Draft

/-- `_import_cells` from a cell on. -/
def importFrom (writer : Writer) : Nat → List NotebookCell → Draft → Draft
  | _, [], draft => draft
  | cell, notebookCell :: cells, draft =>
    importFrom writer (cell + 1) cells
      (draft.appendCell cell writer (cell != 0) notebookCell)

/-- The body that `_import_cells` lays out in an empty document. -/
def importCells (writer : Writer) (cells : List NotebookCell) : List Paragraph :=
  (importFrom writer 0 cells Draft.initial).body

end WriterAgent.Notebook
