import Mathlib.Data.List.Nodup
import WriterAgent.Foundations.Runs
import WriterAgent.Notebook.ImportLayout
import WriterAgent.Notebook.OutputFrame

/-!
# Runs keep the other cells

In an imported notebook a run works on the paragraphs of its own cell, if the
paragraph behind them is one that the runner takes for the end of the output.
-/

namespace WriterAgent.Notebook

open PyText List

def foreignTo (cell : Nat) (p : Paragraph) : Bool := p.owners.any (· != cell)

/-- The paragraphs with content of the other cells are the same, in the same
order, and the controls of the cell are still there. -/
structure KeepsOthers (cell : Nat) (body body' : List Paragraph) : Prop where
  others : body'.filter (foreignTo cell) = body.filter (foreignTo cell)
  controls : ∀ control ∈ [Piece.runButton cell, Piece.codeField cell],
    (∃ p ∈ body, control ∈ p.pieces) → ∃ p ∈ body', control ∈ p.pieces

def behindCell (cell : Nat) (body : List Paragraph) : List Paragraph :=
  (body.dropWhile fun p => !p.owners.contains cell).dropWhile fun p => p.owners.contains cell

/-- What the runner takes for granted: the paragraphs of the cell hold nothing
else, a recognizable paragraph comes behind them, the text has no carriage
return, and the bookmark is not in the `Output` paragraph of another cell. -/
structure RunFits (writer : Writer) (body : List Paragraph) (run : CellRun) : Prop where
  alone : ∀ p ∈ body, run.cell ∈ p.owners → p.owners = [run.cell]
  guarded : ∀ p ∈ (behindCell run.cell body).head?, endsOutput writer p = true
  noReturn : '\r' ∉ run.text
  home : ∀ p ∈ run.bookmark.bind fun (i, _) => body[i]?,
    strip p.string = "Output".toList → p.owners = [run.cell]

variable {body pre post : List Paragraph} {cell : Nat} {writer : Writer} {run : CellRun}

theorem behindCell_eq {block : List Paragraph} (before : ∀ p ∈ pre, cell ∉ p.owners)
    (inside : ∀ p ∈ block, cell ∈ p.owners) (behind : ∀ p ∈ post, cell ∉ p.owners)
    (nonempty : block ≠ []) : behindCell cell (pre ++ (block ++ post)) = post := by
  have passed : (pre ++ (block ++ post)).dropWhile (fun p => !p.owners.contains cell) =
      block ++ post := by
    rw [dropWhile_append_of_pos (by simpa using before)]
    obtain ⟨p, block, rfl⟩ := exists_cons_of_ne_nil nonempty
    have first := inside p (by simp)
    simp [first]
  rw [behindCell, passed, dropWhile_append_of_pos (by simpa using inside)]
  cases post with
  | nil => rfl
  | cons p post =>
    have first := behind p (by simp)
    simp [first]

section Place

variable {writer : Writer} {cell : Nat} {body : List Paragraph} {stretches : List Stretch}

theorem Layout.exists_code (layout : Layout body stretches) {p : Paragraph} (member : p ∈ body)
    (inPieces : Piece.codeField cell ∈ p.pieces) :
    ∃ before lead field out after, stretches = before ++ .code cell lead field out :: after := by
  rw [layout.body] at member
  obtain ⟨s, inLayout, inStretch⟩ := mem_flatMap.mp member
  have its := (layout.sound s inLayout).cell_of_field inStretch inPieces
  cases s with
  | plain paragraphs => cases its
  | code other lead field out =>
    cases its
    obtain ⟨before, after, rfl⟩ := append_of_mem inLayout
    exact ⟨before, lead, field, out, after, rfl⟩

variable {before after : List Stretch} {lead out : List Paragraph} {field : Paragraph}

theorem Layout.not_mem_owners
    (layout : Layout body (before ++ .code cell lead field out :: after)) :
    ∀ s ∈ before ++ after, s.cell? ≠ some cell ∧ ∀ p ∈ s.paragraphs, cell ∉ p.owners := by
  have known : cell ∈ cellsOf (before ++ .code cell lead field out :: after) :=
    @mem_cellsOf _ (.code cell lead field out) cell (by simp) rfl
  intro s member
  have different : s.cell? ≠ some cell := by
    intro its
    have nodup : (cellsOf before ++ cell :: cellsOf after).Nodup := by
      have cells := layout.cells
      rw [cellsOf, filterMap_append] at cells
      exact cells
    rw [nodup_middle, nodup_cons] at nodup
    apply nodup.1
    rw [cellsOf, cellsOf, ← filterMap_append]
    exact mem_cellsOf member its
  refine ⟨different, ?_⟩
  intro p inStretch owned
  apply different
  refine layout.owners s ?_ p inStretch cell owned known
  rcases mem_append.mp member with early | late
  · simp [early]
  · simp [late]

theorem Layout.replace (layout : Layout body (before ++ .code cell lead field out :: after))
    {lead' out' : List Paragraph} {field' : Paragraph} {body' : List Paragraph}
    (laid : Laid cell (before.flatMap Stretch.paragraphs) (after.flatMap Stretch.paragraphs)
      lead' field' out' body') :
    Layout body' (before ++ .code cell lead' field' out' :: after) := by
  have sameCells : cellsOf (before ++ .code cell lead' field' out' :: after) =
      cellsOf (before ++ .code cell lead field out :: after) := by
    simp [cellsOf, Stretch.cell?]
  refine ⟨?_, ?_, sameCells ▸ layout.cells, ?_⟩
  · rw [laid.body]
    simp [Stretch.paragraphs]
  · intro s member
    rcases mem_append.mp member with early | later
    · exact layout.sound s (by simp [early])
    · rcases mem_cons.mp later with rfl | late
      · exact laid.block.codeBlock
      · exact layout.sound s (by simp [late])
  · intro s member p inStretch owner owned known
    rw [sameCells] at known
    rcases mem_append.mp member with early | later
    · exact layout.owners s (by simp [early]) p inStretch owner owned known
    · rcases mem_cons.mp later with rfl | late
      · rw [(laid.block.own p inStretch).owners] at owned
        rw [mem_singleton.mp owned]
        rfl
      · exact layout.owners s (by simp [late]) p inStretch owner owned known

end Place

theorem filter_foreignTo {lead out : List Paragraph} {field : Paragraph}
    (laid : Laid cell pre post lead field out body) :
    body.filter (foreignTo cell) = pre.filter (foreignTo cell) ++ post.filter (foreignTo cell) := by
  have own : (lead ++ field :: out).filter (foreignTo cell) = [] := by
    rw [filter_eq_nil_iff]
    intro p member
    simp [foreignTo, (laid.block.own p member).owners]
  have shape : body = pre ++ ((lead ++ field :: out) ++ post) := by
    rw [laid.body]
    simp
  rw [shape, filter_append, filter_append, own, nil_append]

/-- Where a run that fits works: the window of its cell, the stretches before and
behind it. -/
structure RunPlace (writer : Writer) (body : List Paragraph) (run : CellRun)
    (before after : List Stretch) (lead : List Paragraph) (field : Paragraph)
    (out : List Paragraph) : Prop where
  layout : Layout body (before ++ .code run.cell lead field out :: after)
  laid : Laid run.cell (before.flatMap Stretch.paragraphs) (after.flatMap Stretch.paragraphs)
    lead field out body
  guarded : ∀ p, (after.flatMap Stretch.paragraphs).head? = some p →
    endsOutput writer p = true
  absent : ∀ p ∈ before.flatMap Stretch.paragraphs, Piece.codeField run.cell ∉ p.pieces
  foreign : ∀ p ∈ before.flatMap Stretch.paragraphs ++ after.flatMap Stretch.paragraphs,
    run.cell ∉ p.owners
  home : ∀ i m p, run.bookmark = some (i, m) → body[i]? = some p →
    strip p.string = "Output".toList → p.owners = [run.cell]

theorem exists_runPlace {f : Nat} {stretches : List Stretch} (layout : Layout body stretches)
    (fits : RunFits writer body run) (place : fieldParagraph run.cell body = some f) :
    ∃ before after lead field out, RunPlace writer body run before after lead field out := by
  obtain ⟨p, member, inPieces⟩ : ∃ p ∈ body, Piece.codeField run.cell ∈ p.pieces := by
    rw [fieldParagraph, List.findIdx?_eq_some_iff_getElem] at place
    obtain ⟨inBounds, found, -⟩ := place
    exact ⟨body[f], getElem_mem inBounds, contains_iff_mem.mp found⟩
  obtain ⟨before, lead, field, out, after, rfl⟩ := layout.exists_code member inPieces
  have others := layout.not_mem_owners
  have pre : ∀ p ∈ before.flatMap Stretch.paragraphs, run.cell ∉ p.owners := by
    intro p member
    obtain ⟨s, early, inStretch⟩ := mem_flatMap.mp member
    exact (others s (mem_append_left _ early)).2 p inStretch
  have post : ∀ p ∈ after.flatMap Stretch.paragraphs, run.cell ∉ p.owners := by
    intro p member
    obtain ⟨s, late, inStretch⟩ := mem_flatMap.mp member
    exact (others s (mem_append_right _ late)).2 p inStretch
  have shape : body = before.flatMap Stretch.paragraphs ++
      ((lead ++ field :: out) ++ after.flatMap Stretch.paragraphs) := by
    rw [layout.body]
    simp [Stretch.paragraphs]
  have code : CodeBlock run.cell lead field out := layout.sound (.code _ _ _ _) (by simp)
  refine ⟨before, after, lead, field, out, layout, ⟨by rw [shape]; simp, code.alone ?_⟩, ?_, ?_,
    ?_, ?_⟩
  · intro p member
    have inBody : p ∈ body := by
      rw [shape]
      exact mem_append_right _ (mem_append_left _ member)
    exact fits.alone p inBody (code.owned p member)
  · have behind := behindCell_eq pre code.owned post (by simp)
    rw [← shape] at behind
    intro p first
    exact fits.guarded p (by rw [behind]; exact first)
  · intro p member inPieces
    obtain ⟨s, early, inStretch⟩ := mem_flatMap.mp member
    exact (others s (mem_append_left _ early)).1
      ((layout.sound s (by simp [early])).cell_of_field inStretch inPieces)
  · intro p member
    rcases mem_append.mp member with inPre | inPost
    · exact pre p inPre
    · exact post p inPost
  · intro i m p marked found
    exact fits.home p (by rw [marked]; exact found)

theorem executeAndApply_step (layout : ∃ stretches, Layout body stretches)
    (fits : RunFits writer body run) :
    (∃ stretches, Layout (executeAndApply writer body run) stretches) ∧
      KeepsOthers run.cell body (executeAndApply writer body run) := by
  cases place : fieldParagraph run.cell body with
  | none =>
    have unchanged : executeAndApply writer body run = body := by
      unfold executeAndApply
      rw [place]
    rw [unchanged]
    exact ⟨layout, rfl, fun _ _ found => found⟩
  | some f =>
    obtain ⟨stretches, layout⟩ := layout
    obtain ⟨before, after, lead, field, out, runPlace⟩ := exists_runPlace layout fits place
    obtain ⟨lead', field', out', laid'⟩ := executeAndApply_laid runPlace.guarded runPlace.laid
      runPlace.absent
      (fun p member owners => runPlace.foreign p member (by simp [owners]))
      fits.noReturn runPlace.home
    refine ⟨⟨_, runPlace.layout.replace laid'⟩, ?_, ?_⟩
    · rw [filter_foreignTo runPlace.laid, filter_foreignTo laid']
    · intro control isControl _
      obtain ⟨gutter, rest, hasGutter, inGutter⟩ := laid'.block.button
      rcases mem_cons.mp isControl with rfl | isField
      · exact ⟨gutter, by rw [laid'.body, hasGutter]; simp, inGutter⟩
      · rw [mem_singleton.mp isField]
        exact ⟨field', by rw [laid'.body]; simp, laid'.block.hasField⟩

/-- **Runs that fit leave the other cells alone.** -/
theorem notebookRuns_keepOthers (writer : Writer) (cells : List NotebookCell) (runs : List CellRun)
    (fit : Along (executeAndApply writer) (RunFits writer) (importCells writer cells) runs) :
    Along (executeAndApply writer)
      (fun body run => KeepsOthers run.cell body (executeAndApply writer body run))
      (importCells writer cells) runs :=
  Along.of_invariant (fun body => ∃ stretches, Layout body stretches)
    (fun _ _ layout fits => (executeAndApply_step layout fits).1)
    (fun _ _ layout fits => (executeAndApply_step layout fits).2)
    (importCells_layout writer cells) fit

def plainWriter : Writer := ⟨some, fun c => c.isAlphanum, true, true⟩

def helloRun : CellRun := ⟨0, 1, some (1, 1), "hello".toList, []⟩

theorem helloRun_keepsHeading : Along (executeAndApply plainWriter)
      (fun body run => KeepsOthers run.cell body (executeAndApply plainWriter body run))
      (importCells plainWriter [.code none [], .markdown [.heading1 "Next".toList]])
      [helloRun, helloRun] := by
  apply notebookRuns_keepOthers
  refine ⟨⟨?_, ?_, ?_, ?_⟩, ⟨?_, ?_, ?_, ?_⟩, trivial⟩ <;> decide +kernel

/-- A block quote behind a code cell, in the style that Writer gives it. -/
def quoteBehindCode : List NotebookCell :=
  [.code none [], .markdown
      [.html (some [⟨"Quotations".toList, chars "note".toList, chars_plain _⟩]) [] true]]

/-- The block quote is taken for old output, and the new output is put in it. -/
theorem helloRun_overwritesQuote : ¬ Along (executeAndApply plainWriter)
      (fun body run => KeepsOthers run.cell body (executeAndApply plainWriter body run))
      (importCells plainWriter quoteBehindCode) [helloRun] := by
  intro ⟨keeps, _⟩
  have others := keeps.others
  revert others
  decide +kernel

end WriterAgent.Notebook
