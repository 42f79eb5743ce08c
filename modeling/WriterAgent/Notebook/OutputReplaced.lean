import WriterAgent.Notebook.RunFrame

/-!
# A run replaces the output

Behind the field of a cell a run leaves its own text and images and at most one
blank paragraph, if the old output holds nothing that clearing takes for the
next cell.
-/

namespace WriterAgent.Notebook

open PyText List

/-- The paragraphs between the field's paragraph of a cell and the next cell. -/
def outputRegion (cell : Nat) (body : List Paragraph) : List Paragraph :=
  match fieldParagraph cell body with
  | none => []
  | some f => (body.drop (f + 1)).takeWhile fun p => p.owners.contains cell

def Paragraph.isShown (p : Paragraph) : Bool := p.hasFrame || !p.isEmpty

def shownIn (region : List Paragraph) : List (List Piece) :=
  (region.filter Paragraph.isShown).map Paragraph.pieces

def CellRun.shownText (run : CellRun) : List (List Piece) :=
  if (strip run.text).isEmpty then [] else [chars (prepareDisplayText run.text)]

def CellRun.shows (run : CellRun) : List (List Piece) :=
  run.shownText ++ run.images.map fun _ => [.image]

/-- What a run can replace: beside what `RunFits` asks for, no old output of the
cell looks like the end of it, its blank paragraphs are empty, the text is not
too long for one cursor move, Writer takes the images, and a bookmark in the
field's paragraph stands at its end. -/
structure RunReplaces (writer : Writer) (body : List Paragraph) (run : CellRun) : Prop
    extends RunFits writer body run where
  cleared : ∀ p ∈ outputRegion run.cell body, endsOutput writer p = false
  bare : ∀ p ∈ outputRegion run.cell body, p.isEmpty = true → p.pieces = []
  short : utf16Length (prepareDisplayText run.text) ≤ 32767
  taken : ∀ inserted ∈ run.images, inserted = true
  atEnd : ∀ mark ∈ run.bookmark, ∀ p ∈ body[mark.1]?,
    Piece.codeField run.cell ∈ p.pieces → mark.2 = p.pieces.length

/-- After the run the region shows the text and the images of the run, with at
most one blank paragraph, and the same run again shows the same. -/
structure ReplacesOutput (writer : Writer) (body : List Paragraph) (run : CellRun) : Prop where
  shown : (fieldParagraph run.cell body).isSome = true →
    (shownIn (outputRegion run.cell (executeAndApply writer body run))).Perm run.shows
  spacer : (fieldParagraph run.cell body).isSome = true →
    ((outputRegion run.cell (executeAndApply writer body run)).filter
      fun p => !p.isShown).length ≤ 1
  again : ∀ next : CellRun, next.cell = run.cell → next.text = run.text →
    next.images = run.images → RunReplaces writer (executeAndApply writer body run) next →
      shownIn (outputRegion run.cell
          (executeAndApply writer (executeAndApply writer body run) next)) =
        shownIn (outputRegion run.cell (executeAndApply writer body run))

variable {p text : Paragraph} {display s : Text}
  {after before body images : List Paragraph} {i n : Nat}

theorem isShown_of_nil (empty : p.pieces = []) : p.isShown = false := by
  rw [Paragraph.isShown, Paragraph.hasFrame, Paragraph.isEmpty, Paragraph.string, empty]
  rfl

theorem isShown_of_chars (pieces : p.pieces = chars s) (visible : (strip s).isEmpty = false) :
    p.isShown = true := by
  have text : p.string = s := by
    rw [Paragraph.string, pieces, chars, filterMap_map]
    exact filterMap_some
  rw [Paragraph.isShown, Paragraph.isEmpty, text, visible]
  simp

theorem isShown_of_image (pieces : p.pieces = [.image]) : p.isShown = true := by
  rw [Paragraph.isShown, Paragraph.hasFrame, pieces]
  rfl

theorem hasFrame_of_chars (pieces : p.pieces = chars s) : p.hasFrame = false := by
  rw [Paragraph.hasFrame, pieces, any_eq_false]
  intro piece member
  obtain ⟨c, -, rfl⟩ := mem_map.mp member
  exact Bool.false_ne_true

section Region

variable {writer : Writer} {cell : Nat} {pre post lead out : List Paragraph}
  {field : Paragraph} {canvas : Canvas}

theorem Laid.fieldParagraph (laid : Laid cell pre post lead field out body)
    (absent : ∀ p ∈ pre, Piece.codeField cell ∉ p.pieces) :
    fieldParagraph cell body = some (pre ++ lead).length := by
  have within : Within cell pre post lead field out ⟨body, none⟩ :=
    ⟨laid.body, laid.block, fun i m marked => by cases marked⟩
  exact within.fieldParagraph absent

theorem outputRegion_eq (laid : Laid cell pre post lead field out body)
    (absent : ∀ p ∈ pre, Piece.codeField cell ∉ p.pieces) (foreign : ∀ p ∈ post, cell ∉ p.owners) :
    outputRegion cell body = out := by
  have own : ∀ p ∈ out, (fun p : Paragraph => p.owners.contains cell) p = true := by
    intro p member
    simp [(laid.block.ownOut p member).owners]
  rw [outputRegion, laid.fieldParagraph absent]
  dsimp only
  rw [laid.body, drop_succ_at rfl, takeWhile_append_of_pos own]
  cases post with
  | nil => simp
  | cons p post =>
    have other := foreign p (by simp)
    simp [other]

def AtFieldEnd (f length : Nat) (canvas : Canvas) : Prop :=
  ∀ m, canvas.bookmark = some (f, m) → m = length

section

variable (absent : ∀ p ∈ pre, Piece.codeField cell ∉ p.pieces)
  (laid : Laid cell pre post lead field out canvas.body)

include absent laid

theorem reanchor_cases : reanchorOutputBookmark cell canvas = canvas ∨
      reanchorOutputBookmark cell canvas =
        ⟨canvas.body, some ((pre ++ lead).length, field.pieces.length)⟩ := by
  have place := laid.fieldParagraph absent
  have found : canvas.body[(pre ++ lead).length]? = some field := by
    rw [laid.body]
    exact getElem?_at rfl
  unfold reanchorOutputBookmark
  rw [place]
  dsimp only
  rw [found]
  split
  · split
    · exact .inl rfl
    · exact .inr rfl
  · exact .inr rfl

theorem AtFieldEnd.reanchor (tidy : AtFieldEnd (pre ++ lead).length field.pieces.length canvas) :
    AtFieldEnd (pre ++ lead).length field.pieces.length (reanchorOutputBookmark cell canvas) := by
  rcases reanchor_cases absent laid with same | anchored
  · rw [same]
    exact tidy
  · rw [anchored]
    intro m marked
    cases marked
    rfl

end

theorem AtFieldEnd.deleteParagraphs {f length i n : Nat} (behind : f < i)
    (tidy : AtFieldEnd f length canvas) :
    AtFieldEnd f length (canvas.deleteParagraphs writer i n) := by
  by_cases none_doomed : n = 0
  · rw [Canvas.deleteParagraphs, if_pos none_doomed]
    exact tidy
  · intro m marked
    rw [deleteParagraphs_bookmark none_doomed] at marked
    obtain ⟨⟨j, k⟩, old, moved⟩ := Option.bind_eq_some_iff.mp marked
    dsimp only at moved
    split_ifs at moved
    · cases moved
      exact tidy m old
    · cases moved
      omega

theorem AtFieldEnd.clearToEnd {f length : Nat} (tidy : AtFieldEnd f length canvas) :
    AtFieldEnd f length (canvas.clearToEnd i) := by
  unfold Canvas.clearToEnd
  split
  · exact tidy
  · intro m marked
    exact tidy m (Option.filter_eq_some_iff.mp marked).1

theorem Within.reanchor_eq (absent : ∀ p ∈ pre, Piece.codeField cell ∉ p.pieces)
    (within : Within cell pre post lead field out canvas)
    (tidy : AtFieldEnd (pre ++ lead).length field.pieces.length canvas)
    (empty : ∀ p ∈ out, p.pieces = []) :
    reanchorOutputBookmark cell canvas =
      ⟨canvas.body, some ((pre ++ lead).length, field.pieces.length)⟩ := by
  have place := within.fieldParagraph absent
  unfold reanchorOutputBookmark
  rw [place]
  dsimp only
  rw [within.getElem?_field]
  split
  · rename_i i m marked
    split
    · rename_i atHome
      obtain ⟨low, high⟩ := within.bookmark i m marked
      rcases @place_cases pre lead out field i low high with
        rfl | ⟨before, p, after, rfl, at_front⟩
      · obtain rfl := tidy m marked
        cases canvas
        cases marked
        rfl
      · exfalso
        have here := within.getElem?_at at_front
        have elsewhere : (pre ++ lead).length ≠ i := by
          rw [← at_front]
          simp
        rw [isOutputBookmarkHome, here, place, Option.map_some, Paragraph.string,
          empty p (by simp)] at atHome
        rw [Bool.or_eq_true] at atHome
        rcases atHome with reads | isField
        · revert reads
          decide
        · exact elsewhere (Option.some.inj (eq_of_beq isField))
    · rfl
  · rfl

theorem rangeEnd_none {out : List Paragraph} {j : Nat} {lastEmpty : Bool}
    (cleared : ∀ p ∈ out, endsOutput writer p = false) :
    rangeEnd writer j lastEmpty out = none := by
  induction out generalizing j lastEmpty with
  | nil => rfl
  | cons p out induction =>
    have here : ¬endsOutput writer p = true := by simp [cleared p (by simp)]
    rw [rangeEnd, if_neg here]
    exact induction fun q member => cleared q (mem_cons_of_mem _ member)

theorem offsetOf_sum (pieces : List Piece) :
    offsetOf (pieces.map pieceUnits).sum pieces = pieces.length := by
  induction pieces with
  | nil => rfl
  | cons piece pieces induction =>
    rw [map_cons, sum_cons, offsetOf, if_pos (Nat.le_add_right _ _),
      Nat.add_sub_cancel_left, induction, length_cons]

/-- The output holds the text in one paragraph and at most one empty paragraph,
and the bookmark is at the end of the field or of the text. -/
structure Filled (writer : Writer) (cell : Nat) (pre post lead : List Paragraph)
    (field : Paragraph) (display : Text) (before : List Paragraph) (text : Paragraph)
    (after : List Paragraph) (canvas : Canvas) : Prop where
  within : Within cell pre post lead field (before ++ text :: after) canvas
  pieces : text.pieces = chars display
  empty : ∀ p ∈ before ++ after, p.pieces = []
  few : (before ++ after).length ≤ 1
  bookmark : canvas.bookmark = some ((pre ++ lead).length, field.pieces.length) ∨
    canvas.bookmark = some ((pre ++ lead).length + 1 + before.length, display.length) ∧
      writer.marksFollow = true

theorem Within.getElem?_first (within : Within cell pre post lead field (p :: out) canvas) :
    canvas.body[(pre ++ lead).length + 1]? = some p := by
  have whole : Within cell pre post lead field ([] ++ p :: out) canvas := within
  exact whole.getElem?_at length_first

theorem Filled.ensureSpacer
    (filled : Filled writer cell pre post lead field display [] text after canvas) :
    ∃ before text after, Filled writer cell pre post lead field display before text after
      (ensureOneSpacerBeforeNextCell writer ((pre ++ lead).length + 1) canvas) := by
  have within : Within cell pre post lead field (text :: after) canvas := filled.within
  unfold ensureOneSpacerBeforeNextCell
  split
  · exact ⟨_, _, _, filled⟩
  · rename_i next found
    split_ifs
    · exact ⟨_, _, _, filled⟩
    · rename_i notBlank _
      -- what comes behind the text is not one of the empty paragraphs
      obtain rfl : after = [] := by
        cases after with
        | nil => rfl
        | cons q after =>
          exfalso
          have here : canvas.body[(pre ++ lead).length + 1 + 1]? = some q := by
            rw [within.body]
            have shape : pre ++ lead ++ field :: (text :: q :: after ++ post) =
                (pre ++ lead ++ [field, text]) ++ q :: (after ++ post) := by simp
            rw [shape]
            exact getElem?_at (by simp [Nat.add_assoc])
          rw [here] at found
          cases found
          have shown := isShown_of_nil (filled.empty next (by simp))
          rw [Paragraph.isShown, Bool.or_eq_false_iff, Bool.not_eq_false'] at shown
          exact notBlank (by rw [shown.1, shown.2]; rfl)
      refine ⟨[{ text with pieces := text.pieces.take 0 }],
        { text with pieces := text.pieces.drop 0 }, [], within.splitParagraph_first 0,
        filled.pieces, by simp, by simp, ?_⟩
      rw [splitParagraph_bookmark within.getElem?_first]
      rcases filled.bookmark with marked | ⟨marked, follows⟩
      · exact .inl (by rw [marked]; simp)
      · exact .inr ⟨by rw [marked, follows]; simp, follows⟩
    · exact ⟨_, _, _, filled⟩

theorem Within.splitIfMashed_eq (within : Within cell pre post lead field (text :: out) canvas)
    (pieces : text.pieces = chars display) (short : utf16Length display ≤ 32767) :
    splitIfStdoutMashedOntoChrome writer ((pre ++ lead).length + 1) display canvas =
      ensureOneSpacerBeforeNextCell writer ((pre ++ lead).length + 1)
        (canvas.setStyle ((pre ++ lead).length + 1) (writer.resolveParaStyle styleOutput)) := by
  have length : min (utf16Length display) 32767 = (text.pieces.map pieceUnits).sum := by
    rw [Nat.min_eq_left short, utf16Length_eq, pieces]
  have nothing : (strip (([] : List Piece).filterMap Piece.char?)).isEmpty = true := by decide
  unfold splitIfStdoutMashedOntoChrome
  dsimp only
  rw [within.drop_field, cons_append, length, goRight_within _ (Nat.le_refl _), offsetOf_sum]
  dsimp only
  rw [Nat.add_zero, within.getElem?_first, Option.map_some, Option.getD_some, drop_length,
    if_pos nothing]

theorem filled_of_fillParagraph (noReturn : '\r' ∉ display) (short : utf16Length display ≤ 32767)
    (within : Within cell pre post lead field (p :: after) canvas)
    (empty : ∀ q ∈ p :: after, q.pieces = []) (few : after.length ≤ 1)
    (bookmark : canvas.bookmark = some ((pre ++ lead).length, field.pieces.length) ∨
      canvas.bookmark = some ((pre ++ lead).length + 1, 0) ∧ writer.marksFollow = true) :
    ∃ before text after, Filled writer cell pre post lead field display before text after
      (fillParagraph writer ((pre ++ lead).length + 1) display canvas) := by
  have styled := within.setStyle_first (writer.resolveParaStyle styleOutput)
  have filled := @Within.insertString_first writer _ _ _ _ _ _ _ _ _ noReturn styled
  have noPieces : (p.withStyle (writer.resolveParaStyle styleOutput)).pieces = [] := by
    rw [Paragraph.withStyle_pieces]
    exact empty p mem_cons_self
  have marked := @insertString_bookmark writer _ _ _ _ noReturn styled.getElem?_first
  rw [noPieces, append_nil] at filled
  unfold fillParagraph
  rw [splitOn_eq_singleton noReturn]
  change ∃ before text after, Filled writer cell pre post lead field display before text after
    (splitIfStdoutMashedOntoChrome writer ((pre ++ lead).length + 1) display
      ((canvas.setStyle ((pre ++ lead).length + 1)
        (writer.resolveParaStyle styleOutput)).insertString writer
          ((pre ++ lead).length + 1) display))
  rw [filled.splitIfMashed_eq rfl short]
  apply Filled.ensureSpacer
  refine ⟨filled.setStyle_first _, Paragraph.withStyle_pieces _ _, ?_, ?_, ?_⟩
  · exact fun q member => empty q (mem_cons_of_mem _ (by simpa using member))
  · simpa using few
  · rw [Canvas.setStyle, marked, Canvas.setStyle]
    rcases bookmark with atField | ⟨atText, follows⟩
    · exact .inl (by rw [atField]; simp)
    · exact .inr ⟨by rw [atText, follows]; simp, follows⟩

theorem Filled.reanchor (absent : ∀ p ∈ pre, Piece.codeField cell ∉ p.pieces)
    (filled : Filled writer cell pre post lead field display before text after canvas) :
    Filled writer cell pre post lead field display before text after
      (reanchorOutputBookmark cell canvas) := by
  refine { filled with within := filled.within.reanchor absent, bookmark := ?_ }
  rcases reanchor_cases absent filled.within.laid with same | anchored
  · rw [same]
    exact filled.bookmark
  · rw [anchored]
    exact .inl rfl

theorem split_around_text {front back : List Paragraph} {next : Paragraph}
    (few : (before ++ after).length ≤ 1) (same : before ++ text :: after = front ++ next :: back)
    (other : next ≠ text) :
    front = [] ∧ before = [next] ∧ after = [] ∧ back = [text] ∨
      front = [text] ∧ before = [] ∧ after = [next] ∧ back = [] := by
  match before, after, few with
  | [], [], _ =>
    cases front with
    | nil => exact absurd (List.cons.inj same).1.symm other
    | cons p front => simp at same
  | [], [q], _ =>
    match front with
    | [] => exact absurd (List.cons.inj same).1.symm other
    | [p] =>
      obtain ⟨rfl, rest⟩ := List.cons.inj same
      obtain ⟨rfl, rfl⟩ := List.cons.inj rest
      exact .inr ⟨rfl, rfl, rfl, rfl⟩
    | p :: r :: front => simp at same
  | [q], [], _ =>
    match front with
    | [] =>
      obtain ⟨rfl, rfl⟩ := List.cons.inj same
      exact .inl ⟨rfl, rfl, rfl, rfl⟩
    | [p] =>
      obtain ⟨rfl, rest⟩ := List.cons.inj same
      exact absurd (List.cons.inj rest).1.symm other
    | p :: r :: front => simp at same
  | _ :: _ :: _, _, few => simp at few
  | [_], _ :: _, few => simp at few
  | [], _ :: _ :: _, few => simp at few

theorem insertRunImages_all (n : Nat) :
    ∀ {front back : List Paragraph} {p : Paragraph} {canvas : Canvas} {i : Nat},
      p.isShown = true → canvas.body = front ++ p :: back → front.length = i →
        ∃ images : List Paragraph, images.map Paragraph.pieces = List.replicate n [Piece.image] ∧
            (∀ q ∈ images, q.owners = p.owners) ∧
            (insertRunImages writer (List.replicate n true) (i, p.pieces.length) canvas).body =
              front ++ p :: (images ++ back) := by
  induction n with
  | zero =>
    intro front back p canvas i _ body _
    exact ⟨[], rfl, by simp, body⟩
  | succ n induction =>
    intro front back p canvas i shown body at_front
    have occupied : (canvas.body[i]?.any fun p => p.hasFrame || !p.isEmpty) = true := by
      rw [body, getElem?_at at_front]
      exact shown
    have halves := @splitParagraph_body writer _ _ _ _ _ p.pieces.length body at_front
    rw [take_length, drop_length] at halves
    have behind : (canvas.splitParagraph writer i p.pieces.length).body =
        (front ++ [p]) ++ { p with pieces := [] } :: back := by
      rw [halves, append_assoc]
      rfl
    have at_image : (front ++ [p]).length = i + 1 := by
      rw [length_append, at_front]
      rfl
    have image := insertImage_body 0 behind at_image
    obtain ⟨images, pieces, owners, later⟩ :=
      induction (isShown_of_image rfl) image at_image
    refine ⟨{ p with pieces := [.image] } :: images, ?_, ?_, ?_⟩
    · rw [map_cons, pieces]
      rfl
    · intro q member
      rcases mem_cons.mp member with rfl | inImages
      · rfl
      · exact owners q inImages
    · rw [replicate_succ, insertRunImages, if_pos occupied]
      dsimp only
      rw [if_pos rfl]
      rw [append_assoc] at later
      exact later

theorem own_images (pieces : images.map Paragraph.pieces = List.replicate n [Piece.image])
    (owners : ∀ p ∈ images, p.owners = [cell]) : ∀ p ∈ images, OwnParagraph cell p := by
  intro p member
  refine ⟨owners p member, ?_⟩
  intro other inPieces
  have image : p.pieces ∈ List.replicate n [Piece.image] :=
    pieces ▸ mem_map_of_mem member
  rw [eq_of_mem_replicate image] at inPieces
  cases mem_singleton.mp inPieces

variable (guarded : ∀ p, post.head? = some p → endsOutput writer p = true)

include guarded

theorem rangeEnd_eq {last : Paragraph} {behind : List Paragraph}
    (isBehind : post = last :: behind) :
    ∀ (out : List Paragraph) (j : Nat) (lastEmpty : Bool),
      (∀ p ∈ out, endsOutput writer p = false) →
        rangeEnd writer j lastEmpty (out ++ post) = some (j + out.length) ∨
          rangeEnd writer j lastEmpty (out ++ post) = some (j + out.length - 1) ∧
            (out = [] ∧ lastEmpty = true ∨ ∃ front q, out = front ++ [q] ∧ q.isEmpty = true) := by
  intro out
  induction out with
  | nil =>
    intro j lastEmpty _
    have ends := guarded last (by rw [isBehind]; rfl)
    rw [isBehind, nil_append, rangeEnd, if_pos ends]
    cases lastEmpty with
    | true => exact .inr ⟨rfl, .inl ⟨rfl, rfl⟩⟩
    | false => exact .inl rfl
  | cons p out induction =>
    intro j lastEmpty cleared
    have here : ¬endsOutput writer p = true := by simp [cleared p (by simp)]
    rw [cons_append, rangeEnd, if_neg here]
    have size : j + 1 + out.length = j + (p :: out).length := by
      rw [length_cons]
      omega
    rcases induction (j + 1) (isLeftoverEmptyParagraph p && !p.hasFrame)
      (fun q member => cleared q (mem_cons_of_mem _ member)) with whole | ⟨fewer, blank⟩
    · exact .inl (by rw [whole, size])
    · refine .inr ⟨by rw [fewer, size], .inr ?_⟩
      rcases blank with ⟨rfl, isBlank⟩ | ⟨front, q, rfl, isEmpty⟩
      · refine ⟨[], p, rfl, ?_⟩
        rw [isLeftoverEmptyParagraph, Bool.and_eq_true, Bool.and_eq_true] at isBlank
        exact isBlank.1.1
      · exact ⟨p :: front, q, rfl, isEmpty⟩

theorem Within.cleared (absent : ∀ p ∈ pre, Piece.codeField cell ∉ p.pieces)
    (within : Within cell pre post lead field out (reanchorOutputBookmark cell canvas))
    (tidy : AtFieldEnd (pre ++ lead).length field.pieces.length
      (reanchorOutputBookmark cell canvas))
    (cleared : ∀ p ∈ out, endsOutput writer p = false)
    (bare : ∀ p ∈ out, p.isEmpty = true → p.pieces = []) :
    ∃ out', Within cell pre post lead field out' (Notebook.clearCellOutput writer cell canvas) ∧
      AtFieldEnd (pre ++ lead).length field.pieces.length
        (Notebook.clearCellOutput writer cell canvas) ∧
      out'.length ≤ 1 ∧ ∀ p ∈ out', p.pieces = [] := by
  rcases within.clearCellOutput_cases guarded absent with
    ⟨same, ends⟩ | ⟨p, out', canvas', rfl, same, cut⟩
  · rw [same]
    cases out with
    | nil => exact ⟨[], within, tidy, Nat.zero_le _, by simp⟩
    | cons q out =>
      have open_end := cleared q (by simp)
      rw [ends q rfl] at open_end
      cases open_end
  · obtain ⟨kept, within', tidy', few, empty⟩ : ∃ kept,
        Within cell pre post lead field kept canvas' ∧
          AtFieldEnd (pre ++ lead).length field.pieces.length canvas' ∧
            kept.length ≤ 1 ∧ ∀ p ∈ kept, p.pieces = [] := by
      rcases cut with ⟨n, found, rfl⟩ | ⟨rfl, rfl⟩
      · have rest : ∃ doomed kept, p :: out' = doomed ++ kept ∧ doomed.length = n ∧
            kept.length ≤ 1 ∧ ∀ q ∈ kept, q.isEmpty = true := by
          cases isBehind : post with
          | nil =>
            rw [isBehind] at found
            rw [append_nil, rangeEnd_none fun q member =>
              cleared q (mem_cons_of_mem _ member)] at found
            cases found
          | cons last later =>
            rcases rangeEnd_eq guarded isBehind out' 1 (isLeftoverEmptyParagraph p && !p.hasFrame)
              (fun q member => cleared q (mem_cons_of_mem _ member)) with
              whole | ⟨fewer, blank⟩
            · rw [whole] at found
              cases found
              exact ⟨p :: out', [], by simp, by simp [Nat.add_comm], by simp, by simp⟩
            · rw [fewer] at found
              cases found
              rcases blank with ⟨rfl, isBlank⟩ | ⟨front, q, rfl, isEmpty⟩
              · rw [isLeftoverEmptyParagraph, Bool.and_eq_true, Bool.and_eq_true] at isBlank
                exact ⟨[], [p], rfl, rfl, by simp, by simpa using isBlank.1.1⟩
              · refine ⟨p :: front, [q], rfl, ?_, by simp, by simpa using isEmpty⟩
                simp
        obtain ⟨doomed, kept, split_out, count, few, blank⟩ := rest
        rw [split_out] at within bare
        obtain ⟨after', samePieces, deleted⟩ :=
          @Within.deleteParagraphs writer cell pre post lead field _ [] kept _ doomed n
            within length_first count (kept_of_guarded guarded)
        have sameLength : after'.length = kept.length := by
          rw [← length_map Paragraph.pieces, samePieces, length_map]
        refine ⟨after', deleted, tidy.deleteParagraphs (Nat.lt_succ_self _), sameLength ▸ few, ?_⟩
        intro q member
        have inPieces : q.pieces ∈ kept.map Paragraph.pieces :=
          samePieces ▸ mem_map_of_mem member
        obtain ⟨r, inKept, same⟩ := mem_map.mp inPieces
        rw [← same]
        exact bare r (mem_append_right _ inKept) (blank r inKept)
      · have whole : Within cell pre [] lead field ([] ++ p :: out')
            (reanchorOutputBookmark cell canvas) := within
        exact ⟨_, whole.clearToEnd length_first, tidy.clearToEnd, by simp, by simp⟩
    rw [same]
    split
    · exact ⟨kept, within'.reanchor absent, tidy'.reanchor absent within'.laid, few, empty⟩
    · exact ⟨kept, within', tidy', few, empty⟩

theorem Filled.collapseRound (visible : (strip display).isEmpty = false)
    (absent : ∀ p ∈ pre, Piece.codeField cell ∉ p.pieces) {canvas' : Canvas}
    (filled : Filled writer cell pre post lead field display before text after canvas)
    (round : collapseRound writer cell canvas = some canvas') :
    ∃ before text after,
      Filled writer cell pre post lead field display before text after canvas' := by
  obtain ⟨start, started, round⟩ := Option.bind_eq_some_iff.mp round
  obtain ⟨next, found, round⟩ := Option.bind_eq_some_iff.mp round
  obtain ⟨low, high⟩ := filled.within.collapseStart_bounds absent started
  split at round
  · cases round
  · rename_i blank
    rw [Bool.or_eq_true, not_or] at blank
    obtain ⟨front, back, split_out, at_front⟩ :=
      filled.within.split_next guarded low high found blank.1
    have other : next ≠ text := by
      rintro rfl
      have shown := isShown_of_chars filled.pieces visible
      rw [Paragraph.isShown, hasFrame_of_chars filled.pieces] at shown
      exact blank.2 shown
    have within := filled.within
    rcases split_around_text filled.few split_out other with
      ⟨rfl, rfl, rfl, rfl⟩ | ⟨rfl, rfl, rfl, rfl⟩
    · -- the blank paragraph before the text
      have room : start + 2 < canvas.body.length := by
        rw [within.body]
        simp only [length_append, length_cons, length_nil] at at_front ⊢
        omega
      rw [if_pos room] at round
      cases round
      have cut : Within cell pre post lead field ([] ++ ([next] ++ [text])) canvas := within
      obtain ⟨kept, pieces, deleted⟩ := cut.deleteParagraphs at_front rfl (kept_of_guarded guarded)
      obtain ⟨text', rest, rfl⟩ : ∃ text' rest, kept = text' :: rest := by
        cases kept with
        | nil => cases pieces
        | cons text' rest => exact ⟨text', rest, rfl⟩
      obtain ⟨samePieces, noRest⟩ := List.cons.inj pieces
      obtain rfl := map_eq_nil_iff.mp noRest
      refine ⟨[], text', [], deleted, samePieces.trans filled.pieces, by simp, by simp, ?_⟩
      have starts : start = (pre ++ lead).length := by
        simp only [length_append, length_cons, length_nil] at at_front ⊢
        omega
      rw [deleteParagraphs_bookmark Nat.one_ne_zero, starts]
      rcases filled.bookmark with marked | ⟨marked, follows⟩
      · exact .inl (by rw [marked]; simp)
      · exact .inr ⟨by rw [marked]; simp, follows⟩
    · -- the blank paragraph behind the text
      have starts : start = (pre ++ lead).length + 1 := by
        simp only [length_append, length_cons, length_nil] at at_front ⊢
        omega
      have marks : canvas.bookmark = some ((pre ++ lead).length, field.pieces.length) ∨
          canvas.bookmark = some ((pre ++ lead).length + 1, display.length) ∧
            writer.marksFollow = true := filled.bookmark
      split at round
      · cases round
        have cut : Within cell pre post lead field ([text] ++ ([next] ++ [])) canvas := within
        obtain ⟨kept, pieces, deleted⟩ :=
          cut.deleteParagraphs at_front rfl (kept_of_guarded guarded)
        obtain rfl := map_eq_nil_iff.mp pieces
        refine ⟨[], text, [], deleted, filled.pieces, by simp, by simp, ?_⟩
        rw [deleteParagraphs_bookmark Nat.one_ne_zero, starts]
        rcases marks with marked | ⟨marked, follows⟩
        · exact .inl (by rw [marked]; exact if_pos (by omega))
        · exact .inr ⟨by rw [marked]; simp, follows⟩
      · rename_i last
        cases round
        obtain rfl : post = [] := by
          rw [within.body] at last
          simp only [length_append, length_cons, length_nil] at last at_front
          exact eq_nil_of_length_eq_zero (by omega)
        have whole : Within cell pre [] lead field ([text] ++ next :: []) canvas := within
        refine ⟨[], text, [{ next with pieces := [] }], whole.clearToEnd at_front, filled.pieces,
          by simp, by simp, ?_⟩
        rw [clearToEnd_bookmark (whole.getElem?_at at_front), starts]
        rcases marks with marked | ⟨marked, follows⟩
        · exact .inl (by rw [marked]; exact if_pos (decide_eq_true (by omega)))
        · exact .inr ⟨by rw [marked]; simp, follows⟩

theorem filled_of_insertStdoutParagraph (visible : (strip display).isEmpty = false)
    (noReturn : '\r' ∉ display) (short : utf16Length display ≤ 32767)
    (absent : ∀ p ∈ pre, Piece.codeField cell ∉ p.pieces)
    (within : Within cell pre post lead field out canvas)
    (bookmark : canvas.bookmark = some ((pre ++ lead).length, field.pieces.length))
    (few : out.length ≤ 1) (empty : ∀ p ∈ out, p.pieces = []) :
    ∃ before text after, Filled writer cell pre post lead field display before text after
      (insertStdoutParagraph writer cell display canvas) := by
  obtain ⟨p, out', broken, broken_within, same, started⟩ :=
    within.insertStdoutParagraph_cases guarded absent display
  have ready : (∀ q ∈ p :: out', q.pieces = []) ∧ out'.length ≤ 1 ∧
      (broken.bookmark = some ((pre ++ lead).length, field.pieces.length) ∨
        broken.bookmark = some ((pre ++ lead).length + 1, 0) ∧ writer.marksFollow = true) := by
    rcases started with ⟨rfl, rfl⟩ | ⟨rfl, rfl, rfl⟩
    · rw [length_cons] at few
      exact ⟨empty, by omega, .inl bookmark⟩
    · refine ⟨forall_mem_cons.mpr ⟨rfl, empty⟩, few, ?_⟩
      rw [splitParagraph_bookmark within.getElem?_field, bookmark]
      cases follows : writer.marksFollow with
      | true => exact .inr ⟨by simp, rfl⟩
      | false => exact .inl (by simp)
  obtain ⟨_, _, _, filled⟩ :=
    filled_of_fillParagraph noReturn short broken_within ready.1 ready.2.1 ready.2.2
  have round : ∀ canvas canvas', (∃ before text after,
        Filled writer cell pre post lead field display before text after canvas) →
      collapseRound writer cell canvas = some canvas' → ∃ before text after,
        Filled writer cell pre post lead field display before text after canvas' :=
    fun _ _ ⟨_, _, _, current⟩ made => current.collapseRound guarded visible absent made
  rw [same]
  exact collapse_preserves round 16 ⟨_, _, _, filled.reanchor absent⟩

end Region

theorem shownIn_append (front back : List Paragraph) :
    shownIn (front ++ back) = shownIn front ++ shownIn back := by
  simp [shownIn]

theorem shownIn_of_nil {region : List Paragraph} (empty : ∀ p ∈ region, p.pieces = []) :
    shownIn region = [] := by
  rw [shownIn, map_eq_nil_iff, filter_eq_nil_iff]
  intro p member
  rw [isShown_of_nil (empty p member)]
  exact Bool.false_ne_true

theorem shownIn_images (pieces : images.map Paragraph.pieces = List.replicate n [Piece.image]) :
    shownIn images = List.replicate n [Piece.image] := by
  have all : images.filter Paragraph.isShown = images := by
    rw [filter_eq_self]
    intro p member
    have image : p.pieces ∈ List.replicate n [Piece.image] :=
      pieces ▸ mem_map_of_mem member
    exact isShown_of_image (eq_of_mem_replicate image)
  rw [shownIn, all, pieces]

theorem length_blanks (region : List Paragraph) :
    (region.filter fun p => !p.isShown).length + (shownIn region).length = region.length := by
  rw [shownIn, length_map]
  have both := length_eq_length_filter_add (l := region) Paragraph.isShown
  omega

theorem images_eq_replicate {images : List Bool} (taken : ∀ inserted ∈ images, inserted = true) :
    images = List.replicate images.length true :=
  eq_replicate_iff.mpr ⟨rfl, taken⟩

theorem strip_prepareDisplayText (visible : (strip s).isEmpty = false) :
    (strip (prepareDisplayText s)).isEmpty = false := by
  unfold prepareDisplayText
  split
  · exact visible
  · have bracket : '[' ∈ strip (s.take (50000 - "\n\n[… truncated for import …]".toList.length) ++
          "\n\n[… truncated for import …]".toList) :=
      mem_strip (mem_append_right _ (by decide)) (by decide)
    rw [isEmpty_eq_false_iff_exists_mem]
    exact ⟨'[', bracket⟩

section Result

variable {writer : Writer} {pre post lead out : List Paragraph} {field : Paragraph}
  {canvas : Canvas} {run : CellRun}

/-- The output with the images put somewhere into it. -/
structure ShowsRun (run : CellRun) (pre post lead : List Paragraph) (field : Paragraph)
    (body : List Paragraph) (out : List Paragraph) : Prop where
  laid : Laid run.cell pre post lead field out body
  shown : (shownIn out).Perm run.shows
  few : out.length ≤ run.shows.length + 1

theorem showsRun_of_images (front : List Paragraph)
    (taken : ∀ inserted ∈ run.images, inserted = true)
    (laid : Laid run.cell pre post lead field (before ++ after) canvas.body)
    (isShown : p.isShown = true) (owned : p.owners = [run.cell])
    (shape : pre ++ lead ++ field :: before = front ++ [p]) (at_front : front.length = i)
    (shown : (shownIn (before ++ after)) = run.shownText)
    (few : (before ++ after).length ≤ run.shownText.length + 1) :
    ∃ out', ShowsRun run pre post lead field
      (insertRunImages writer run.images (i, p.pieces.length) canvas).body out' := by
  have body : canvas.body = front ++ p :: (after ++ post) := by
    rw [laid.body]
    have whole : pre ++ lead ++ field :: (before ++ after ++ post) =
        (pre ++ lead ++ field :: before) ++ (after ++ post) := by simp
    rw [whole, shape]
    simp
  obtain ⟨images, pieces, owners, inserted⟩ :=
    @insertRunImages_all writer run.images.length _ _ _ _ _ isShown body at_front
  rw [← images_eq_replicate taken] at inserted
  have size : images.length = run.images.length := by
    rw [← length_map Paragraph.pieces, pieces, length_replicate]
  have shows : run.shows = run.shownText ++ List.replicate run.images.length [.image] := by
    rw [CellRun.shows, map_const']
  have parts : CellBlock run.cell lead field (before ++ ([] ++ after)) := laid.block
  have own := own_images pieces fun q member => (owners q member).trans owned
  refine ⟨before ++ (images ++ after), ⟨?_, parts.replace own⟩, ?_, ?_⟩
  · rw [inserted]
    have whole : pre ++ lead ++ field :: (before ++ (images ++ after) ++ post) =
        (pre ++ lead ++ field :: before) ++ (images ++ (after ++ post)) := by simp
    rw [whole, shape]
    simp
  · rw [shows, ← shown, shownIn_append, shownIn_append, shownIn_append, shownIn_images pieces,
      append_assoc]
    exact perm_append_comm.append_left _
  · rw [shows, length_append, length_append, length_append, length_replicate]
    rw [length_append] at few
    omega

theorem Within.showsRun (guarded : ∀ p, post.head? = some p → endsOutput writer p = true)
    (absent : ∀ p ∈ pre, Piece.codeField run.cell ∉ p.pieces) (noReturn : '\r' ∉ run.text)
    (short : utf16Length (prepareDisplayText run.text) ≤ 32767)
    (taken : ∀ inserted ∈ run.images, inserted = true)
    (within : Within run.cell pre post lead field out canvas)
    (tidy : AtFieldEnd (pre ++ lead).length field.pieces.length canvas)
    (few : out.length ≤ 1) (empty : ∀ p ∈ out, p.pieces = []) :
    ∃ out', ShowsRun run pre post lead field
      (Notebook.applyRunResult writer run canvas).body out' := by
  have fieldShown : field.isShown = true := by
    rw [Paragraph.isShown, Bool.or_eq_true]
    refine .inl (any_eq_true.mpr ⟨_, within.block.hasField, rfl⟩)
  have fieldOwned := within.block.ownField.owners
  unfold Notebook.applyRunResult
  dsimp only
  rw [within.reanchor_eq absent tidy empty]
  by_cases blank : ((strip run.text).isEmpty ||
      (strip (prepareDisplayText run.text)).isEmpty) = true
  · rw [if_pos blank]
    have noText : run.shownText = [] := by
      rw [CellRun.shownText, if_pos]
      rw [Bool.or_eq_true] at blank
      rcases blank with text | display
      · exact text
      · by_contra visible
        rw [strip_prepareDisplayText (Bool.not_eq_true _ ▸ visible)] at display
        cases display
    have laid : Laid run.cell pre post lead field ([] ++ out)
        (Canvas.mk canvas.body (some ((pre ++ lead).length, field.pieces.length))).body :=
      within.laid
    exact showsRun_of_images (pre ++ lead) taken laid fieldShown fieldOwned rfl rfl
      (by rw [noText]; exact shownIn_of_nil empty) (by rw [noText]; exact few)
  · rw [if_neg blank]
    have visible := blank
    rw [Bool.or_eq_true, not_or, Bool.not_eq_true, Bool.not_eq_true] at visible
    have anchored : Within run.cell pre post lead field out
        ⟨canvas.body, some ((pre ++ lead).length, field.pieces.length)⟩ := by
      have reanchored := within.reanchor absent
      rwa [within.reanchor_eq absent tidy empty] at reanchored
    obtain ⟨before, text, after, filled⟩ :=
      filled_of_insertStdoutParagraph guarded visible.2 (noReturn_prepare noReturn) short absent
        anchored rfl few empty
    have written : run.shownText = [chars (prepareDisplayText run.text)] := by
      rw [CellRun.shownText, if_neg (by simp [visible.1])]
    generalize prepareDisplayText run.text = display at *
    generalize Notebook.insertStdoutParagraph writer run.cell display _ = canvas' at filled ⊢
    have textShown := isShown_of_chars filled.pieces visible.2
    have shownText : run.shownText = [text.pieces] := by rw [written, filled.pieces]
    have shown : shownIn (before ++ text :: after) = run.shownText := by
      have front := @shownIn_of_nil before fun p member => filled.empty p (by simp [member])
      have back := @shownIn_of_nil after fun p member => filled.empty p (by simp [member])
      rw [shownIn_append, ← singleton_append, shownIn_append, front, back, shownText]
      simp [shownIn, textShown]
    have size : (before ++ text :: after).length ≤ run.shownText.length + 1 := by
      have fewOther := filled.few
      rw [shownText]
      simp only [length_append, length_cons, length_nil] at fewOther ⊢
      omega
    rcases filled.bookmark with marked | ⟨marked, -⟩
    · rw [marked]
      have laid : Laid run.cell pre post lead field ([] ++ (before ++ text :: after))
          canvas'.body := filled.within.laid
      exact showsRun_of_images (pre ++ lead) taken laid fieldShown fieldOwned rfl rfl shown size
    · have textOwned := (filled.within.block.ownOut text (by simp)).owners
      have length : display.length = text.pieces.length := by rw [filled.pieces, chars, length_map]
      have shifted : Laid run.cell pre post lead field ((before ++ [text]) ++ after)
          canvas'.body := by
        rw [append_assoc]
        exact filled.within.laid
      rw [marked, length]
      refine showsRun_of_images (pre ++ lead ++ field :: before) taken shifted textShown textOwned
        ?_ ?_ ?_ ?_
      · simp
      · simp only [length_append, length_cons]
        omega
      · rw [append_assoc]
        exact shown
      · rw [append_assoc]
        exact size

end Result

section Runs

variable {writer : Writer} {body : List Paragraph} {run : CellRun}

theorem executeAndApply_of_none (absent : fieldParagraph run.cell body = none) :
    executeAndApply writer body run = body := by
  unfold executeAndApply
  rw [absent]

theorem RunReplaces.showsRun {stretches : List Stretch} (layout : Layout body stretches)
    (fits : RunReplaces writer body run) (place : (fieldParagraph run.cell body).isSome = true) :
    (shownIn (outputRegion run.cell (executeAndApply writer body run))).Perm run.shows ∧
      (outputRegion run.cell (executeAndApply writer body run)).length ≤ run.shows.length + 1 ∧
        (fieldParagraph run.cell (executeAndApply writer body run)).isSome = true := by
  obtain ⟨f, placed⟩ := Option.isSome_iff_exists.mp place
  obtain ⟨before, after, lead, field, out, runPlace⟩ :=
    exists_runPlace layout fits.toRunFits placed
  have absent := runPlace.absent
  have foreign : ∀ p ∈ after.flatMap Stretch.paragraphs, run.cell ∉ p.owners :=
    fun p member => runPlace.foreign p (mem_append_right _ member)
  have laid := runPlace.laid
  have region : outputRegion run.cell body = out := outputRegion_eq laid absent foreign
  have anchored : Within run.cell (before.flatMap Stretch.paragraphs)
      (after.flatMap Stretch.paragraphs) lead field out
      (reanchorOutputBookmark run.cell ⟨body, run.bookmark⟩) :=
    within_reanchor laid.body laid.block absent
      (fun p member owners => runPlace.foreign p member (by simp [owners])) runPlace.home
  have here : body[(before.flatMap Stretch.paragraphs ++ lead).length]? = some field := by
    rw [laid.body]
    exact getElem?_at rfl
  have tidy : AtFieldEnd (before.flatMap Stretch.paragraphs ++ lead).length field.pieces.length
      ⟨body, run.bookmark⟩ :=
    fun m marked => fits.atEnd _ marked field here laid.block.hasField
  obtain ⟨out₁, within₁, tidy₁, few₁, empty₁⟩ := anchored.cleared runPlace.guarded absent
    (tidy.reanchor absent laid) (region ▸ fits.cleared) (region ▸ fits.bare)
  obtain ⟨out₂, result⟩ := within₁.showsRun runPlace.guarded absent fits.noReturn fits.short
    fits.taken tidy₁ few₁ empty₁
  obtain ⟨lead₃, renumbered⟩ := result.laid.updateInPrompt run.executionCount absent
  have same : executeAndApply writer body run =
      updateInPrompt run.cell run.executionCount (applyRunResult writer run
          (clearCellOutput writer run.cell ⟨body, run.bookmark⟩)).body := by
    unfold executeAndApply
    rw [placed]
  rw [same, outputRegion_eq renumbered absent foreign]
  exact ⟨result.shown, result.few, by rw [renumbered.fieldParagraph absent]; rfl⟩

theorem images_nil_of_cleared {region : List Paragraph} (shown : (shownIn region).Perm run.shows)
    (cleared : ∀ p ∈ region, endsOutput writer p = false) : run.images = [] := by
  by_contra some
  obtain ⟨inserted, images, isCons⟩ := exists_cons_of_ne_nil some
  have image : [Piece.image] ∈ shownIn region := by
    rw [shown.mem_iff, CellRun.shows, isCons]
    simp
  obtain ⟨p, inRegion, pieces⟩ := mem_map.mp image
  have noEnd := cleared p (mem_filter.mp inRegion).1
  rw [endsOutput, Paragraph.hasFrame, pieces] at noEnd
  simp [Piece.char?] at noEnd

theorem eq_of_perm_shownText {left right : List (List Piece)} (first : left.Perm run.shownText)
    (second : right.Perm run.shownText) : left = right := by
  unfold CellRun.shownText at first second
  split at first
  · rename_i blank
    rw [if_pos blank] at second
    rw [first.eq_nil, second.eq_nil]
  · rename_i visible
    rw [if_neg visible] at second
    rw [perm_singleton.mp first, perm_singleton.mp second]

theorem replacesOutput_step (layout : ∃ stretches, Layout body stretches)
    (fits : RunReplaces writer body run) : ReplacesOutput writer body run := by
  obtain ⟨stretches, isLayout⟩ := layout
  refine ⟨fun place => (fits.showsRun isLayout place).1, ?_, ?_⟩
  · intro place
    obtain ⟨shown, few, _⟩ := fits.showsRun isLayout place
    have blanks := length_blanks (outputRegion run.cell (executeAndApply writer body run))
    rw [shown.length_eq] at blanks
    omega
  · intro next sameCell sameText sameImages nextFits
    cases place : fieldParagraph run.cell body with
    | none =>
      rw [executeAndApply_of_none place]
      rw [← sameCell] at place
      rw [executeAndApply_of_none place]
    | some f =>
      have isSome : (fieldParagraph run.cell body).isSome = true := by rw [place]; rfl
      obtain ⟨shown, _, nextPlace⟩ := fits.showsRun isLayout isSome
      obtain ⟨nextStretches, nextLayout⟩ :=
        (executeAndApply_step ⟨stretches, isLayout⟩ fits.toRunFits).1
      rw [← sameCell] at nextPlace
      obtain ⟨nextShown, _, _⟩ := nextFits.showsRun nextLayout nextPlace
      have cleared := nextFits.cleared
      rw [sameCell] at cleared nextShown
      have noImages := images_nil_of_cleared shown cleared
      have alike : next.shows = run.shows := by
        rw [CellRun.shows, CellRun.shows, CellRun.shownText, CellRun.shownText, sameText,
          sameImages]
      have textOnly : run.shows = run.shownText := by
        rw [CellRun.shows, noImages, map_nil, append_nil]
      rw [alike, textOnly] at nextShown
      rw [textOnly] at shown
      exact eq_of_perm_shownText nextShown shown

/-- **Runs that can replace the output of their cell do.** -/
theorem notebookRuns_replaceOutput (writer : Writer) (cells : List NotebookCell)
    (runs : List CellRun)
    (fit : Along (executeAndApply writer) (RunReplaces writer) (importCells writer cells) runs) :
    Along (executeAndApply writer) (ReplacesOutput writer) (importCells writer cells) runs :=
  Along.of_invariant (fun body => ∃ stretches, Layout body stretches)
    (fun _ _ layout fits => (executeAndApply_step layout fits.toRunFits).1)
    (fun _ _ layout fits => replacesOutput_step layout fits)
    (importCells_layout writer cells) fit

/-- Two runs that print the same word. -/
theorem helloRun_replacesOutput :
    Along (executeAndApply plainWriter) (ReplacesOutput plainWriter)
      (importCells plainWriter [.code none [.text "old".toList], .markdown [.heading1 "Next".toList]])
      [helloRun, helloRun] := by
  apply notebookRuns_replaceOutput
  refine ⟨⟨⟨?_, ?_, ?_, ?_⟩, ?_, ?_, ?_, ?_, ?_⟩, ⟨⟨?_, ?_, ?_, ?_⟩, ?_, ?_, ?_, ?_, ?_⟩,
    trivial⟩ <;> decide +kernel

/-- A run of the first cell that plots a picture and prints nothing. -/
def plotRun : CellRun := ⟨0, 1, none, [], [true]⟩

/-- The picture of the first run ends the output for the second one, and stays. -/
theorem plotRun_twice : ¬Along (executeAndApply plainWriter) (ReplacesOutput plainWriter)
      (importCells plainWriter [.code none []]) [plotRun, plotRun] := by
  intro ⟨_, second, _⟩
  have shown := second.shown (by decide +kernel)
  have length := shown.length_eq
  revert length
  decide +kernel

end Runs

end WriterAgent.Notebook
