import WriterAgent.Notebook.OutputWindow

/-!
# A run stays in the window

Clearing, writing the text, collapsing blank paragraphs, inserting images and
renumbering: each of them keeps the paragraphs before and behind the window of
the cell, and the run button and the code field in it.
-/

namespace WriterAgent.Notebook

open PyText List

variable {p : Paragraph} {n start : Nat} {display : Text} {body : List Paragraph} {run : CellRun}

section Run

variable {writer : Writer} {cell : Nat} {pre post lead out : List Paragraph}
  {field : Paragraph} {canvas : Canvas}

theorem Within.reanchor (within : Within cell pre post lead field out canvas)
    (absent : ∀ p ∈ pre, Piece.codeField cell ∉ p.pieces) :
    Within cell pre post lead field out (reanchorOutputBookmark cell canvas) := by
  have place := within.fieldParagraph absent
  have anchored : ∀ k, Within cell pre post lead field out
      { canvas with bookmark := some ((pre ++ lead).length, k) } := by
    intro k
    refine ⟨within.body, within.block, ?_⟩
    intro i m marked
    cases marked
    omega
  unfold reanchorOutputBookmark
  rw [place]
  dsimp only
  split
  · split
    · exact within
    · exact anchored _
  · exact anchored _

theorem string_of_promptLike (prompt : PromptLike p) : strip p.string ≠ "Output".toList := by
  obtain ⟨leading, objects, pieces, noText, different⟩ := prompt
  have rest : objects.filterMap Piece.char? = [] := by
    rw [filterMap_eq_nil_iff]
    exact noText
  have text : p.string = leading := by
    rw [Paragraph.string, pieces, filterMap_append, rest, append_nil, chars, filterMap_map]
    exact filterMap_some
  rw [text]
  exact different

theorem within_reanchor (body : canvas.body = pre ++ lead ++ field :: (out ++ post))
    (block : CellBlock cell lead field out)
    (absent : ∀ p ∈ pre, Piece.codeField cell ∉ p.pieces)
    (outside : ∀ p ∈ pre ++ post, p.owners ≠ [cell])
    (home : ∀ i m p, canvas.bookmark = some (i, m) → canvas.body[i]? = some p →
      strip p.string = "Output".toList → p.owners = [cell]) :
    Within cell pre post lead field out (reanchorOutputBookmark cell canvas) := by
  -- the bookmark taken away, the body is in shape
  have bare : Within cell pre post lead field out { canvas with bookmark := none } :=
    ⟨body, block, fun i m marked => by cases marked⟩
  have place : fieldParagraph cell canvas.body = some (pre ++ lead).length :=
    bare.fieldParagraph absent
  have anchored : ∀ k, Within cell pre post lead field out
      { canvas with bookmark := some ((pre ++ lead).length, k) } := by
    intro k
    refine ⟨body, block, ?_⟩
    intro i m marked
    cases marked
    omega
  unfold reanchorOutputBookmark
  rw [place]
  dsimp only
  split
  · rename_i i m marked
    split
    · rename_i atHome
      refine ⟨body, block, ?_⟩
      intro i' m' same
      rw [marked] at same
      cases same
      rw [isOutputBookmarkHome, Bool.or_eq_true, place] at atHome
      rcases atHome with reads | isField
      · cases found : canvas.body[i]? with
        | none =>
          rw [found] at reads
          cases reads
        | some p =>
          rw [found] at reads
          have reading : strip p.string = "Output".toList := eq_of_beq reads
          have owned := home i m p marked found reading
          constructor
          · by_contra early
            rw [body, List.getElem?_append_left (Nat.lt_of_not_le early)] at found
            rcases mem_append.mp (mem_of_getElem? found) with inPre | inLead
            · exact outside p (by simp [inPre]) owned
            · exact string_of_promptLike (block.prompts p inLead).1 reading
          · by_contra late
            have behind : canvas.body = (pre ++ lead ++ field :: out) ++ post := by
              rw [body]
              simp
            have past : (pre ++ lead ++ field :: out).length ≤ i := by
              simp only [length_append, length_cons] at late ⊢
              omega
            rw [behind, List.getElem?_append_right past] at found
            exact outside p (by simp [mem_of_getElem? found]) owned
      · have same := eq_of_beq isField
        cases same
        omega
    · exact anchored _
  · exact anchored _

theorem length_first : (pre ++ lead ++ field :: ([] : List Paragraph)).length =
    (pre ++ lead).length + 1 := by
  simp [Nat.add_assoc]

theorem Within.setStyle_first (style : Option Text)
    (within : Within cell pre post lead field (p :: out) canvas) :
    Within cell pre post lead field (p.withStyle style :: out)
      (canvas.setStyle ((pre ++ lead).length + 1) style) := by
  have whole : Within cell pre post lead field ([] ++ p :: out) canvas := within
  exact whole.setStyle style length_first

theorem Within.setStyle_second {q : Paragraph} (style : Option Text)
    (within : Within cell pre post lead field (p :: q :: out) canvas) :
    Within cell pre post lead field (p :: q.withStyle style :: out)
      (canvas.setStyle ((pre ++ lead).length + 1 + 1) style) := by
  have whole : Within cell pre post lead field ([p] ++ q :: out) canvas := within
  exact whole.setStyle style (by simp [Nat.add_assoc])

theorem Within.splitParagraph_first (k : Nat)
    (within : Within cell pre post lead field (p :: out) canvas) :
    Within cell pre post lead field
      ({ p with pieces := p.pieces.take k } :: { p with pieces := p.pieces.drop k } :: out)
      (canvas.splitParagraph writer ((pre ++ lead).length + 1) k) := by
  have whole : Within cell pre post lead field ([] ++ p :: out) canvas := within
  exact whole.splitParagraph k length_first

theorem Within.insertString_first {p : Paragraph} {s : Text} (noReturn : '\r' ∉ s)
    (within : Within cell pre post lead field (p :: out) canvas) :
    Within cell pre post lead field ({ p with pieces := chars s ++ p.pieces } :: out)
      (canvas.insertString writer ((pre ++ lead).length + 1) s) := by
  have whole : Within cell pre post lead field ([] ++ p :: out) canvas := within
  exact whole.insertString noReturn length_first

theorem goRight_within (rest : List Paragraph) (enough : n ≤ (p.pieces.map pieceUnits).sum) :
    goRight n (p :: rest) = (0, offsetOf n p.pieces) := by
  cases rest with
  | nil => rfl
  | cons q rest =>
    rw [goRight]
    · exact if_pos enough
    · exact cons_ne_nil q rest

theorem utf16Length_eq (s : Text) : utf16Length s = ((chars s).map pieceUnits).sum := by
  rw [utf16Length, chars, map_map]
  rfl

theorem Within.ensureSpacer (within : Within cell pre post lead field (p :: out) canvas) :
    ∃ out', Within cell pre post lead field out'
      (ensureOneSpacerBeforeNextCell writer ((pre ++ lead).length + 1) canvas) := by
  unfold ensureOneSpacerBeforeNextCell
  split
  · exact ⟨_, within⟩
  · split
    · exact ⟨_, within⟩
    · split
      · exact ⟨_, within.splitParagraph_first 0⟩
      · exact ⟨_, within⟩

theorem Within.splitIfMashed (within : Within cell pre post lead field (p :: out) canvas)
    (enough : utf16Length display ≤ (p.pieces.map pieceUnits).sum) :
    ∃ out', Within cell pre post lead field out'
      (splitIfStdoutMashedOntoChrome writer ((pre ++ lead).length + 1) display canvas) := by
  obtain ⟨k, reached⟩ : ∃ k, goRight (min (utf16Length display) 32767)
      (p :: (out ++ post)) = (0, k) :=
    ⟨_, goRight_within _ (Nat.le_trans (Nat.min_le_left _ _) enough)⟩
  unfold splitIfStdoutMashedOntoChrome
  dsimp only
  rw [within.drop_field, cons_append, reached]
  dsimp only
  rw [Nat.add_zero]
  split
  · exact (within.setStyle_first _).ensureSpacer
  · exact ⟨_, ((within.splitParagraph_first k).setStyle_second _).setStyle_first _⟩

theorem Within.fillParagraph (noReturn : '\r' ∉ display)
    (within : Within cell pre post lead field (p :: out) canvas) :
    ∃ out', Within cell pre post lead field out'
      (fillParagraph writer ((pre ++ lead).length + 1) display canvas) := by
  have styled := within.setStyle_first (writer.resolveParaStyle styleOutput)
  have filled := @Within.insertString_first writer _ _ _ _ _ _ _ _ _ noReturn styled
  unfold Notebook.fillParagraph
  rw [splitOn_eq_singleton noReturn]
  apply filled.splitIfMashed
  rw [utf16Length_eq]
  simp only [map_append, sum_append]
  exact Nat.le_add_right _ _

theorem exists_split_at {l : List Paragraph} (found : l[n]? = some p) :
    ∃ before after, l = before ++ p :: after ∧ before.length = n := by
  induction l generalizing n with
  | nil => cases found
  | cons q l induction =>
    cases n with
    | zero =>
      cases found
      exact ⟨[], l, rfl, rfl⟩
    | succ n =>
      obtain ⟨before, after, rfl, length⟩ := induction found
      exact ⟨q :: before, after, rfl, by rw [length_cons, length]⟩

theorem Within.collapseStart_bounds (absent : ∀ p ∈ pre, Piece.codeField cell ∉ p.pieces)
    (within : Within cell pre post lead field out canvas)
    (started : collapseStart cell canvas = some start) :
    (pre ++ lead).length ≤ start ∧ start ≤ (pre ++ lead).length + out.length := by
  obtain ⟨⟨i, m⟩, marked, chosen⟩ := Option.bind_eq_some_iff.mp started
  have bounds := within.bookmark i m marked
  dsimp only at chosen
  split at chosen
  · cases chosen
    exact bounds
  · rw [within.fieldParagraph absent] at chosen
    cases chosen
    omega

theorem collapse_preserves {holds : Canvas → Prop} (round : ∀ canvas canvas', holds canvas →
      Notebook.collapseRound writer cell canvas = some canvas' → holds canvas')
    (rounds : Nat) (start : holds canvas) :
    holds (collapseLeadingEmptyParagraphs writer cell rounds canvas) := by
  induction rounds generalizing canvas with
  | zero => exact start
  | succ rounds induction =>
    rw [collapseLeadingEmptyParagraphs]
    split
    · rename_i canvas' made
      exact induction (round canvas canvas' start made)
    · exact start

theorem noReturn_prepare {s : Text} (noReturn : '\r' ∉ s) : '\r' ∉ prepareDisplayText s := by
  unfold prepareDisplayText
  split
  · exact noReturn
  · intro member
    rcases mem_append.mp member with inText | inEnd
    · exact noReturn (mem_of_mem_take inText)
    · revert inEnd
      decide

/-- The body in shape, wherever the bookmark is. -/
structure Laid (cell : Nat) (pre post lead : List Paragraph) (field : Paragraph)
    (out : List Paragraph) (body : List Paragraph) : Prop where
  body : body = pre ++ lead ++ field :: (out ++ post)
  block : CellBlock cell lead field out

theorem Within.laid (within : Within cell pre post lead field out canvas) :
    Laid cell pre post lead field out canvas.body :=
  ⟨within.body, within.block⟩

theorem place_cases {i : Nat} (low : (pre ++ lead).length ≤ i)
    (high : i ≤ (pre ++ lead).length + out.length) :
    i = (pre ++ lead).length ∨ ∃ before p after, out = before ++ p :: after ∧
      (pre ++ lead ++ field :: before).length = i := by
  by_cases atField : i = (pre ++ lead).length
  · exact .inl atField
  · have inOut : i - (pre ++ lead).length - 1 < out.length := by omega
    obtain ⟨before, after, split_out, length⟩ :=
      exists_split_at (List.getElem?_eq_getElem inOut)
    refine .inr ⟨before, _, after, split_out, ?_⟩
    simp only [length_append, length_cons] at length low atField ⊢
    omega

theorem Laid.splitField (laid : Laid cell pre post lead field out canvas.body) (k : Nat) :
    ∃ lead' field' out', Laid cell pre post lead' field' out'
        (canvas.splitParagraph writer (pre ++ lead).length k).body ∧
      (pre ++ lead').length ≤ (pre ++ lead).length + 1 ∧
      (pre ++ lead).length + 1 ≤ (pre ++ lead').length + out'.length := by
  have body := @splitParagraph_body writer canvas _ _ _ _ k laid.body rfl
  have block := laid.block
  have ownTake : OwnParagraph cell { field with pieces := field.pieces.take k } :=
    block.ownField.of_pieces rfl fun _ inPieces => mem_of_mem_take inPieces
  have ownDrop : OwnParagraph cell { field with pieces := field.pieces.drop k } :=
    block.ownField.of_pieces rfl fun _ inPieces => mem_of_mem_drop inPieces
  by_cases first : Piece.codeField cell ∈ field.pieces.take k
  · refine ⟨lead, { field with pieces := field.pieces.take k },
      { field with pieces := field.pieces.drop k } :: out, ⟨body, ?_⟩, by omega,
      by simp only [length_cons]; omega⟩
    exact { block with
      ownField := ownTake
      ownOut := forall_mem_cons.mpr ⟨ownDrop, block.ownOut⟩
      objects := fun piece member => block.objects piece (mem_of_mem_take member)
      hasField := first }
  · have second : Piece.codeField cell ∈ field.pieces.drop k := by
      have member := block.hasField
      rw [← take_append_drop k field.pieces] at member
      exact (mem_append.mp member).resolve_left first
    refine ⟨lead ++ [{ field with pieces := field.pieces.take k }],
      { field with pieces := field.pieces.drop k }, out, ⟨?_, ?_⟩, ?_, ?_⟩
    · rw [body]
      simp
    · refine ⟨forall_mem_append.mpr ⟨block.ownLead, forall_mem_singleton.mpr ownTake⟩,
        ownDrop, block.ownOut, forall_mem_append.mpr ⟨block.prompts, ?_⟩, ?_, ?_, second⟩
      · refine forall_mem_singleton.mpr ⟨⟨[], field.pieces.take k, rfl, ?_, by decide⟩, first⟩
        exact fun piece inHalf => block.objects piece (mem_of_mem_take inHalf)
      · obtain ⟨gutter, rest, rfl, inGutter⟩ := block.button
        exact ⟨gutter, _, rfl, inGutter⟩
      · exact fun piece member => block.objects piece (mem_of_mem_drop member)
    · simp only [length_append, length_cons, length_nil]
      omega
    · simp only [length_append, length_cons, length_nil]
      omega

theorem Laid.splitParagraph (laid : Laid cell pre post lead field out canvas.body) {i : Nat}
    (k : Nat) (low : (pre ++ lead).length ≤ i) (high : i ≤ (pre ++ lead).length + out.length) :
    ∃ lead' field' out', Laid cell pre post lead' field' out'
        (canvas.splitParagraph writer i k).body ∧
      (pre ++ lead').length ≤ i + 1 ∧ i + 1 ≤ (pre ++ lead').length + out'.length := by
  rcases @place_cases pre lead out field i low high with rfl | ⟨before, p, after, rfl, at_front⟩
  · exact laid.splitField k
  · have within : Within cell pre post lead field (before ++ p :: after)
        ⟨canvas.body, none⟩ := ⟨laid.body, laid.block, fun i m marked => by cases marked⟩
    have halves := @Within.splitParagraph writer _ _ _ _ _ _ _ _ _ _ k within at_front
    have same : (Canvas.splitParagraph writer i k ⟨canvas.body, none⟩).body =
        (canvas.splitParagraph writer i k).body := by
      unfold Canvas.splitParagraph
      dsimp only
      split <;> rfl
    refine ⟨lead, field, _, same ▸ halves.laid, ?_, ?_⟩
    · omega
    · simp only [length_append, length_cons] at at_front ⊢
      omega

theorem Laid.insertImage (laid : Laid cell pre post lead field out canvas.body) {i : Nat} (k : Nat)
    (low : (pre ++ lead).length ≤ i) (high : i ≤ (pre ++ lead).length + out.length) :
    ∃ field' out', Laid cell pre post lead field' out' (canvas.insertImage i k).body ∧
      out'.length = out.length := by
  have noControl : ∀ (p : Paragraph) other,
      Piece.codeField other ∈ p.pieces.take k ++ .image :: p.pieces.drop k →
        Piece.codeField other ∈ p.pieces := by
    intro p other member
    rcases mem_append.mp member with inTake | inRest
    · exact mem_of_mem_take inTake
    · rcases mem_cons.mp inRest with impossible | inDrop
      · cases impossible
      · exact mem_of_mem_drop inDrop
  have block := laid.block
  rcases @place_cases pre lead out field i low high with rfl | ⟨before, p, after, rfl, at_front⟩
  · have body := insertImage_body k laid.body rfl
    refine ⟨_, out, ⟨body, { block with ownField := ?_, objects := ?_, hasField := ?_ }⟩, rfl⟩
    · exact block.ownField.of_pieces rfl (noControl field)
    · intro piece member
      rcases mem_append.mp member with inTake | inRest
      · exact block.objects piece (mem_of_mem_take inTake)
      · rcases mem_cons.mp inRest with rfl | inDrop
        · rfl
        · exact block.objects piece (mem_of_mem_drop inDrop)
    · have member := block.hasField
      rw [← take_append_drop k field.pieces] at member
      rcases mem_append.mp member with inTake | inDrop
      · exact mem_append_left _ inTake
      · exact mem_append_right _ (mem_cons_of_mem _ inDrop)
  · have shape : canvas.body = (pre ++ lead ++ field :: before) ++ p :: (after ++ post) := by
      rw [laid.body]
      simp
    have body := insertImage_body k shape at_front
    have own : OwnParagraph cell
        { p with pieces := p.pieces.take k ++ .image :: p.pieces.drop k } :=
      (block.ownOut p (by simp)).of_pieces rfl (noControl p)
    have parts : CellBlock cell lead field (before ++ ([p] ++ after)) := block
    refine ⟨field, _, ⟨?_, parts.replace (forall_mem_singleton.mpr own)⟩, by simp⟩
    rw [body]
    simp

theorem insertRunImages_laid (images : List Bool) :
    ∀ {lead : List Paragraph} {field : Paragraph} {out : List Paragraph} {canvas : Canvas}
      {i : Nat} (k : Nat), Laid cell pre post lead field out canvas.body →
      (pre ++ lead).length ≤ i → i ≤ (pre ++ lead).length + out.length →
      ∃ lead' field' out', Laid cell pre post lead' field' out'
        (insertRunImages writer images (i, k) canvas).body := by
  induction images with
  | nil =>
    intro lead field out canvas i k laid _ _
    exact ⟨lead, field, out, laid⟩
  | cons inserted images induction =>
    intro lead field out canvas i k laid low high
    -- the cursor after the break, if one is made
    have next : ∀ {lead : List Paragraph} {field : Paragraph} {out : List Paragraph}
        {canvas : Canvas} {i : Nat} (k : Nat),
        Laid cell pre post lead field out canvas.body → (pre ++ lead).length ≤ i →
        i ≤ (pre ++ lead).length + out.length →
        ∃ lead' field' out', Laid cell pre post lead' field' out'
          (if inserted then insertRunImages writer images (i, k + 1) (canvas.insertImage i k)
            else insertRunImages writer images (i, k) canvas).body := by
      intro lead field out canvas i k laid low high
      split
      · obtain ⟨field', out', laid', length⟩ := laid.insertImage k low high
        exact induction (k + 1) laid' low (length ▸ high)
      · exact induction k laid low high
    rw [insertRunImages]
    dsimp only
    by_cases occupied : (canvas.body[i]?.any fun p => p.hasFrame || !p.isEmpty) = true
    · rw [if_pos occupied]
      obtain ⟨lead', field', out', laid', low', high'⟩ :=
        @Laid.splitParagraph writer _ _ _ _ _ _ _ laid _ k low high
      exact next 0 laid' low' high'
    · rw [if_neg occupied]
      exact next k laid low high

theorem withPrompt_pieces (prompt : Text) {leading : Text} {objects : List Piece}
    (pieces : p.pieces = chars leading ++ objects)
    (noText : ∀ piece ∈ objects, piece.char? = none) :
    (withPrompt prompt p).pieces = chars prompt ++ objects := by
  have allText : ∀ piece ∈ chars leading, piece.char?.isSome = true := by
    intro piece member
    obtain ⟨c, -, rfl⟩ := mem_map.mp member
    rfl
  have stops : objects.takeWhile (fun piece => piece.char?.isSome) = [] := by
    cases objects with
    | nil => rfl
    | cons piece objects =>
      have none_here := noText piece (by simp)
      simp [none_here]
  have taken : p.pieces.takeWhile (fun piece => piece.char?.isSome) = chars leading := by
    rw [pieces, takeWhile_append_of_pos allText, stops, append_nil]
  unfold withPrompt
  dsimp only
  rw [taken, pieces]
  cases leading with
  | nil =>
    have noString : p.string = [] := by
      rw [Paragraph.string, pieces]
      exact filterMap_eq_nil_iff.mpr noText
    rw [noString]
    rfl
  | cons c leading => rw [if_neg (by simp [chars]), drop_left]

theorem Laid.updateInPrompt (executionCount : Nat)
    (absent : ∀ p ∈ pre, Piece.codeField cell ∉ p.pieces)
    (laid : Laid cell pre post lead field out body) :
    ∃ lead', Laid cell pre post lead' field out (updateInPrompt cell executionCount body) := by
  have within : Within cell pre post lead field out ⟨body, none⟩ :=
    ⟨laid.body, laid.block, fun i m marked => by cases marked⟩
  have place : Notebook.fieldParagraph cell body = some (pre ++ lead).length :=
    within.fieldParagraph absent
  have block := laid.block
  obtain ⟨gutter, rest, hasGutter, inGutter⟩ := block.button
  obtain ⟨early, last, rfl⟩ : ∃ early last, lead = early ++ [last] := by
    rcases eq_nil_or_concat lead with rfl | ⟨early, last, rfl⟩
    · cases hasGutter
    · exact ⟨early, last, concat_eq_append⟩
  have shape : body = (pre ++ early) ++ last :: (field :: (out ++ post)) := by
    rw [laid.body]
    simp
  have before : (pre ++ (early ++ [last])).length = (pre ++ early).length + 1 := by
    simp [Nat.add_assoc]
  obtain ⟨⟨leading, objects, pieces, noText, -⟩, noField⟩ := block.prompts last (by simp)
  have rewritten := withPrompt_pieces (formatInPrompt (some executionCount)) pieces noText
  have kept : ∀ piece : Piece, piece.char? = none →
      (piece ∈ (withPrompt (formatInPrompt (some executionCount)) last).pieces ↔
        piece ∈ last.pieces) := by
    intro piece noChar
    have notText : ∀ s : Text, piece ∉ chars s := by
      intro s member
      obtain ⟨c, -, rfl⟩ := mem_map.mp member
      cases noChar
    rw [rewritten, pieces, mem_append, mem_append]
    simp [notText]
  refine ⟨early ++ [withPrompt (formatInPrompt (some executionCount)) last], ?_, ?_⟩
  · unfold Notebook.updateInPrompt
    rw [place, before]
    dsimp only
    rw [shape, modify_at _ rfl]
    simp
  · refine ⟨?_, block.ownField, block.ownOut, ?_, ?_, block.objects, block.hasField⟩
    · obtain ⟨ownEarly, ownLast⟩ := forall_mem_append.mp block.ownLead
      refine forall_mem_append.mpr ⟨ownEarly, forall_mem_singleton.mpr ?_⟩
      exact (ownLast last (by simp)).of_pieces rfl fun other => (kept (.codeField other) rfl).mp
    · have earlyPrompts := (forall_mem_append.mp block.prompts).1
      refine forall_mem_append.mpr ⟨earlyPrompts, forall_mem_singleton.mpr ?_⟩
      exact ⟨⟨_, objects, rewritten, noText, strip_formatInPrompt _⟩,
        fun inPieces => noField ((kept _ rfl).mp inPieces)⟩
    · cases early with
      | nil =>
        rw [nil_append] at hasGutter
        cases hasGutter
        exact ⟨_, [], rfl, (kept _ rfl).mpr inGutter⟩
      | cons first early =>
        rw [cons_append] at hasGutter
        cases hasGutter
        exact ⟨_, _, rfl, inGutter⟩

variable (guarded : ∀ p, post.head? = some p → endsOutput writer p = true)

include guarded

theorem rangeEnd_le : ∀ (out : List Paragraph) (j : Nat) (lastEmpty : Bool),
      rangeEnd writer j lastEmpty (out ++ post) = some n → n ≤ j + out.length := by
  intro out
  induction out with
  | nil =>
    intro j lastEmpty found
    cases post with
    | nil => cases found
    | cons q post =>
      rw [nil_append, rangeEnd, if_pos (guarded q rfl)] at found
      cases found
      split <;> omega
  | cons p out induction =>
    intro j lastEmpty found
    rw [cons_append, rangeEnd] at found
    split at found
    · cases found
      split <;> simp only [length_cons] <;> omega
    · have later := induction (j + 1) _ found
      simp only [length_cons]
      omega

theorem post_of_rangeEnd_none : ∀ (out : List Paragraph) (j : Nat) (lastEmpty : Bool),
      rangeEnd writer j lastEmpty (out ++ post) = none → post = [] := by
  intro out
  induction out with
  | nil =>
    intro j lastEmpty missing
    cases post with
    | nil => rfl
    | cons q post =>
      rw [nil_append, rangeEnd, if_pos (guarded q rfl)] at missing
      cases missing
  | cons p out induction =>
    intro j lastEmpty missing
    rw [cons_append, rangeEnd] at missing
    split_ifs at missing
    exact induction (j + 1) _ missing

theorem kept_of_guarded : ∀ q, post.head? = some q → q.pieces ≠ [] :=
  fun q head => pieces_ne_nil_of_endsOutput (guarded q head)

theorem head_of_not_endsOutput {rest : List Paragraph} (behind : out ++ post = p :: rest)
    (open_end : endsOutput writer p ≠ true) : ∃ out', out = p :: out' ∧ rest = out' ++ post := by
  cases out with
  | nil =>
    exfalso
    apply open_end
    apply guarded
    rw [nil_append] at behind
    rw [behind]
    rfl
  | cons q out =>
    cases behind
    exact ⟨out, rfl, rfl⟩

theorem Within.split_next (within : Within cell pre post lead field out canvas) {next : Paragraph}
    (low : (pre ++ lead).length ≤ start) (high : start ≤ (pre ++ lead).length + out.length)
    (found : canvas.body[start + 1]? = some next) (open_end : endsOutput writer next ≠ true) :
    ∃ before after, out = before ++ next :: after ∧
      (pre ++ lead ++ field :: before).length = start + 1 := by
  have behind : (out ++ post)[start - (pre ++ lead).length]? = some next := by
    rw [← within.drop_field, List.getElem?_drop, ← found]
    congr 1
    omega
  by_cases inOut : start - (pre ++ lead).length < out.length
  · rw [List.getElem?_append_left inOut] at behind
    obtain ⟨before, after, rfl, length⟩ := exists_split_at behind
    refine ⟨before, after, rfl, ?_⟩
    simp only [length_append, length_cons] at length low ⊢
    omega
  · rw [List.getElem?_append_right (Nat.le_of_not_lt inOut)] at behind
    have first : start - (pre ++ lead).length - out.length = 0 := by omega
    rw [first, ← List.head?_eq_getElem?] at behind
    exact absurd (guarded next behind) open_end

theorem Within.first_of_fillable (within : Within cell pre post lead field out canvas)
    (fillable : canvas.body[(pre ++ lead).length + 1]?.any (isFillable writer) = true) :
    ∃ next after, out = next :: after := by
  obtain ⟨next, found, blank⟩ := (Option.any_eq_true _ _).mp fillable
  have open_end : endsOutput writer next ≠ true := by
    simp only [isFillable, Bool.and_eq_true, Bool.not_eq_true'] at blank
    simp [endsOutput, blank]
  obtain ⟨before, after, rfl, at_front⟩ :=
    within.split_next guarded (Nat.le_refl _) (Nat.le_add_right _ _) found open_end
  have noneBefore : before = [] := by
    simp only [length_append, length_cons] at at_front
    exact eq_nil_of_length_eq_zero (by omega)
  exact ⟨next, after, by rw [noneBefore, nil_append]⟩

section

variable (absent : ∀ p ∈ pre, Piece.codeField cell ∉ p.pieces)

include absent

/-- Clearing: nothing to clear, or a cut behind the field whose lost bookmark
is set again. -/
theorem Within.clearCellOutput_cases
    (within : Within cell pre post lead field out (reanchorOutputBookmark cell canvas)) :
    (clearCellOutput writer cell canvas = reanchorOutputBookmark cell canvas ∧
        ∀ p ∈ out.head?, endsOutput writer p = true) ∨
      ∃ p out' cleared, out = p :: out' ∧
        clearCellOutput writer cell canvas =
          (if cleared.bookmark.isNone then reanchorOutputBookmark cell cleared else cleared) ∧
        ((∃ n, rangeEnd writer 1 (isLeftoverEmptyParagraph p && !p.hasFrame) (out' ++ post) =
              some n ∧ cleared = (reanchorOutputBookmark cell canvas).deleteParagraphs writer
                ((pre ++ lead).length + 1) n) ∨
          post = [] ∧ cleared = (reanchorOutputBookmark cell canvas).clearToEnd
            ((pre ++ lead).length + 1)) := by
  unfold clearCellOutput
  dsimp only
  rw [within.fieldParagraph absent]
  dsimp only
  rw [within.drop_field]
  split
  · rename_i nothing
    obtain ⟨rfl, rfl⟩ := append_eq_nil_iff.mp nothing
    exact .inl ⟨rfl, nofun⟩
  · rename_i p rest behind
    split
    · rename_i ends
      refine .inl ⟨rfl, ?_⟩
      cases out with
      | nil => nofun
      | cons q out =>
        obtain ⟨rfl, _⟩ := List.cons.inj behind
        exact fun _ head => Option.some.inj head ▸ ends
    · rename_i openEnd
      obtain ⟨out', rfl, rfl⟩ := head_of_not_endsOutput guarded behind openEnd
      refine .inr ⟨p, out', _, rfl, rfl, ?_⟩
      split
      · rename_i n found
        exact .inl ⟨n, found, rfl⟩
      · rename_i missing
        exact .inr ⟨post_of_rangeEnd_none guarded out' 1 _ missing, rfl⟩

theorem Within.clearCellOutput
    (within : Within cell pre post lead field out (reanchorOutputBookmark cell canvas)) :
    ∃ out', Within cell pre post lead field out' (clearCellOutput writer cell canvas) := by
  rcases within.clearCellOutput_cases guarded absent with
    ⟨same, -⟩ | ⟨p, out', cleared, rfl, same, cut⟩
  · exact ⟨out, same ▸ within⟩
  · obtain ⟨kept, within'⟩ : ∃ kept, Within cell pre post lead field kept cleared := by
      rcases cut with ⟨n, found, rfl⟩ | ⟨rfl, rfl⟩
      · have bound := rangeEnd_le guarded out' 1 _ found
        have count : ((p :: out').take n).length = n := by
          rw [length_take, length_cons]
          omega
        have whole : Within cell pre post lead field
            ([] ++ ((p :: out').take n ++ (p :: out').drop n))
            (reanchorOutputBookmark cell canvas) := by
          rwa [take_append_drop]
        obtain ⟨after', -, deleted⟩ :=
          whole.deleteParagraphs length_first count (kept_of_guarded guarded)
        exact ⟨_, deleted⟩
      · have whole : Within cell pre [] lead field ([] ++ p :: out')
            (reanchorOutputBookmark cell canvas) := within
        exact ⟨_, whole.clearToEnd length_first⟩
    rw [same]
    split
    · exact ⟨kept, within'.reanchor absent⟩
    · exact ⟨kept, within'⟩

theorem Within.collapseRound {canvas' : Canvas}
    (within : Within cell pre post lead field out canvas)
    (round : collapseRound writer cell canvas = some canvas') :
    ∃ out', Within cell pre post lead field out' canvas' := by
  obtain ⟨start, started, round⟩ := Option.bind_eq_some_iff.mp round
  obtain ⟨next, found, round⟩ := Option.bind_eq_some_iff.mp round
  obtain ⟨low, high⟩ := within.collapseStart_bounds absent started
  split at round
  · cases round
  · rename_i blank
    have open_end : endsOutput writer next ≠ true := fun ends => blank (by simp [ends])
    obtain ⟨before, after, rfl, at_front⟩ := within.split_next guarded low high found open_end
    split at round
    · cases round
      have cut : Within cell pre post lead field (before ++ ([next] ++ after)) canvas := within
      obtain ⟨after', -, deleted⟩ :=
        cut.deleteParagraphs at_front rfl (kept_of_guarded guarded)
      exact ⟨_, deleted⟩
    · rename_i last
      cases round
      -- nothing comes behind the blank paragraph
      have nothing : after = [] ∧ post = [] := by
        rw [within.body_at] at last
        simp only [length_append, length_cons] at last at_front
        constructor <;> exact eq_nil_of_length_eq_zero (by omega)
      obtain ⟨rfl, rfl⟩ := nothing
      exact ⟨_, within.clearToEnd at_front⟩

/-- The text goes into the blank paragraph behind the field or into a new one. -/
theorem Within.insertStdoutParagraph_cases
    (within : Within cell pre post lead field out canvas) (display : Text) :
    ∃ p out' broken, Within cell pre post lead field (p :: out') broken ∧
      insertStdoutParagraph writer cell display canvas =
        collapseLeadingEmptyParagraphs writer cell 16 (reanchorOutputBookmark cell
          (Notebook.fillParagraph writer ((pre ++ lead).length + 1) display broken)) ∧
      (out = p :: out' ∧ broken = canvas ∨ p = { field with pieces := [] } ∧ out' = out ∧
        broken = canvas.splitParagraph writer (pre ++ lead).length field.pieces.length) := by
  unfold insertStdoutParagraph
  rw [within.fieldParagraph absent]
  dsimp only
  split
  · rename_i fillable
    obtain ⟨next, after, rfl⟩ := within.first_of_fillable guarded fillable
    exact ⟨next, after, canvas, within, rfl, .inl ⟨rfl, rfl⟩⟩
  · rw [within.getElem?_field]
    exact ⟨_, out, _, within.breakField (Nat.le_refl _), rfl, .inr ⟨rfl, rfl, rfl⟩⟩

theorem Within.insertStdoutParagraph (noReturn : '\r' ∉ display)
    (within : Within cell pre post lead field out canvas) :
    ∃ out', Within cell pre post lead field out'
      (insertStdoutParagraph writer cell display canvas) := by
  obtain ⟨p, out', broken, broken_within, same, -⟩ :=
    within.insertStdoutParagraph_cases guarded absent display
  obtain ⟨filled, filledWithin⟩ := broken_within.fillParagraph noReturn
  have round : ∀ canvas canvas', (∃ out', Within cell pre post lead field out' canvas) →
      Notebook.collapseRound writer cell canvas = some canvas' →
        ∃ out', Within cell pre post lead field out' canvas' :=
    fun _ _ ⟨_, current⟩ made => current.collapseRound guarded absent made
  rw [same]
  exact collapse_preserves round 16 ⟨filled, filledWithin.reanchor absent⟩

end

theorem Within.applyRunResult (absent : ∀ p ∈ pre, Piece.codeField run.cell ∉ p.pieces)
    (noReturn : '\r' ∉ run.text) (within : Within run.cell pre post lead field out canvas) :
    ∃ lead' field' out', Laid run.cell pre post lead' field' out'
      (applyRunResult writer run canvas).body := by
  have written : ∃ out', Within run.cell pre post lead field out'
      (if (strip run.text).isEmpty || (strip (prepareDisplayText run.text)).isEmpty then
        reanchorOutputBookmark run.cell canvas
      else Notebook.insertStdoutParagraph writer run.cell (prepareDisplayText run.text)
        (reanchorOutputBookmark run.cell canvas)) := by
    split
    · exact ⟨out, within.reanchor absent⟩
    · exact (within.reanchor absent).insertStdoutParagraph guarded absent
        (noReturn_prepare noReturn)
  obtain ⟨out', within'⟩ := written
  unfold Notebook.applyRunResult
  dsimp only
  split
  · rename_i cursor found
    have bounds : (pre ++ lead).length ≤ cursor.1 ∧
        cursor.1 ≤ (pre ++ lead).length + out'.length := by
      rw [Option.or_eq_some_iff] at found
      rcases found with marked | ⟨-, atField⟩
      · exact within'.bookmark cursor.1 cursor.2 marked
      · rw [within'.fieldParagraph absent] at atField
        cases atField
        exact ⟨Nat.le_refl _, Nat.le_add_right _ _⟩
    exact insertRunImages_laid run.images cursor.2 within'.laid bounds.1 bounds.2
  · exact ⟨lead, field, out', within'.laid⟩

/-- **A run stays in the window of its cell.** -/
theorem executeAndApply_laid (laid : Laid run.cell pre post lead field out body)
    (absent : ∀ p ∈ pre, Piece.codeField run.cell ∉ p.pieces)
    (outside : ∀ p ∈ pre ++ post, p.owners ≠ [run.cell]) (noReturn : '\r' ∉ run.text)
    (home : ∀ i m p, run.bookmark = some (i, m) → body[i]? = some p →
      strip p.string = "Output".toList → p.owners = [run.cell]) :
    ∃ lead' field' out', Laid run.cell pre post lead' field' out'
      (executeAndApply writer body run) := by
  have anchored : Within run.cell pre post lead field out
      (reanchorOutputBookmark run.cell ⟨body, run.bookmark⟩) :=
    within_reanchor laid.body laid.block absent outside home
  obtain ⟨out₁, cleared⟩ := anchored.clearCellOutput guarded absent
  obtain ⟨lead₂, field₂, out₂, applied⟩ := cleared.applyRunResult guarded absent noReturn
  obtain ⟨lead₃, renumbered⟩ := applied.updateInPrompt run.executionCount absent
  have place : Notebook.fieldParagraph run.cell body = some (pre ++ lead).length := by
    rw [laid.body]
    apply fieldParagraph_at _ laid.block.hasField
    intro p member
    rcases mem_append.mp member with inPre | inLead
    · exact absent p inPre
    · exact (laid.block.prompts p inLead).2
  refine ⟨lead₃, field₂, out₂, ?_⟩
  unfold executeAndApply
  rw [place]
  exact renumbered

end Run

end WriterAgent.Notebook
