import WriterAgent.Notebook.CellRun

/-!
# The window of a cell

The paragraphs of a code cell stand together: the prompt, the code field, the
outputs.  Each edit of a run falls into this window of the body.
-/

namespace WriterAgent.Notebook

open PyText List Option

section Edits

variable {writer : Writer} {canvas : Canvas} {front back : List Paragraph} {p : Paragraph} {i : Nat}

theorem getElem?_at (at_front : front.length = i) : (front ++ p :: back)[i]? = some p := by
  subst at_front
  simp

theorem drop_succ_at (at_front : front.length = i) : (front ++ p :: back).drop (i + 1) = back := by
  subst at_front
  rw [← drop_drop, drop_left]
  rfl

theorem take_at (at_front : front.length = i) : (front ++ p :: back).take i = front := by
  subst at_front
  exact take_left

theorem modify_at (change : Paragraph → Paragraph) (at_front : front.length = i) :
    (front ++ p :: back).modify i change = front ++ change p :: back := by
  subst at_front
  induction front with
  | nil => rfl
  | cons q front induction => simpa using induction

theorem splitParagraph_body (k : Nat) (body : canvas.body = front ++ p :: back)
    (at_front : front.length = i) :
    (canvas.splitParagraph writer i k).body = front ++ { p with pieces := p.pieces.take k } ::
        { p with pieces := p.pieces.drop k } :: back := by
  unfold Canvas.splitParagraph
  rw [body, getElem?_at at_front]
  rw [take_at at_front, drop_succ_at at_front]

theorem insertString_body (s : Text) (body : canvas.body = front ++ p :: back)
    (at_front : front.length = i) :
    (canvas.insertString writer i s).body =
      front ++ (Canvas.filledParagraphs p (s.splitOn '\r') ++ back) := by
  unfold Canvas.insertString
  rw [body, getElem?_at at_front]
  rw [take_at at_front, drop_succ_at at_front]

theorem setStyle_body (style : Option Text) (body : canvas.body = front ++ p :: back)
    (at_front : front.length = i) :
    (canvas.setStyle i style).body = front ++ p.withStyle style :: back := by
  rw [Canvas.setStyle, body]
  exact modify_at _ at_front

theorem insertImage_body (k : Nat) (body : canvas.body = front ++ p :: back)
    (at_front : front.length = i) :
    (canvas.insertImage i k).body =
      front ++ { p with pieces := p.pieces.take k ++ .image :: p.pieces.drop k } :: back := by
  rw [Canvas.insertImage, body]
  exact modify_at _ at_front

theorem clearToEnd_body (body : canvas.body = front ++ p :: back) (at_front : front.length = i) :
    (canvas.clearToEnd i).body = front ++ [{ p with pieces := [] }] := by
  unfold Canvas.clearToEnd
  rw [body, getElem?_at at_front]
  rw [take_at at_front]

theorem deleteParagraphs_body {doomed : List Paragraph} {n : Nat} (some_doomed : n ≠ 0)
    (body : canvas.body = front ++ p :: (doomed ++ back)) (at_front : front.length = i)
    (count : doomed.length + 1 = n) :
    (canvas.deleteParagraphs writer i n).body = front ++ Canvas.joinedTo writer (some p) back := by
  unfold Canvas.deleteParagraphs
  rw [if_neg some_doomed, body]
  rw [getElem?_at at_front, take_at at_front]
  have rest : (front ++ p :: (doomed ++ back)).drop (i + n) = back := by
    subst at_front count
    simp
  rw [rest]

end Edits

structure OwnParagraph (cell : Nat) (p : Paragraph) : Prop where
  owners : p.owners = [cell]
  fields : ∀ other, Piece.codeField other ∈ p.pieces → other = cell

theorem OwnParagraph.of_pieces {cell : Nat} {p q : Paragraph} (own : OwnParagraph cell p)
    (owners : q.owners = p.owners)
    (pieces : ∀ other, Piece.codeField other ∈ q.pieces → Piece.codeField other ∈ p.pieces) :
    OwnParagraph cell q :=
  ⟨owners.trans own.owners, fun other member => own.fields other (pieces other member)⟩

theorem OwnParagraph.withStyle {cell : Nat} {p : Paragraph} (own : OwnParagraph cell p)
    (style : Option Text) : OwnParagraph cell (p.withStyle style) := by
  cases style with
  | none => exact own
  | some style => exact own.of_pieces rfl fun _ member => member

theorem OwnParagraph.emptied {cell : Nat} {p : Paragraph} (own : OwnParagraph cell p) :
    OwnParagraph cell { p with pieces := [] } :=
  own.of_pieces rfl fun _ member => by cases member

/-- A leading text that is not the word a bookmark takes for its home, then
objects. -/
def PromptLike (p : Paragraph) : Prop :=
  ∃ leading objects, p.pieces = chars leading ++ objects ∧
    (∀ piece ∈ objects, piece.char? = none) ∧ strip leading ≠ "Output".toList

/-- The paragraphs of a code cell: the gutter with the run button and maybe
more before the field, the field's paragraph without any text, and the outputs. -/
structure CellBlock (cell : Nat) (lead : List Paragraph) (field : Paragraph)
    (out : List Paragraph) : Prop where
  ownLead : ∀ p ∈ lead, OwnParagraph cell p
  ownField : OwnParagraph cell field
  ownOut : ∀ p ∈ out, OwnParagraph cell p
  prompts : ∀ p ∈ lead, PromptLike p ∧ Piece.codeField cell ∉ p.pieces
  button : ∃ gutter rest, lead = gutter :: rest ∧ Piece.runButton cell ∈ gutter.pieces
  objects : ∀ piece ∈ field.pieces, piece.char? = none
  hasField : Piece.codeField cell ∈ field.pieces

theorem CellBlock.replace {cell : Nat} {lead before doomed new after : List Paragraph}
    {field : Paragraph} (block : CellBlock cell lead field (before ++ (doomed ++ after)))
    (own : ∀ q ∈ new, OwnParagraph cell q) :
    CellBlock cell lead field (before ++ (new ++ after)) := by
  obtain ⟨ownBefore, ownRest⟩ := forall_mem_append.mp block.ownOut
  have ownAfter := (forall_mem_append.mp ownRest).2
  exact { block with
    ownOut := forall_mem_append.mpr ⟨ownBefore, forall_mem_append.mpr ⟨own, ownAfter⟩⟩ }

/-- The body is the cell's block between two fixed parts, and the bookmark is
in the field's paragraph or in an output. -/
structure Within (cell : Nat) (pre post lead : List Paragraph) (field : Paragraph)
    (out : List Paragraph) (canvas : Canvas) : Prop where
  body : canvas.body = pre ++ lead ++ field :: (out ++ post)
  block : CellBlock cell lead field out
  bookmark : ∀ i m, canvas.bookmark = some (i, m) →
    (pre ++ lead).length ≤ i ∧ i ≤ (pre ++ lead).length + out.length

section Window

variable {writer : Writer} {cell : Nat} {pre post lead out : List Paragraph}
  {field : Paragraph} {canvas : Canvas}

theorem fieldParagraph_at {front back : List Paragraph}
    (absent : ∀ p ∈ front, Piece.codeField cell ∉ p.pieces)
    (present : Piece.codeField cell ∈ field.pieces) :
    fieldParagraph cell (front ++ field :: back) = some front.length := by
  have before : front.findIdx? (fun p => p.pieces.contains (.codeField cell)) = none := by
    rw [List.findIdx?_eq_none_iff]
    intro p member
    simpa using absent p member
  rw [fieldParagraph, List.findIdx?_append, before]
  simp [List.findIdx?_cons, present]

section

variable (within : Within cell pre post lead field out canvas)

include within

theorem Within.fieldParagraph (absent : ∀ p ∈ pre, Piece.codeField cell ∉ p.pieces) :
    fieldParagraph cell canvas.body = some (pre ++ lead).length := by
  rw [within.body]
  apply fieldParagraph_at _ within.block.hasField
  intro p member
  rcases mem_append.mp member with inPre | inLead
  · exact absent p inPre
  · exact (within.block.prompts p inLead).2

theorem Within.getElem?_field : canvas.body[(pre ++ lead).length]? = some field := by
  rw [within.body]
  exact getElem?_at rfl

theorem Within.drop_field : canvas.body.drop ((pre ++ lead).length + 1) = out ++ post := by
  rw [within.body]
  exact drop_succ_at rfl

end

section Output

variable {before after : List Paragraph} {p : Paragraph} {i : Nat}

theorem Within.body_at (within : Within cell pre post lead field (before ++ p :: after) canvas) :
    canvas.body = (pre ++ lead ++ field :: before) ++ p :: (after ++ post) := by
  rw [within.body]
  simp

theorem Within.getElem?_at (within : Within cell pre post lead field (before ++ p :: after) canvas)
    (at_front : (pre ++ lead ++ field :: before).length = i) : canvas.body[i]? = some p := by
  rw [within.body_at]
  exact Notebook.getElem?_at at_front

theorem Within.replace (doomed new : List Paragraph) {canvas' : Canvas}
    (within : Within cell pre post lead field (before ++ (doomed ++ after)) canvas)
    (body : canvas'.body = (pre ++ lead ++ field :: before) ++ (new ++ (after ++ post)))
    (own : ∀ q ∈ new, OwnParagraph cell q)
    (bookmark : ∀ i m, canvas'.bookmark = some (i, m) → (pre ++ lead).length ≤ i ∧
      i ≤ (pre ++ lead).length + (before ++ (new ++ after)).length) :
    Within cell pre post lead field (before ++ (new ++ after)) canvas' := by
  refine ⟨?_, within.block.replace own, bookmark⟩
  rw [body]
  simp

theorem Within.setStyle (style : Option Text)
    (within : Within cell pre post lead field (before ++ p :: after) canvas)
    (at_front : (pre ++ lead ++ field :: before).length = i) :
    Within cell pre post lead field (before ++ p.withStyle style :: after)
      (canvas.setStyle i style) := by
  have own := within.block.ownOut p (by simp)
  apply within.replace [p] [p.withStyle style]
  · exact setStyle_body style within.body_at at_front
  · simpa using own.withStyle style
  · intro j m marked
    have bounds := within.bookmark j m marked
    simpa using bounds

theorem splitParagraph_bookmark {k : Nat} (found : canvas.body[i]? = some p) :
    (canvas.splitParagraph writer i k).bookmark = canvas.bookmark.map fun (j, m) =>
        if j < i then (j, m)
        else if i < j then (j + 1, m)
        else if m < k || (m == k && !writer.marksFollow) then (j, m)
        else (j + 1, m - k) := by
  unfold Canvas.splitParagraph
  rw [found]

theorem splitParagraph_mark {k j m : Nat} (found : canvas.body[i]? = some p)
    (marked : (canvas.splitParagraph writer i k).bookmark = some (j, m)) :
    ∃ j' m', canvas.bookmark = some (j', m') ∧ j' ≤ j ∧ j ≤ j' + 1 := by
  rw [splitParagraph_bookmark found] at marked
  obtain ⟨⟨j', m'⟩, old, moved⟩ := map_eq_some_iff.mp marked
  refine ⟨j', m', old, ?_⟩
  dsimp only at moved
  split_ifs at moved <;> cases moved <;> omega

theorem Within.splitParagraph (k : Nat)
    (within : Within cell pre post lead field (before ++ p :: after) canvas)
    (at_front : (pre ++ lead ++ field :: before).length = i) :
    Within cell pre post lead field (before ++ { p with pieces := p.pieces.take k } ::
        { p with pieces := p.pieces.drop k } :: after)
      (canvas.splitParagraph writer i k) := by
  have own := within.block.ownOut p (by simp)
  apply within.replace [p]
    [{ p with pieces := p.pieces.take k }, { p with pieces := p.pieces.drop k }]
  · exact splitParagraph_body k within.body_at at_front
  · intro q member
    simp only [mem_cons, not_mem_nil, or_false] at member
    rcases member with rfl | rfl
    · exact own.of_pieces rfl fun _ inPieces => mem_of_mem_take inPieces
    · exact own.of_pieces rfl fun _ inPieces => mem_of_mem_drop inPieces
  · intro j m marked
    obtain ⟨j', m', old, near⟩ := splitParagraph_mark (within.getElem?_at at_front) marked
    have bounds := within.bookmark j' m' old
    simp only [length_append, length_cons, length_nil] at bounds ⊢
    omega

theorem insertString_bookmark {s : Text} (noReturn : '\r' ∉ s) (found : canvas.body[i]? = some p) :
    (canvas.insertString writer i s).bookmark = canvas.bookmark.map fun (j, m) =>
        if j < i then (j, m)
        else if i < j then (j, m)
        else if m == 0 && !writer.marksFollow then (j, m)
        else (j, m + s.length) := by
  unfold Canvas.insertString
  rw [found, splitOn_eq_singleton noReturn]
  rfl

theorem Within.insertString {s : Text} (noReturn : '\r' ∉ s)
    (within : Within cell pre post lead field (before ++ p :: after) canvas)
    (at_front : (pre ++ lead ++ field :: before).length = i) :
    Within cell pre post lead field (before ++ { p with pieces := chars s ++ p.pieces } :: after)
      (canvas.insertString writer i s) := by
  have own := within.block.ownOut p (by simp)
  apply within.replace [p] [{ p with pieces := chars s ++ p.pieces }]
  · rw [insertString_body s within.body_at at_front, splitOn_eq_singleton noReturn]
    rfl
  · intro q member
    rw [mem_singleton.mp member]
    refine own.of_pieces rfl fun other inPieces => ?_
    rcases mem_append.mp inPieces with inText | inRest
    · obtain ⟨c, -, impossible⟩ := mem_map.mp inText
      cases impossible
    · exact inRest
  · intro j m marked
    rw [insertString_bookmark noReturn (within.getElem?_at at_front)] at marked
    obtain ⟨⟨j', m'⟩, old, moved⟩ := map_eq_some_iff.mp marked
    have stays : j' = j := by
      dsimp only at moved
      split_ifs at moved <;> cases moved <;> rfl
    simpa using within.bookmark j m' (stays ▸ old)

theorem joinedTo_append (kept : ∀ q, post.head? = some q → q.pieces ≠ []) :
    ∃ after', after'.map Paragraph.pieces = after.map Paragraph.pieces ∧
      Canvas.joinedTo writer (some p) (after ++ post) = after' ++ post ∧
      ((∀ q ∈ after, OwnParagraph cell q) → ∀ q ∈ after', OwnParagraph cell q) := by
  cases after with
  | nil =>
    refine ⟨[], rfl, ?_, fun own => own⟩
    cases post with
    | nil => rfl
    | cons q post =>
      have filled : q.pieces.isEmpty = false := by simpa using kept q rfl
      simp [Canvas.joinedTo, filled]
  | cons q after =>
    refine ⟨(if q.pieces.isEmpty && writer.joinKeepsStyle then { q with style := p.style }
      else q) :: after, ?_, rfl, fun own => ?_⟩
    · split <;> rfl
    · obtain ⟨ownHead, ownAfter⟩ := forall_mem_cons.mp own
      refine forall_mem_cons.mpr ⟨?_, ownAfter⟩
      split
      · exact ownHead.of_pieces rfl fun _ inPieces => inPieces
      · exact ownHead

theorem deleteParagraphs_bookmark {n : Nat} (some_doomed : n ≠ 0) :
    (canvas.deleteParagraphs writer i n).bookmark = canvas.bookmark.bind fun (j, m) =>
        if j < i then some (j, m)
        else if j < i + n then none
        else some (j - n, m) := by
  rw [Canvas.deleteParagraphs, if_neg some_doomed]

theorem Within.deleteParagraphs {doomed : List Paragraph} {n : Nat}
    (within : Within cell pre post lead field (before ++ (doomed ++ after)) canvas)
    (at_front : (pre ++ lead ++ field :: before).length = i) (count : doomed.length = n)
    (kept : ∀ q, post.head? = some q → q.pieces ≠ []) :
    ∃ after', after'.map Paragraph.pieces = after.map Paragraph.pieces ∧
      Within cell pre post lead field (before ++ after') (canvas.deleteParagraphs writer i n) := by
  cases doomed with
  | nil =>
    refine ⟨after, rfl, ?_⟩
    have none_doomed : n = 0 := count.symm
    rw [Canvas.deleteParagraphs, if_pos none_doomed]
    exact within
  | cons p doomed =>
    have some_doomed : n ≠ 0 := by
      rw [← count]
      exact Nat.succ_ne_zero _
    have body : canvas.body =
        (pre ++ lead ++ field :: before) ++ p :: (doomed ++ (after ++ post)) := by
      rw [within.body]
      simp
    have deleted :=
      @deleteParagraphs_body writer canvas _ _ _ _ _ _ some_doomed body at_front count
    obtain ⟨after', samePieces, joined, own⟩ :=
      @joinedTo_append writer cell post after p kept
    have sameLength : after'.length = after.length := by
      rw [← length_map Paragraph.pieces, samePieces, length_map]
    obtain ⟨ownBefore, ownRest⟩ := forall_mem_append.mp within.block.ownOut
    have ownAfter := own (forall_mem_append.mp ownRest).2
    refine ⟨after', samePieces, ?_,
      { within.block with ownOut := forall_mem_append.mpr ⟨ownBefore, ownAfter⟩ }, ?_⟩
    · rw [deleted, joined]
      simp
    · intro j m marked
      rw [deleteParagraphs_bookmark some_doomed] at marked
      obtain ⟨⟨j', m'⟩, old, moved⟩ := bind_eq_some_iff.mp marked
      have bounds := within.bookmark j' m' old
      simp only [length_append, length_cons] at bounds at_front count ⊢
      dsimp only at moved
      split_ifs at moved <;> cases moved <;> omega

theorem clearToEnd_bookmark (found : canvas.body[i]? = some p) :
    (canvas.clearToEnd i).bookmark = canvas.bookmark.filter fun (j, _) => decide (j < i) := by
  unfold Canvas.clearToEnd
  rw [found]

theorem Within.clearToEnd (within : Within cell pre [] lead field (before ++ p :: after) canvas)
    (at_front : (pre ++ lead ++ field :: before).length = i) :
    Within cell pre [] lead field (before ++ [{ p with pieces := [] }]) (canvas.clearToEnd i) := by
  have whole : Within cell pre [] lead field (before ++ ((p :: after) ++ [])) canvas := by
    rwa [append_nil]
  apply whole.replace (p :: after) [{ p with pieces := [] }]
  · exact clearToEnd_body within.body_at at_front
  · exact forall_mem_singleton.mpr (within.block.ownOut p (by simp)).emptied
  · intro j m marked
    rw [clearToEnd_bookmark (within.getElem?_at at_front)] at marked
    obtain ⟨old, early⟩ := filter_eq_some_iff.mp marked
    have bounds := within.bookmark j m old
    have inFront := of_decide_eq_true early
    simp only [length_append, length_cons, length_nil] at bounds at_front inFront ⊢
    omega

theorem Within.breakField {k : Nat} (within : Within cell pre post lead field out canvas)
    (atEnd : field.pieces.length ≤ k) :
    Within cell pre post lead field ({ field with pieces := [] } :: out)
      (canvas.splitParagraph writer (pre ++ lead).length k) := by
  have body := @splitParagraph_body writer canvas _ _ _ _ k within.body rfl
  rw [take_of_length_le atEnd, drop_eq_nil_of_le atEnd] at body
  have whole : Within cell pre post lead field ([] ++ ([] ++ out)) canvas := within
  apply whole.replace [] [{ field with pieces := [] }]
  · rw [body]
    simp
  · exact forall_mem_singleton.mpr within.block.ownField.emptied
  · intro j m marked
    obtain ⟨j', m', old, near⟩ := splitParagraph_mark within.getElem?_field marked
    have bounds := within.bookmark j' m' old
    simp only [nil_append, length_append, length_cons, length_nil] at bounds ⊢
    omega

end Output

end Window

end WriterAgent.Notebook
