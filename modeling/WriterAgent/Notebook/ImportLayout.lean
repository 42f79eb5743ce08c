import WriterAgent.Notebook.Import

/-!
# The layout of an import

Once something visible is in the body, a cell only adds paragraphs behind it.
-/

namespace WriterAgent.Notebook

open PyText List

/-- A property of paragraphs that appending to them keeps. -/
structure Kept (cell : Nat) (property : Paragraph → Prop) : Prop where
  blank : ∀ style, property ⟨style, [], [cell]⟩
  withStyle : ∀ p style, property p → property (p.withStyle style)
  append : ∀ p pieces, property p → (∀ piece ∈ pieces, piece.isControl = false) → property { p with
        pieces := p.pieces ++ pieces
        owners := if p.owners.contains cell then p.owners else p.owners ++ [cell] }

/-- The draft is a fixed part and paragraphs with the property, the last one
among them. -/
def Grown (property : Paragraph → Prop) (base : List Paragraph) (draft : Draft) : Prop :=
  ∃ init, draft.done = base ++ init ∧ ∀ p ∈ init ++ [draft.last], property p

/-- The body is a fixed part and paragraphs with the property, maybe none. -/
def Extends (property : Paragraph → Prop) (base : List Paragraph) (draft : Draft) : Prop :=
  ∃ new, draft.body = base ++ new ∧ ∀ p ∈ new, property p

/-- With this lead break the fixed part gets out of reach, or there is none. -/
def Sealed (base : List Paragraph) (lead : Bool) : Prop :=
  base = [] ∨ lead = true ∧ ∃ p ∈ base, p.isEmpty = false

theorem Sealed.later {base : List Paragraph} {lead : Bool} (sealed : Sealed base lead) :
    Sealed base true :=
  sealed.imp id fun visible => ⟨rfl, visible.2⟩

section Growing

variable {cell : Nat} {property : Paragraph → Prop} {base : List Paragraph} {draft : Draft}

theorem Grown.extends (grown : Grown property base draft) : Extends property base draft := by
  obtain ⟨init, done, all⟩ := grown
  exact ⟨init ++ [draft.last], by rw [Draft.body, done, append_assoc], all⟩

theorem Extends.grown_of_nil (extended : Extends property [] draft) : Grown property [] draft := by
  obtain ⟨new, body, all⟩ := extended
  rw [nil_append] at body
  exact ⟨draft.done, rfl, fun p member => all p (body ▸ member)⟩

theorem Extends.break (kept : Kept cell property) (extended : Extends property base draft) :
    Grown property base (draft.breakAtEnd cell) := by
  obtain ⟨new, body, all⟩ := extended
  refine ⟨new, body, ?_⟩
  intro p member
  rcases mem_append.mp member with inNew | isLast
  · exact all p inNew
  · rw [mem_singleton.mp isLast]
    exact kept.blank _

theorem Grown.withLast (grown : Grown property base draft) {last : Paragraph}
    (holds : property draft.last → property last) :
    Grown property base { draft with last := last } := by
  obtain ⟨init, done, all⟩ := grown
  refine ⟨init, done, ?_⟩
  intro p member
  rcases mem_append.mp member with inInit | isLast
  · exact all p (by simp [inInit])
  · rw [mem_singleton.mp isLast]
    exact holds (all draft.last (by simp))

theorem Grown.withStyle (kept : Kept cell property) (style : Option Text)
    (grown : Grown property base draft) : Grown property base (draft.withStyle style) :=
  grown.withLast (kept.withStyle _ style)

theorem Grown.append (kept : Kept cell property) {pieces : List Piece}
    (plain : ∀ piece ∈ pieces, piece.isControl = false)
    (grown : Grown property base draft) : Grown property base (draft.append cell pieces) :=
  grown.withLast fun holds => kept.append _ pieces holds plain

theorem chars_plain (s : Text) : ∀ piece ∈ chars s, piece.isControl = false := by
  intro piece member
  obtain ⟨c, -, rfl⟩ := mem_map.mp member
  rfl

theorem Grown.insertString (kept : Kept cell property) (s : Text)
    (grown : Grown property base draft) : Grown property base (draft.insertString cell s) := by
  have parts : ∀ (parts : List Text) {draft : Draft}, Grown property base draft →
      Grown property base (parts.foldl
        (fun draft part => (draft.breakAtEnd cell).append cell (chars part)) draft) := by
    intro parts
    induction parts with
    | nil =>
      intro draft grown
      exact grown
    | cons part parts induction =>
      intro draft grown
      exact induction ((grown.extends.break kept).append kept (chars_plain part))
  unfold Draft.insertString
  split
  · exact grown
  · exact parts _ (grown.append kept (chars_plain _))

theorem Grown.insertFragment (kept : Kept cell property)
    (fragment : List FragmentParagraph) (grown : Grown property base draft) :
    Grown property base (draft.insertFragment cell fragment) := by
  have later : ∀ (rest : List FragmentParagraph) {draft : Draft}, Grown property base draft →
      Grown property base (rest.foldl (fun draft p =>
        ((draft.breakAtEnd cell).withStyle (some p.style)).append cell p.pieces) draft) := by
    intro rest
    induction rest with
    | nil =>
      intro draft grown
      exact grown
    | cons p rest induction =>
      intro draft grown
      exact induction (((grown.extends.break kept).withStyle kept _).append kept p.plain)
  unfold Draft.insertFragment
  split
  · exact grown
  · rename_i first rest
    exact later rest ((grown.withStyle kept _).append kept first.plain)

theorem Grown.trim (grown : Grown property base draft) :
    Extends property base draft.trimTrailingEmptyParagraph := by
  unfold Draft.trimTrailingEmptyParagraph
  split
  · split
    · rename_i p last
      obtain ⟨init, done, all⟩ := grown
      obtain ⟨front, split_done⟩ := List.getLast?_eq_some_iff.mp last
      refine ⟨init, ?_, fun p member => all p (by simp [member])⟩
      rw [← done, Draft.body, split_done, dropLast_concat]
    · exact grown.extends
  · exact grown.extends

variable {writer : Writer} {lead : Bool}

theorem Extends.nonempty (extended : Extends property base draft)
    (visible : ∃ p ∈ base, p.isEmpty = false) : draft.bodyNonempty = true := by
  obtain ⟨new, body, -⟩ := extended
  obtain ⟨p, member, shown⟩ := visible
  rw [Draft.bodyNonempty, body, any_eq_true]
  exact ⟨p, mem_append_left _ member, by rw [shown]; rfl⟩

section

variable (kept : Kept cell property)

include kept

theorem Extends.leadBreak (extended : Extends property base draft) (sealed : Sealed base lead) :
    Grown property base (draft.leadBreak cell lead) := by
  unfold Draft.leadBreak
  split
  · exact extended.break kept
  · rename_i noBreak
    rcases sealed with rfl | ⟨rfl, visible⟩
    · exact extended.grown_of_nil
    · exact absurd (extended.nonempty visible) (by simpa using noBreak)

theorem Extends.appendBodyParagraph (content : Text) (style : Option Text)
    (extended : Extends property base draft) (sealed : Sealed base lead) :
    Extends property base (draft.appendBodyParagraph cell writer content style lead) := by
  unfold Draft.appendBodyParagraph
  split
  · exact extended
  · exact (((extended.leadBreak kept sealed).withStyle kept _).insertString kept _).extends

theorem Extends.appendBodyTextBlock (block : Text) (style : Option Text)
    (extended : Extends property base draft) (sealed : Sealed base lead) :
    Extends property base (draft.appendBodyTextBlock cell writer block style lead) := by
  unfold Draft.appendBodyTextBlock
  dsimp only
  split
  · exact extended
  · exact extended.appendBodyParagraph kept _ style sealed

theorem Grown.appendBodyParagraph (content : Text) (style : Option Text) (lead : Bool)
    (grown : Grown property base draft) :
    Grown property base (draft.appendBodyParagraph cell writer content style lead) := by
  have broken : Grown property base (draft.leadBreak cell lead) := by
    unfold Draft.leadBreak
    split
    · exact grown.extends.break kept
    · exact grown
  unfold Draft.appendBodyParagraph
  split
  · exact grown
  · exact (broken.withStyle kept _).insertString kept _

theorem Grown.appendFallback (fallback : List Text) :
    ∀ {draft : Draft} (lead : Bool), Grown property base draft →
      Grown property base (draft.appendFallback cell writer fallback lead) := by
  induction fallback with
  | nil =>
    intro draft lead grown
    exact grown
  | cons content contents induction =>
    intro draft lead grown
    exact induction true (grown.appendBodyParagraph kept content _ lead)

theorem Extends.appendBlock (block : MarkdownBlock) (extended : Extends property base draft)
    (sealed : Sealed base lead) :
    Extends property base (draft.appendBlock cell writer lead block) := by
  have image : ∀ piece ∈ [Piece.image], piece.isControl = false := by decide
  cases block with
  | heading1 title | heading2 title => exact extended.appendBodyParagraph kept title _ sealed
  | paragraph content => exact extended.appendBodyParagraph kept content _ sealed
  | html fragment fallback breaks =>
    have broken := extended.leadBreak kept sealed
    cases fragment with
    | some fragment => exact (broken.insertFragment kept fragment).trim
    | none => exact (broken.appendFallback kept fallback _).extends
  | image outcome fallback =>
    cases outcome with
    | embedded => exact ((extended.leadBreak kept sealed.later).append kept image).extends
    | unread => exact extended.appendBodyParagraph kept fallback _ sealed
    | refused =>
      exact ((extended.leadBreak kept sealed.later).appendBodyParagraph kept fallback _
        lead).extends

theorem Extends.appendMarkdownCell (blocks : List MarkdownBlock) :
    ∀ {draft : Draft} {lead : Bool}, Extends property base draft → Sealed base lead →
      Extends property base (draft.appendMarkdownCell cell writer lead blocks) := by
  induction blocks with
  | nil =>
    intro draft lead extended _
    exact extended
  | cons block blocks induction =>
    intro draft lead extended sealed
    exact induction (extended.appendBlock kept block sealed) sealed.later

theorem Extends.appendSegments (outputs : List OutputSegment)
    (visible : ∃ p ∈ base, p.isEmpty = false) :
    ∀ {draft : Draft}, Extends property base draft →
      Extends property base (outputs.foldl (Draft.appendSegment cell writer) draft) := by
  have image : ∀ piece ∈ [Piece.image], piece.isControl = false := by decide
  induction outputs with
  | nil =>
    intro draft extended
    exact extended
  | cons segment outputs induction =>
    intro draft extended
    apply induction
    cases segment with
    | text content =>
      unfold Draft.appendSegment
      dsimp only
      split
      · exact extended
      · exact extended.appendBodyTextBlock kept content _ (.inr ⟨rfl, visible⟩)
    | image inserted =>
      have broken := extended.break kept
      unfold Draft.appendSegment
      dsimp only
      split
      · exact (broken.append kept image).extends
      · exact broken.extends

end

end Growing

/-- Text and images of the cell, and of no other. -/
structure Fresh (cell : Nat) (p : Paragraph) : Prop where
  owners : p.owners = [cell]
  noControl : ∀ piece ∈ p.pieces, piece.isControl = false

/-- Content of the cells up to this one, if there is any. -/
structure Bare (cell : Nat) (p : Paragraph) : Prop where
  owners : ∀ owner ∈ p.owners, owner ≤ cell
  owned : p.owners = [] → p.pieces = []
  noControl : ∀ piece ∈ p.pieces, piece.isControl = false

theorem noControl_append {pieces more : List Piece}
    (first : ∀ piece ∈ pieces, piece.isControl = false)
    (second : ∀ piece ∈ more, piece.isControl = false) :
    ∀ piece ∈ pieces ++ more, piece.isControl = false := by
  intro piece member
  rcases mem_append.mp member with inFirst | inSecond
  · exact first piece inFirst
  · exact second piece inSecond

theorem fresh_kept (cell : Nat) : Kept cell (Fresh cell) := by
  refine ⟨fun style => ⟨rfl, by simp⟩, ?_, ?_⟩
  · intro p style fresh
    cases style with
    | none => exact fresh
    | some style => exact ⟨fresh.owners, fresh.noControl⟩
  · intro p pieces fresh plain
    refine ⟨?_, noControl_append fresh.noControl plain⟩
    rw [fresh.owners]
    simp

theorem bare_kept (cell : Nat) : Kept cell (Bare cell) := by
  refine ⟨fun style => ⟨by simp, by simp, by simp⟩, ?_, ?_⟩
  · intro p style bare
    cases style with
    | none => exact bare
    | some style => exact ⟨bare.owners, bare.owned, bare.noControl⟩
  · intro p pieces bare plain
    refine ⟨?_, ?_, noControl_append bare.noControl plain⟩
    · intro owner member
      split at member
      · exact bare.owners owner member
      · rcases mem_append.mp member with old | new
        · exact bare.owners owner old
        · exact Nat.le_of_eq (mem_singleton.mp new)
    · intro noOwner
      exfalso
      split at noOwner
      · rename_i contained
        rw [noOwner] at contained
        cases contained
      · exact append_ne_nil_of_right_ne_nil _ (cons_ne_nil _ _) noOwner

theorem noField_of_noControl {p : Paragraph}
    (noControl : ∀ piece ∈ p.pieces, piece.isControl = false) (cell : Nat) :
    Piece.codeField cell ∉ p.pieces := by
  intro member
  cases noControl _ member

/-- The gutter of a code cell, which goes to a paragraph that may already hold
something. -/
structure GutterOf (cell : Nat) (executionCount : Option Nat) (opened gutter : Paragraph) :
    Prop where
  pieces : gutter.pieces =
    opened.pieces ++ (chars (formatInPrompt executionCount) ++ [.runButton cell])
  owners : gutter.owners =
    if opened.owners.contains cell then opened.owners else opened.owners ++ [cell]

section CodeCell

variable {cell : Nat} {executionCount : Option Nat} {opened gutter field : Paragraph}
  {out : List Paragraph}

section

variable (made : GutterOf cell executionCount opened gutter)

include made

theorem GutterOf.visible : gutter.isEmpty = false := by
  have text : gutter.string = opened.string ++ formatInPrompt executionCount := by
    have prompt := string_chars [] (formatInPrompt executionCount) []
    rw [Paragraph.string] at prompt
    rw [Paragraph.string, made.pieces, filterMap_append, filterMap_append, prompt]
    simp [Paragraph.string, Piece.char?]
  have bracket := bracket_mem_strip opened.string executionCount
  rw [Paragraph.isEmpty, text, isEmpty_eq_false_iff]
  exact ne_nil_of_mem bracket

theorem GutterOf.mem_owners : cell ∈ gutter.owners := by
  rw [made.owners]
  split
  · rename_i contained
    exact contains_iff_mem.mp contained
  · simp

theorem GutterOf.owner_cases {owner : Nat} (member : owner ∈ gutter.owners) :
    owner ∈ opened.owners ∨ owner = cell := by
  rw [made.owners] at member
  split at member
  · exact .inl member
  · exact (mem_append.mp member).imp id mem_singleton.mp

theorem GutterOf.codeBlock (noControl : ∀ piece ∈ opened.pieces, piece.isControl = false)
    (noContent : opened.owners ⊆ [cell] → opened.pieces = [])
    (fieldOwners : field.owners = [cell]) (fieldPieces : field.pieces = [.codeField cell])
    (outputs : ∀ p ∈ out, Fresh cell p) : CodeBlock cell [gutter] field out := by
  have gutterFields : ∀ other, Piece.codeField other ∉ gutter.pieces := by
    intro other member
    rw [made.pieces, mem_append, mem_append] at member
    rcases member with old | prompt | button
    · cases noControl _ old
    · cases chars_plain _ _ prompt
    · cases mem_singleton.mp button
  refine ⟨?_, ?_, ?_⟩
  · intro p member
    rcases mem_cons.mp member with rfl | inRest
    · exact made.mem_owners
    · rcases mem_cons.mp inRest with rfl | inOut
      · simp [fieldOwners]
      · simp [(outputs p inOut).owners]
  · intro p member other inPieces
    rcases mem_cons.mp member with rfl | inRest
    · exact absurd inPieces (gutterFields other)
    · rcases mem_cons.mp inRest with rfl | inOut
      · rw [fieldPieces, mem_singleton] at inPieces
        cases inPieces
        rfl
      · cases (outputs p inOut).noControl _ inPieces
  · intro alone
    have gutterOwners : gutter.owners = [cell] := alone gutter (by simp)
    have pieces : gutter.pieces = chars (formatInPrompt executionCount) ++ [.runButton cell] := by
      have nothing : opened.pieces = [] := by
        apply noContent
        rw [← gutterOwners, made.owners]
        split
        · exact fun _ member => member
        · exact fun _ member => mem_append_left _ member
      rw [made.pieces, nothing, nil_append]
    refine ⟨?_, ⟨fieldOwners, ?_⟩, ?_, ?_, ?_, ?_, ?_⟩
    · intro p member
      rw [mem_singleton.mp member]
      exact ⟨gutterOwners, fun other inPieces => absurd inPieces (gutterFields other)⟩
    · intro other inPieces
      rw [fieldPieces, mem_singleton] at inPieces
      cases inPieces
      rfl
    · intro p member
      exact ⟨(outputs p member).owners, fun other inPieces => absurd inPieces
          (noField_of_noControl (outputs p member).noControl other)⟩
    · intro p member
      rw [mem_singleton.mp member]
      refine ⟨⟨_, _, pieces, ?_, strip_formatInPrompt _⟩, gutterFields cell⟩
      intro piece isButton
      rw [mem_singleton.mp isButton]
      rfl
    · exact ⟨gutter, [], rfl, by simp [pieces]⟩
    · intro piece member
      rw [fieldPieces, mem_singleton] at member
      rw [member]
      rfl
    · simp [fieldPieces]

end

variable {writer : Writer} {draft : Draft}

theorem append_owners (pieces : List Piece) : (draft.append cell pieces).last.owners =
      if draft.last.owners.contains cell then draft.last.owners
      else draft.last.owners ++ [cell] :=
  rfl

theorem append_append_owners (pieces more : List Piece) :
    ((draft.append cell pieces).append cell more).last.owners =
      (draft.append cell pieces).last.owners := by
  have owned : cell ∈ (draft.append cell pieces).last.owners := by
    rw [append_owners]
    split
    · rename_i contained
      exact contains_iff_mem.mp contained
    · simp
  rw [append_owners, if_pos (contains_iff_mem.mpr owned)]

theorem appendCodeCell_body (outputs : List OutputSegment) (lead : Bool) : ∃ gutter field out,
      (draft.appendCodeCell cell writer executionCount outputs lead).body =
        (draft.leadBreak cell lead).done ++ gutter :: field :: out ∧
      GutterOf cell executionCount (draft.leadBreak cell lead).last gutter ∧
      field.owners = [cell] ∧ field.pieces = [.codeField cell] ∧
      ∀ p ∈ out, Fresh cell p := by
  obtain ⟨gutter, isGutter, made⟩ : ∃ gutter,
      (draft.appendBodyParagraph cell writer (formatInPrompt executionCount)
        (writer.resolveParaStyle styleNotebookIn) lead).append cell [.runButton cell] =
          ⟨(draft.leadBreak cell lead).done, gutter⟩ ∧
        GutterOf cell executionCount (draft.leadBreak cell lead).last gutter := by
    have prompted : (formatInPrompt executionCount).isEmpty = false := by
      cases executionCount <;> rfl
    unfold Draft.appendBodyParagraph
    rw [prompted, Draft.insertString,
      splitOn_eq_singleton (noReturn_formatInPrompt executionCount)]
    refine ⟨_, rfl, ?_, ?_⟩
    · rw [← append_assoc]
      cases (writer.resolveParaStyle styleNotebookIn).bind writer.resolveParaStyle <;> rfl
    · have twice := @append_append_owners cell ((draft.leadBreak cell lead).withStyle
          ((writer.resolveParaStyle styleNotebookIn).bind writer.resolveParaStyle))
        (chars (formatInPrompt executionCount)) [.runButton cell]
      refine twice.trans ?_
      rw [append_owners, Draft.withStyle, Paragraph.withStyle_owners]
  unfold Draft.appendCodeCell
  dsimp only
  rw [isGutter]
  obtain ⟨field, isField, fieldOwners, fieldPieces⟩ : ∃ field,
      (((Draft.mk (draft.leadBreak cell lead).done gutter).breakAtEnd cell).withStyle
        (writer.resolveParaStyle styleBody)).append cell [.codeField cell] =
          ⟨(draft.leadBreak cell lead).done ++ [gutter], field⟩ ∧
        field.owners = [cell] ∧ field.pieces = [.codeField cell] := by
    refine ⟨_, rfl, ?_, ?_⟩
    · cases writer.resolveParaStyle styleBody <;>
        simp [Draft.breakAtEnd, Draft.withStyle, Paragraph.withStyle]
    · cases writer.resolveParaStyle styleBody <;> rfl
  rw [isField]
  have start : Extends (Fresh cell) ((draft.leadBreak cell lead).done ++ [gutter, field])
      ⟨(draft.leadBreak cell lead).done ++ [gutter], field⟩ := by
    refine ⟨[], by simp [Draft.body], ?_⟩
    intro p member
    cases member
  obtain ⟨out, body, fresh⟩ :=
    start.appendSegments (fresh_kept cell) outputs ⟨gutter, by simp, made.visible⟩
  exact ⟨gutter, field, out, by rw [body]; simp, made, fieldOwners, fieldPieces, fresh⟩

end CodeCell

/-- What holds of the draft when the cells before `count` are imported. -/
structure Imported (count : Nat) (draft : Draft) : Prop where
  owners : ∀ p ∈ draft.body, ∀ owner ∈ p.owners, owner < count
  owned : ∀ p ∈ draft.body, p.owners = [] → p.pieces = []
  opened : draft.bodyNonempty = true → count ≠ 0
  unopened : draft.bodyNonempty = false →
    ∀ p ∈ draft.body, ∀ piece ∈ p.pieces, piece.isControl = false
  layout : ∃ stretches, Layout draft.body stretches

theorem bodyNonempty_iff {draft : Draft} :
    draft.bodyNonempty = true ↔ ∃ p ∈ draft.body, p.isEmpty = false := by
  simp [Draft.bodyNonempty]

section Importing

variable {cell : Nat} {writer : Writer} {draft next : Draft}

theorem Extends.appendText {property : Paragraph → Prop} {base : List Paragraph} {lead : Bool}
    (kept : Kept cell property) {notebookCell : NotebookCell}
    (isText : ∀ executionCount outputs, notebookCell ≠ .code executionCount outputs)
    (extended : Extends property base draft) (sealed : Sealed base lead) :
    Extends property base (draft.appendCell cell writer lead notebookCell) := by
  cases notebookCell with
  | markdown blocks => exact extended.appendMarkdownCell kept blocks sealed
  | code executionCount outputs => exact absurd rfl (isText executionCount outputs)
  | raw source => exact extended.appendBodyTextBlock kept source _ sealed

theorem Imported.grow (imported : Imported cell draft) {new : Stretch}
    (visible : draft.bodyNonempty = true) (body : next.body = draft.body ++ new.paragraphs)
    (sound : new.Sound) (its : ∀ p ∈ new.paragraphs, p.owners = [cell])
    (same : ∀ other, new.cell? = some other → other = cell) : Imported (cell + 1) next := by
  obtain ⟨stretches, layout⟩ := imported.layout
  have shown : next.bodyNonempty = true := by
    obtain ⟨p, member, notEmpty⟩ := bodyNonempty_iff.mp visible
    exact bodyNonempty_iff.mpr ⟨p, by simp [body, member], notEmpty⟩
  have older : cell ∉ cellsOf stretches := by
    intro member
    obtain ⟨s, inLayout, hasCell⟩ := mem_filterMap.mp member
    obtain ⟨p, inStretch, owned⟩ := (layout.sound s inLayout).exists_owned hasCell
    exact Nat.lt_irrefl _ (imported.owners p (layout.mem inLayout inStretch) cell owned)
  refine ⟨?_, ?_, fun _ => Nat.succ_ne_zero cell, ?_, stretches ++ [new], ?_⟩
  · intro p member owner owned
    rw [body] at member
    rcases mem_append.mp member with old | inNew
    · exact Nat.lt_succ_of_lt (imported.owners p old owner owned)
    · rw [its p inNew] at owned
      rw [mem_singleton.mp owned]
      exact Nat.lt_succ_self cell
  · intro p member noOwner
    rw [body] at member
    rcases mem_append.mp member with old | inNew
    · exact imported.owned p old noOwner
    · rw [its p inNew] at noOwner
      cases noOwner
  · intro hidden
    rw [shown] at hidden
    cases hidden
  · rw [body]
    apply layout.snoc sound
    · intro p member owner owned
      rw [its p member] at owned
      rw [mem_singleton.mp owned]
      exact older
    · intro other hasCell p member owned
      rw [same other hasCell] at owned
      exact Nat.lt_irrefl _ (imported.owners p member cell owned)

theorem Imported.bare (imported : Imported cell draft) (hidden : draft.bodyNonempty = false) :
    ∀ p ∈ draft.body, Bare cell p :=
  fun p member =>
    ⟨fun owner owned => Nat.le_of_lt (imported.owners p member owner owned),
      imported.owned p member, imported.unopened hidden p member⟩

theorem Imported.ofBare (bare : ∀ p ∈ next.body, Bare cell p) : Imported (cell + 1) next :=
  ⟨fun p member owner owned => Nat.lt_succ_of_le ((bare p member).owners owner owned),
    fun p member => (bare p member).owned, fun _ => Nat.succ_ne_zero cell,
    fun _ p member => (bare p member).noControl,
    ⟨_, Layout.plain fun p member => noField_of_noControl (bare p member).noControl⟩⟩

theorem Imported.appendText (imported : Imported cell draft) {notebookCell : NotebookCell}
    (isText : ∀ executionCount outputs, notebookCell ≠ .code executionCount outputs) :
    Imported (cell + 1) (draft.appendCell cell writer (cell != 0) notebookCell) := by
  cases visible : draft.bodyNonempty with
  | true =>
    have start : Extends (Fresh cell) draft.body draft :=
      ⟨[], by simp, fun p member => by cases member⟩
    have sealed : Sealed draft.body (cell != 0) :=
      .inr ⟨bne_iff_ne.mpr (imported.opened visible), bodyNonempty_iff.mp visible⟩
    obtain ⟨new, body, fresh⟩ :=
      @Extends.appendText _ writer _ _ _ _ (fresh_kept cell) _ isText start sealed
    refine @Imported.grow _ _ _ imported (.plain new) visible body ?_ ?_ ?_
    · exact fun p member => noField_of_noControl (fresh p member).noControl
    · exact fun p member => (fresh p member).owners
    · intro other hasCell
      cases hasCell
  | false =>
    have start : Extends (Bare cell) [] draft := ⟨draft.body, rfl, imported.bare visible⟩
    obtain ⟨new, body, bare⟩ :=
      @Extends.appendText _ writer _ _ _ (cell != 0) (bare_kept cell) _ isText start (.inl rfl)
    rw [nil_append] at body
    exact Imported.ofBare fun p member => bare p (body ▸ member)

theorem Imported.appendCodeCell (imported : Imported cell draft) (executionCount : Option Nat)
    (outputs : List OutputSegment) :
    Imported (cell + 1) (draft.appendCodeCell cell writer executionCount outputs (cell != 0)) := by
  obtain ⟨gutter, field, out, body, made, fieldOwners, fieldPieces, fresh⟩ :=
    @appendCodeCell_body cell executionCount writer draft outputs (cell != 0)
  cases visible : draft.bodyNonempty with
  | true =>
    have lead : (cell != 0) = true := bne_iff_ne.mpr (imported.opened visible)
    have broken : draft.leadBreak cell (cell != 0) = draft.breakAtEnd cell := by
      rw [Draft.leadBreak, lead, visible]
      rfl
    rw [broken] at body made
    have gutterOwners : gutter.owners = [cell] := by
      rw [made.owners]
      simp [Draft.breakAtEnd]
    refine @Imported.grow _ _ _ imported (.code cell [gutter] field out) visible body ?_ ?_ ?_
    · exact made.codeBlock (fun piece member => by cases member) (fun _ => rfl) fieldOwners
        fieldPieces fresh
    · intro p member
      rcases mem_cons.mp member with rfl | inRest
      · exact gutterOwners
      · rcases mem_cons.mp inRest with rfl | inOut
        · exact fieldOwners
        · exact (fresh p inOut).owners
    · intro other hasCell
      cases hasCell
      rfl
  | false =>
    have unbroken : draft.leadBreak cell (cell != 0) = draft := by
      rw [Draft.leadBreak, visible, Bool.and_false]
      rfl
    rw [unbroken] at body made
    have bare := imported.bare visible
    have inBody : ∀ p ∈ draft.done, p ∈ draft.body := fun p member => by
      simp [Draft.body, member]
    have lastInBody : draft.last ∈ draft.body := by simp [Draft.body]
    have block : CodeBlock cell [gutter] field out := by
      apply made.codeBlock (bare _ lastInBody).noControl ?_ fieldOwners fieldPieces fresh
      intro only
      apply (bare _ lastInBody).owned
      rw [eq_nil_iff_forall_not_mem]
      intro owner owned
      have older := imported.owners _ lastInBody owner owned
      rw [mem_singleton.mp (only owned)] at older
      exact Nat.lt_irrefl _ older
    have owners : ∀ p ∈ gutter :: field :: out, ∀ owner ∈ p.owners, owner ≤ cell := by
      intro p member owner owned
      rcases mem_cons.mp member with rfl | inRest
      · rcases made.owner_cases owned with old | new
        · exact (bare _ lastInBody).owners owner old
        · exact Nat.le_of_eq new
      · have its : p.owners = [cell] := by
          rcases mem_cons.mp inRest with rfl | inOut
          · exact fieldOwners
          · exact (fresh p inOut).owners
        rw [its] at owned
        exact Nat.le_of_eq (mem_singleton.mp owned)
    refine ⟨?_, ?_, fun _ => Nat.succ_ne_zero cell, ?_, ?_⟩
    · intro p member owner owned
      rw [body] at member
      rcases mem_append.mp member with old | new
      · exact Nat.lt_succ_of_le ((bare p (inBody p old)).owners owner owned)
      · exact Nat.lt_succ_of_le (owners p new owner owned)
    · intro p member noOwner
      rw [body] at member
      rcases mem_append.mp member with old | new
      · exact imported.owned p (inBody p old) noOwner
      · have owned := block.owned p new
        rw [noOwner] at owned
        cases owned
    · intro hidden p member
      have shown : (draft.appendCodeCell cell writer executionCount outputs
          (cell != 0)).bodyNonempty = true :=
        bodyNonempty_iff.mpr ⟨gutter, by simp [body], made.visible⟩
      rw [shown] at hidden
      cases hidden
    · rw [body]
      refine ⟨_, @Layout.snoc _ _ (Layout.plain ?_) (.code cell [gutter] field out) block ?_ ?_⟩
      · exact fun p member => noField_of_noControl (bare p (inBody p member)).noControl
      · intro p _ owner _ member
        cases member
      · intro other hasCell p member owned
        cases hasCell
        exact Nat.lt_irrefl _ (imported.owners p (inBody p member) cell owned)

theorem Imported.importFrom (cells : List NotebookCell) :
    ∀ {cell : Nat} {draft : Draft}, Imported cell draft →
      ∃ count, Imported count (importFrom writer cell cells draft) := by
  induction cells with
  | nil =>
    intro cell draft imported
    exact ⟨cell, imported⟩
  | cons notebookCell cells induction =>
    intro cell draft imported
    apply induction
    cases notebookCell with
    | code executionCount outputs => exact imported.appendCodeCell executionCount outputs
    | markdown blocks | raw source => exact imported.appendText (by simp)

end Importing

/-- **An imported notebook falls into stretches.** -/
theorem importCells_layout (writer : Writer) (cells : List NotebookCell) :
    ∃ stretches, Layout (importCells writer cells) stretches := by
  have start : Imported 0 Draft.initial := by
    refine ⟨?_, ?_, by decide, ?_, _, Layout.plain ?_⟩ <;>
      simp [Draft.initial, Draft.body]
  obtain ⟨count, imported⟩ := @Imported.importFrom writer cells _ _ start
  exact imported.layout

end WriterAgent.Notebook
