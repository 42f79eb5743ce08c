import WriterAgent.Foundations.DecimalDigit
import WriterAgent.Foundations.SourceLines

/-!
# Lists of a markdown cell

`plugin/notebook/writer_importer.py`: the blocks of a markdown source, and the
nested HTML lists that are built from the indents of its list items.
-/

namespace WriterAgent.Notebook

open PyText List Option

inductive ListKind where
  | ul
  | ol
  deriving DecidableEq

/-- A list item; an `ol` item has the number of its marker. -/
structure ListRow where
  indent : ℕ
  kind : ListKind
  start : Option ℕ
  text : Text
  deriving DecidableEq

inductive SourceBlock where
  | heading (level : ℕ) (title : Text)
  | image (alt src : Text)
  | list (rows : List ListRow)
  | blockquote (text : Text)
  | paragraph (text : Text)
  deriving DecidableEq

def isBlank (c : Char) : Bool := c = ' ' || c = '\t'

/-- `_md_indent_cols`: the columns of a text whose tabs go to the next four. -/
def mdIndentCols (text : Text) : ℕ :=
  text.foldl (fun col c => if c = '\t' then col + (4 - col % 4) else col + 1) 0

/-- `_ATX_HEADING_RE` on a line without trailing white space. -/
def atxHeading? (line : Text) : Option (ℕ × Text) :=
  let hashes := line.takeWhile (· = '#')
  let rest := line.drop hashes.length
  if 1 ≤ hashes.length ∧ hashes.length ≤ 6 ∧ rest.head?.any isBlank then
    some (hashes.length, rstripBy isBlank (rstripBy (· = '#')
      (rstripBy isBlank (lstripBy isBlank rest))))
  else none

/-- `_MD_IMAGE_LINE_RE` on a stripped line. -/
def imageLine? (line : Text) : Option (Text × Text) :=
  match line with
  | '!' :: '[' :: rest =>
    let alt := rest.takeWhile (· ≠ ']')
    match rest.drop alt.length with
    | ']' :: '(' :: after =>
      let src := after.takeWhile (· ≠ ')')
      if src ≠ [] ∧ after.drop src.length = [')'] then some (alt, src) else none
    | _ => none
  | _ => none

def behindMarker? (rest : Text) : Option Text :=
  if rest.head?.any isBlank then some (lstripBy isBlank rest) else none

/-- `_MD_UL_RE` and `_MD_OL_RE`. -/
def listItem? (line : Text) : Option ListRow :=
  let blanks := line.takeWhile isBlank
  let rest := line.drop blanks.length
  let digits := rest.takeWhile isDecimal
  match rest with
  | '*' :: after | '+' :: after | '-' :: after =>
    (behindMarker? after).map (⟨mdIndentCols blanks, .ul, none, ·⟩)
  | _ =>
    match rest.drop digits.length with
    | '.' :: after | ')' :: after =>
      if digits = [] then none
      else (behindMarker? after).map (⟨mdIndentCols blanks, .ol, some (decimalsValue digits), ·⟩)
    | _ => none

/-- `_MD_BQ_RE`. -/
def quoteLine? (line : Text) : Option Text :=
  match lstripBy isBlank line with
  | '>' :: c :: rest => some (if isBlank c then rest else c :: rest)
  | ['>'] => some []
  | _ => none

/-- The variables of `_iter_markdown_blocks`. -/
structure MarkdownWalk where
  blocks : List SourceBlock
  para : List Text
  listItems : List ListRow
  quote : List Text

namespace MarkdownWalk

def flushPara (walk : MarkdownWalk) : MarkdownWalk :=
  if walk.para = [] then walk
  else { walk with
    blocks := walk.blocks ++ [.paragraph (join '\n' walk.para)]
    para := [] }

def flushList (walk : MarkdownWalk) : MarkdownWalk :=
  if walk.listItems = [] then walk
  else { walk with
    blocks := walk.blocks ++ [.list walk.listItems]
    listItems := [] }

def flushQuote (walk : MarkdownWalk) : MarkdownWalk :=
  if walk.quote = [] then walk
  else { walk with
    blocks := walk.blocks ++ [.blockquote (join '\n' walk.quote)]
    quote := [] }

def flush (walk : MarkdownWalk) : MarkdownWalk :=
  walk.flushPara.flushList.flushQuote

def continued? (walk : MarkdownWalk) (line : Text) : Option (List ListRow) :=
  match walk.listItems.getLast? with
  | some last =>
    if line.head?.any isBlank ∧ last.indent < mdIndentCols line then
      some (walk.listItems.dropLast ++ [{ last with text := last.text ++ ' ' :: strip line }])
    else none
  | none => none

def visitLine (walk : MarkdownWalk) (rawLine : Text) : MarkdownWalk :=
  let line := rstripBy isSpace rawLine
  match atxHeading? line with
  | some (hashes, title) =>
    let walk := walk.flush
    if strip title = [] then walk
    else { walk with
      blocks := walk.blocks ++ [.heading (if hashes ≤ 1 then 1 else 2) (strip title)] }
  | none =>
  match imageLine? (strip line) with
  | some (alt, src) =>
    let walk := walk.flush
    { walk with blocks := walk.blocks ++ [.image alt (strip src)] }
  | none =>
  match listItem? line with
  | some row =>
    let walk := walk.flushPara.flushQuote
    { walk with listItems := walk.listItems ++ [row] }
  | none =>
  match quoteLine? line with
  | some text =>
    let walk := walk.flushPara.flushList
    { walk with quote := walk.quote ++ [text] }
  | none =>
  match walk.continued? line with
  | some rows => { walk with listItems := rows }
  | none =>
  if strip line = [] then walk.flush
  else
    let walk := walk.flushList.flushQuote
    { walk with para := walk.para ++ [line] }

end MarkdownWalk

def iterMarkdownBlocks (source : Text) : List SourceBlock :=
  ((splitLinesKeep source).foldl MarkdownWalk.visitLine ⟨[], [], [], []⟩).flush.blocks

/-- The parts that `_list_block_to_html` joins.  `openItem` is `<li>` with the
inner HTML of an item. -/
inductive ListPart where
  | openList (kind : ListKind) (start : Option ℕ)
  | closeList (kind : ListKind)
  | openItem (inner : Text)
  | closeItem

def ListKind.name : ListKind → Text
  | .ul => "ul".toList
  | .ol => "ol".toList

def ListPart.html : ListPart → Text
  | .openList kind start =>
    match kind, start with
    | .ol, some n =>
      if 1 < n then "<ol start=\"".toList ++ (Nat.toDigits 10 n) ++ "\">".toList
      else "<ol>".toList
    | _, _ => '<' :: kind.name ++ ['>']
  | .closeList kind => "</".toList ++ kind.name ++ ['>']
  | .openItem inner => "<li>".toList ++ inner
  | .closeItem => "</li>".toList

/-- The item behind is nested. -/
def isDeeper (indent : ℕ) (rows : List ListRow) : Bool :=
  rows.head?.any (indent < ·.indent)

mutual

/-- `build`, with the rows that it leaves over. -/
def buildList (inline : Text → Text) : ℕ → ℕ → List ListRow → List ListPart × List ListRow
  | fuel + 1, minIndent, row :: rows =>
    if row.indent < minIndent then ([], row :: rows)
    else
      let (parts, left) := buildItems inline fuel row.indent row.kind (row :: rows)
      let whole := .openList row.kind row.start :: parts ++ [.closeList row.kind]
      if left.head?.any (·.indent = row.indent) then
        let (more, left) := buildList inline fuel minIndent left
        (whole ++ more, left)
      else (whole, left)
  | _, _, rows => ([], rows)

/-- The loop of `build` over the items of one list. -/
def buildItems (inline : Text → Text) :
    ℕ → ℕ → ListKind → List ListRow → List ListPart × List ListRow
  | fuel + 1, indent, kind, row :: rows =>
    if row.indent = indent ∧ row.kind = kind then
      let (nested, left) :=
        if isDeeper indent rows then buildList inline fuel (indent + 1) rows
        else ([], rows)
      let (parts, left) := buildItems inline fuel indent kind left
      (.openItem (inline row.text) :: nested ++ .closeItem :: parts, left)
    else ([], row :: rows)
  | _, _, _, rows => ([], rows)

end

def listParts (inline : Text → Text) (rows : List ListRow) : List ListPart :=
  match rows with
  | [] => []
  | row :: _ => (buildList inline (2 * rows.length + 1) row.indent rows).1

def listBlockToHtml (inline : Text → Text) (rows : List ListRow) : Text :=
  (listParts inline rows).flatMap ListPart.html

/-- The open elements behind a part, the innermost first; `none` is an item. -/
def openBehind : List (Option ListKind) → ListPart → Option (List (Option ListKind))
  | stack, .openList kind _ => some (some kind :: stack)
  | some kind :: stack, .closeList other => if kind = other then some stack else none
  | stack, .openItem _ => some (none :: stack)
  | none :: stack, .closeItem => some stack
  | _, _ => none

/-- The parts close what they open, and nothing else. -/
def ProperlyNested (parts : List ListPart) : Prop :=
  ∀ stack, parts.foldlM openBehind stack = some stack

def ListPart.inner? : ListPart → Option Text
  | .openItem inner => some inner
  | _ => none

/-- Every item is the content of one `<li>`, in order. -/
structure ListComplete (inline : Text → Text) (rows : List ListRow) : Prop where
  items : (listParts inline rows).filterMap ListPart.inner? = rows.map (inline ·.text)
  nested : ProperlyNested (listParts inline rows)

/-- An item that is indented less than the one before goes on with a list that
is still open around that one.  The stack has the indents of these lists. -/
def IndentsMeet : List ℕ → List ListRow → Prop
  | _, [] => True
  | stack, row :: rows =>
    if stack.head?.any (· < row.indent) then IndentsMeet (row.indent :: stack) rows
    else (stack.dropWhile (row.indent < ·)).head? = some row.indent ∧
      IndentsMeet (stack.dropWhile (row.indent < ·)) rows

def IndentsFit : List ListRow → Prop
  | [] => True
  | row :: rows => IndentsMeet [row.indent] rows

def Resumes (stack : List ℕ) : List ListRow → Prop
  | [] => True
  | row :: rows => (stack.dropWhile (row.indent < ·)).head? = some row.indent ∧
      IndentsMeet (stack.dropWhile (row.indent < ·)) rows

variable {inline : Text → Text} {rows left final : List ListRow} {row : ListRow}
  {parts more : List ListPart} {kind : ListKind} {indent : ℕ} {outer : List ℕ}

theorem indentsMeet_iff_resumes (level : isDeeper indent rows = false) :
    IndentsMeet (indent :: outer) rows ↔ Resumes (indent :: outer) rows := by
  cases rows with
  | nil => rfl
  | cons row rows => rw [IndentsMeet, if_neg (by simpa [isDeeper] using level), Resumes]

theorem indentsMeet_of_deeper (deeper : indent < row.indent) :
    IndentsMeet (indent :: outer) (row :: rows) ↔
      IndentsMeet (row.indent :: indent :: outer) rows := by
  rw [IndentsMeet, if_pos (by simpa using deeper)]

theorem resumes_cons (same : row.indent = indent) :
    Resumes (indent :: outer) (row :: rows) ↔ IndentsMeet (indent :: outer) rows := by
  simp [Resumes, same]

/-- A list that does not go on is left. -/
theorem resumes_pop (below : ∀ o ∈ outer, o < indent)
    (ends : left.head?.any (·.indent = indent) = false) :
    Resumes (indent :: outer) left ↔ Resumes outer left := by
  cases left with
  | nil => rfl
  | cons row rows =>
    have different : row.indent ≠ indent := by simpa using ends
    rcases Nat.lt_or_gt_of_ne different with shallower | deeper
    · rw [Resumes, dropWhile_cons_of_pos (by simpa using shallower), Resumes]
    · have none : (outer.dropWhile (row.indent < ·)).head? ≠ some row.indent := by
        intro found
        have member := (dropWhile_sublist _).subset (mem_of_mem_head? found)
        exact absurd (below _ member) (by omega)
      rw [Resumes, dropWhile_cons_of_neg (by simpa using deeper.le)]
      constructor
      · rintro ⟨found, -⟩
        exact absurd (some.inj found).symm different
      · rintro ⟨found, -⟩
        exact absurd found none

/-- What `build` has made of the rows before those that it leaves over. -/
structure Built (inline : Text → Text) (rows : List ListRow)
    (result : List ListPart × List ListRow) : Prop where
  taken : ∃ taken, rows = taken ++ result.2 ∧
    result.1.filterMap ListPart.inner? = taken.map (inline ·.text)
  nested : ProperlyNested result.1

theorem Built.nothing (rows : List ListRow) : Built inline rows ([], rows) where
  taken := ⟨[], rfl, rfl⟩
  nested _ := rfl

theorem Built.length_le {result : List ListPart × List ListRow}
    (built : Built inline rows result) : result.2.length ≤ rows.length := by
  obtain ⟨taken, split, -⟩ := built.taken
  rw [split, length_append]
  exact Nat.le_add_left _ _

theorem Built.append (built : Built inline rows (parts, left))
    (later : Built inline left (more, final)) :
    Built inline rows (parts ++ more, final) where
  taken := by
    obtain ⟨taken, rfl, items⟩ := built.taken
    obtain ⟨taken', rfl, items'⟩ := later.taken
    exact ⟨taken ++ taken', (append_assoc _ _ _).symm,
      by rw [filterMap_append, map_append, items, items']⟩
  nested stack := by
    rw [foldlM_append, built.nested stack]
    exact later.nested stack

theorem Built.list (start : Option ℕ) (built : Built inline rows (parts, left)) :
    Built inline rows (.openList kind start :: parts ++ [.closeList kind], left) where
  taken := by
    obtain ⟨taken, split, items⟩ := built.taken
    exact ⟨taken, split, by simpa [filterMap_cons, ListPart.inner?] using items⟩
  nested stack := by
    rw [cons_append, foldlM_cons, openBehind, bind_eq_bind, bind_some, foldlM_append, built.nested]
    simp [openBehind]

theorem Built.item (built : Built inline rows (parts, left))
    (later : Built inline left (more, final)) :
    Built inline (row :: rows)
      (.openItem (inline row.text) :: parts ++ .closeItem :: more, final) where
  taken := by
    obtain ⟨taken, rfl, items⟩ := built.taken
    obtain ⟨taken', rfl, items'⟩ := later.taken
    refine ⟨row :: (taken ++ taken'), by simp, ?_⟩
    simp [filterMap_cons, ListPart.inner?, items, items']
  nested stack := by
    rw [cons_append, foldlM_cons, openBehind, bind_eq_bind, bind_some, foldlM_append, built.nested]
    simp [openBehind, later.nested stack]

/-- `build` begins a list: with enough fuel it takes the first row at least,
and the rows behind it meet the open lists just when what is left over does. -/
structure BuildsList (inline : Text → Text) (row : ListRow) (rows : List ListRow)
    (result : List ListPart × List ListRow) : Prop where
  built : Built inline (row :: rows) result
  shorter : result.2.length ≤ rows.length
  meets : ∀ outer, (∀ o ∈ outer, o < row.indent) →
    (IndentsMeet (row.indent :: outer) rows ↔ Resumes outer result.2)

/-- The loop of `build` over one list. -/
structure BuildsItems (inline : Text → Text) (indent : ℕ) (kind : ListKind)
    (rows : List ListRow) (result : List ListPart × List ListRow) : Prop where
  built : Built inline rows result
  takes : ∀ row later, rows = row :: later → row.indent = indent → row.kind = kind →
    result.2.length ≤ later.length
  meets : ∀ outer, (∀ o ∈ outer, o < indent) →
    (Resumes (indent :: outer) rows ↔ Resumes (indent :: outer) result.2)

theorem builds (inline : Text → Text) (fuel : ℕ) :
    (∀ minIndent row rows, minIndent ≤ row.indent → 2 * rows.length + 3 ≤ fuel →
      BuildsList inline row rows (buildList inline fuel minIndent (row :: rows))) ∧
    (∀ indent kind rows, 2 * rows.length ≤ fuel →
      BuildsItems inline indent kind rows (buildItems inline fuel indent kind rows)) := by
  induction fuel with
  | zero =>
    refine ⟨fun _ _ _ _ enough => by omega, fun indent kind rows enough => ?_⟩
    rw [eq_nil_of_length_eq_zero (by omega : rows.length = 0)]
    exact ⟨.nothing [], nofun, fun _ _ => Iff.rfl⟩
  | succ fuel ih =>
    obtain ⟨lists, items⟩ := ih
    constructor
    · intro minIndent row rows reaches enough
      have loop := items row.indent row.kind (row :: rows) (by rw [length_cons]; omega)
      have shorter := loop.takes row rows rfl rfl rfl
      have first : ∀ outer, (∀ o ∈ outer, o < row.indent) →
          (IndentsMeet (row.indent :: outer) rows ↔ Resumes (row.indent :: outer)
            (buildItems inline fuel row.indent row.kind (row :: rows)).2) :=
        fun outer below => (resumes_cons rfl).symm.trans (loop.meets outer below)
      rw [buildList, if_neg (by omega)]
      dsimp only
      split
      · rename_i again
        obtain ⟨next, later, split⟩ : ∃ next later,
            (buildItems inline fuel row.indent row.kind (row :: rows)).2 =
              next :: later := by
          cases left : (buildItems inline fuel row.indent row.kind (row :: rows)).2 with
          | nil => simp [left] at again
          | cons next later => exact ⟨next, later, rfl⟩
        rw [split] at shorter again first
        have same : next.indent = row.indent := by simpa using again
        rw [length_cons] at shorter
        have more := lists minIndent next later (by omega) (by omega)
        rw [split]
        refine ⟨(loop.built.list row.start).append ?_, ?_, ?_⟩
        · rw [split]
          exact more.built
        · exact more.shorter.trans (by omega)
        · intro outer below
          rw [first outer below, resumes_cons same, ← same]
          exact more.meets outer (same ▸ below)
      · rename_i ends
        refine ⟨loop.built.list row.start, shorter, fun outer below => ?_⟩
        exact (first outer below).trans (resumes_pop below (by simpa using ends))
    · intro indent kind rows enough
      cases rows with
      | nil => exact ⟨.nothing [], nofun, fun _ _ => Iff.rfl⟩
      | cons row rows =>
        rw [length_cons] at enough
        rw [buildItems]
        split
        · rename_i matches_
          obtain ⟨same, -⟩ := matches_
          cases deeper : isDeeper indent rows with
          | false =>
            have later := items indent kind rows (by omega)
            refine ⟨(Built.nothing rows).item later.built, ?_, ?_⟩
            · rintro _ _ ⟨rfl, rfl⟩ _ _
              exact later.built.length_le
            · intro outer below
              rw [resumes_cons same, indentsMeet_iff_resumes deeper]
              exact later.meets outer below
          | true =>
            obtain ⟨next, nested, rfl⟩ : ∃ next nested, rows = next :: nested := by
              cases rows with
              | nil => simp [isDeeper] at deeper
              | cons next nested => exact ⟨next, nested, rfl⟩
            have below : indent < next.indent := by simpa [isDeeper] using deeper
            rw [length_cons] at enough
            have inner := lists (indent + 1) next nested below (by omega)
            have later := items indent kind _ (by have := inner.shorter; omega :
                2 * (buildList inline fuel (indent + 1) (next :: nested)).2.length ≤ fuel)
            refine ⟨inner.built.item later.built, ?_, ?_⟩
            · rintro _ _ ⟨rfl, rfl⟩ _ _
              exact later.built.length_le.trans inner.built.length_le
            · intro outer lower
              rw [resumes_cons same, indentsMeet_of_deeper below, inner.meets (indent :: outer)]
              · exact later.meets outer lower
              · rintro o (_ | ⟨_, member⟩)
                · exact below
                · exact (lower o member).trans below
        · rename_i other
          refine ⟨.nothing _, ?_, fun _ _ => Iff.rfl⟩
          rintro _ _ ⟨rfl, rfl⟩ sameIndent sameKind
          exact absurd ⟨sameIndent, sameKind⟩ other

theorem resumes_nil_iff : Resumes [] left ↔ left = [] := by
  cases left with
  | nil => exact iff_of_true trivial rfl
  | cons row rows => simp [Resumes]

theorem listComplete_iff (inline : Text → Text) (rows : List ListRow) :
    ListComplete inline rows ↔ IndentsFit rows := by
  cases rows with
  | nil => exact iff_of_true ⟨rfl, fun _ => rfl⟩ trivial
  | cons row rows =>
    obtain ⟨built, -, meets⟩ := (builds inline (2 * (row :: rows).length + 1)).1
      row.indent row rows le_rfl (by rw [length_cons]; omega)
    obtain ⟨taken, split, items⟩ := built.taken
    rw [IndentsFit, meets [] nofun, resumes_nil_iff]
    constructor
    · intro complete
      have same := congrArg length (items.symm.trans complete.items)
      rw [split, length_map, length_map, length_append] at same
      exact eq_nil_of_length_eq_zero (by omega)
    · intro all
      rw [all, append_nil] at split
      exact ⟨items.trans (by rw [split]), built.nested⟩

end WriterAgent.Notebook
