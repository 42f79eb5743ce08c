import Mathlib.Data.List.Sort
import WriterAgent.Foundations.EditScript
import WriterAgent.Foundations.TextScan

/-!
# Tracked replacements

`plugin/persian/tracked_replace.py`: in the selection of a Writer document each
source text of a list of changes is replaced by its target.  The occurrences of
all changes are collected first and then replaced from right to left.
-/

namespace WriterAgent.Persian

open PyText List

def normalizeLinebreaks (text : Text) : Text :=
  replaceChar '\r' '\n'
    (replaceText "\n\r".toList "\n".toList (replaceText "\r\n".toList "\n".toList text))

/-- A document as the text around its selection. -/
structure SelectedDocument where
  before : Text
  selection : Text
  after : Text

structure Change where
  source : Text
  target : Text
  deriving DecidableEq

structure Match where
  changeIdx : ℕ
  sourceText : Text
  targetText : Text
  docStart : ℕ
  docEnd : ℕ
  selStart : ℕ
  selEnd : ℕ
  deriving DecidableEq

inductive Status where
  | applied
  | textMismatch
  deriving DecidableEq

/-- An entry of the details: a change without any match, or a match with what
became of it. -/
inductive Detail where
  | notFound (source target : Text)
  | tried (tried : Match) (status : Status)
  deriving DecidableEq

structure Report where
  text : Text
  applied : ℕ
  skipped : ℕ
  details : List Detail

/-- The starts of the occurrences of a source, found one behind the other.
The first argument counts the characters of an occurrence that are still to be
skipped. -/
def occurrences (source : Text) : ℕ → ℕ → Text → List ℕ
  | _, _, [] => []
  | skip + 1, position, _ :: rest => occurrences source skip (position + 1) rest
  | 0, position, c :: rest =>
    if source.isPrefixOf (c :: rest) then
      position :: occurrences source (source.length - 1) (position + 1) rest
    else occurrences source 0 (position + 1) rest

/-- The matches of one change.  An empty source, or one that is its own
target, is passed over. -/
def matchesOf (document : SelectedDocument) (change : Change) (changeIdx : ℕ) : List Match :=
  if change.source.isEmpty || change.source = change.target then []
  else
    let sourceNorm := normalizeLinebreaks change.source
    let targetNorm := normalizeLinebreaks change.target
    (occurrences sourceNorm 0 0 (normalizeLinebreaks document.selection)).map fun found =>
      { changeIdx := changeIdx
        sourceText := sourceNorm
        targetText := targetNorm
        docStart := document.before.length + found
        docEnd := document.before.length + found + sourceNorm.length
        selStart := found
        selEnd := found + sourceNorm.length }

def allMatches (document : SelectedDocument) (changes : List Change) : List Match :=
  changes.zipIdx.flatMap fun (change, changeIdx) => matchesOf document change changeIdx

/-- The order of the sort: by the place in the document, the last one first. -/
def Match.NotBefore (a b : Match) : Prop := b.docStart ≤ a.docStart

instance : DecidableRel Match.NotBefore := fun a b =>
  inferInstanceAs (Decidable (b.docStart ≤ a.docStart))

instance : Std.Total Match.NotBefore := ⟨fun a b => Nat.le_total b.docStart a.docStart⟩

instance : IsTrans Match Match.NotBefore := ⟨fun _ _ _ first second => second.trans first⟩

def sortedMatches (document : SelectedDocument) (changes : List Change) : List Match :=
  (allMatches document changes).insertionSort Match.NotBefore

structure Progress where
  text : Text
  applied : ℕ
  details : List Detail

def Match.docSplice (found : Match) : Splice Char :=
  ⟨found.docStart, found.docEnd, found.targetText⟩

def readsSource (text : Text) (found : Match) : Bool :=
  normalizeLinebreaks (slice text found.docStart found.docEnd) = found.sourceText

def applyMatch (progress : Progress) (found : Match) : Progress :=
  if readsSource progress.text found then
    ⟨replaceSpan progress.text found.docSplice, progress.applied + 1,
      progress.details ++ [.tried found .applied]⟩
  else { progress with details := progress.details ++ [.tried found .textMismatch] }

def foundSources (found : List Match) (details : List Detail) : List Text :=
  (found.filter fun candidate => details.any fun detail =>
    match detail with
    | .tried other .applied => other.docStart == candidate.docStart
    | _ => false).map Match.sourceText

/-- `apply_tracked_replacements` in a Writer document. -/
def applyTrackedReplacements (document : SelectedDocument) (changes : List Change) :
    Except String Report :=
  if document.selection.isEmpty then
    .error "No text selected. Select text in Writer before running."
  else
    let whole := document.before ++ (document.selection ++ document.after)
    let sorted := sortedMatches document changes
    if sorted.isEmpty then
      .ok ⟨whole, 0, changes.length,
        changes.map fun change => .notFound change.source change.target⟩
    else
      let final := sorted.foldl applyMatch ⟨whole, 0, []⟩
      let allSources := (changes.map Change.source).dedup
      .ok ⟨final.text, final.applied, (allSources.filter fun source =>
          !(foundSources sorted final.details).contains source).length,
        final.details⟩

theorem cr_not_mem_normalize (text : Text) : '\r' ∉ normalizeLinebreaks text := by
  intro member
  obtain ⟨c, -, isReturn⟩ := mem_map.mp member
  split at isReturn
  · cases isReturn
  · rename_i other
    rw [isReturn] at other
    exact other rfl

theorem normalizeLinebreaks_eq_self {text : Text} (noReturn : '\r' ∉ text) :
    normalizeLinebreaks text = text := by
  have kept : ∀ c ∈ text, (if c == '\r' then '\n' else c) = id c := by
    intro c member
    apply if_neg
    intro isReturn
    rw [beq_iff_eq] at isReturn
    exact noReturn (isReturn ▸ member)
  rw [normalizeLinebreaks, @replaceText_eq_self "\r\n".toList "\n".toList text '\r' (by decide)
    noReturn, @replaceText_eq_self "\n\r".toList "\n".toList text '\r' (by decide) noReturn,
    replaceChar, List.map_congr_left kept, map_id]

theorem replaceText_ne_nil {old new text : Text} (some_new : new ≠ []) (nonempty : text ≠ []) :
    replaceText old new text ≠ [] := by
  cases text with
  | nil => exact absurd rfl nonempty
  | cons c rest =>
    unfold replaceText substitute
    split
    · rename_i length replacement found
      split_ifs at found
      cases found
      exact append_ne_nil_of_left_ne_nil some_new _
    · exact cons_ne_nil _ _

theorem normalizeLinebreaks_ne_nil {text : Text} (nonempty : text ≠ []) :
    normalizeLinebreaks text ≠ [] := by
  have newline : "\n".toList ≠ [] := by decide
  intro empty
  exact replaceText_ne_nil newline (replaceText_ne_nil newline nonempty) (map_eq_nil_iff.mp empty)

theorem occurrences_prefix {source : Text} : ∀ {skip position found : ℕ} {rest : Text},
      found ∈ occurrences source skip position rest →
        position ≤ found ∧ source <+: rest.drop (found - position) := by
  intro skip position found rest
  induction rest generalizing skip position with
  | nil =>
    intro member
    cases skip <;> cases member
  | cons c rest induction =>
    have later : ∀ {skip : ℕ}, found ∈ occurrences source skip (position + 1) rest →
        position ≤ found ∧ source <+: (c :: rest).drop (found - position) := by
      intro skip member
      obtain ⟨bound, starts⟩ := induction member
      refine ⟨by omega, ?_⟩
      have shifted : found - position = found - (position + 1) + 1 := by omega
      rw [shifted]
      exact starts
    intro member
    cases skip with
    | succ skip => exact later member
    | zero =>
      rw [occurrences] at member
      split at member
      · rename_i starts
        rcases List.mem_cons.mp member with rfl | behind
        · refine ⟨Nat.le_refl _, ?_⟩
          rw [Nat.sub_self]
          exact isPrefixOf_iff_prefix.mp starts
        · exact later behind
      · exact later member

/-- A match is an occurrence of the source of a change, in the selection. -/
structure IsMatch (document : SelectedDocument) (changes : List Change) (found : Match) : Prop where
  change : ∃ change ∈ changes, found.sourceText = normalizeLinebreaks change.source ∧
    found.targetText = normalizeLinebreaks change.target
  nonempty : found.sourceText ≠ []
  occurs : found.sourceText <+: document.selection.drop found.selStart
  selEnd : found.selEnd = found.selStart + found.sourceText.length
  docStart : found.docStart = document.before.length + found.selStart
  docEnd : found.docEnd = document.before.length + found.selEnd

theorem isMatch_of_mem {document : SelectedDocument} {changes : List Change} {found : Match}
    (noReturn : '\r' ∉ document.selection) (member : found ∈ sortedMatches document changes) :
    IsMatch document changes found := by
  have collected : found ∈ allMatches document changes :=
    (mem_insertionSort Match.NotBefore).mp member
  obtain ⟨⟨change, changeIdx⟩, inChanges, inMatches⟩ := mem_flatMap.mp collected
  have known : change ∈ changes := fst_mem_of_mem_zipIdx inChanges
  dsimp only at inMatches
  unfold matchesOf at inMatches
  split at inMatches
  · cases inMatches
  · rename_i usable
    obtain ⟨start, occurs, rfl⟩ := mem_map.mp inMatches
    rw [normalizeLinebreaks_eq_self noReturn] at occurs
    obtain ⟨-, starts⟩ := occurrences_prefix occurs
    refine ⟨⟨change, known, rfl, rfl⟩, ?_, starts, rfl, rfl, Nat.add_assoc _ _ _⟩
    apply normalizeLinebreaks_ne_nil
    intro empty
    exact usable (by simp [empty])

end WriterAgent.Persian

/-!
## Replacements of disjoint occurrences

A match that lies before the last applied one still reads as it did in the
original text.
-/

namespace WriterAgent.Persian

open PyText

def usedIn (details : List Detail) : List Match :=
  (details.filterMap fun detail =>
    match detail with
    | .tried found .applied => some found
    | _ => none).reverse

def Match.selSplice (found : Match) : Splice Char :=
  ⟨found.selStart, found.selEnd, found.targetText⟩

/-- Two matches have no character in common. -/
def Match.Apart (a b : Match) : Prop := a.selEnd ≤ b.selStart ∨ b.selEnd ≤ a.selStart

instance : DecidableRel Match.Apart := fun a b =>
  inferInstanceAs (Decidable (a.selEnd ≤ b.selStart ∨ b.selEnd ≤ a.selStart))

/-- The selection has the targets of pairwise disjoint occurrences in it, which
are the applied ones, and the text around it is as it was. -/
structure Faithful (document : SelectedDocument) (changes : List Change) (report : Report) :
    Prop where
  occurrences : ∀ found ∈ usedIn report.details, IsMatch document changes found
  disjoint : (usedIn report.details).Pairwise Match.Apart
  applied : report.applied = (usedIn report.details).length
  text : report.text = document.before ++
    (applySplices document.selection 0 ((usedIn report.details).map Match.selSplice) ++
      document.after)

def SelectedDocument.whole (document : SelectedDocument) : Text :=
  document.before ++ (document.selection ++ document.after)

/-- Keep the matches that end before the last kept one starts.  No other match
reads as its source, at its range in the text with the kept ones replaced. -/
def settled (document : SelectedDocument) : List Match → List Match → Bool
  | _, [] => true
  | used, found :: rest =>
    if used.head?.all fun next => decide (found.selEnd ≤ next.selStart) then
      settled document (found :: used) rest
    else
      !readsSource (applySplices document.whole 0 (used.map Match.docSplice)) found &&
        settled document used rest

section Run

variable {document : SelectedDocument} {changes : List Change} {used rest : List Match}
  {progress : Progress} {found : Match}

structure Replaced (document : SelectedDocument) (changes : List Change) (used : List Match)
    (progress : Progress) : Prop where
  isMatch : ∀ found ∈ used, IsMatch document changes found
  ordered : InOrder document.whole.length document.before.length (used.map Match.docSplice)
  text : progress.text =
    (used.map Match.docSplice).foldr (fun splice s => replaceSpan s splice) document.whole
  applied : progress.applied = used.length
  details : usedIn progress.details = used

theorem IsMatch.bounds (isMatch : IsMatch document changes found) :
    found.selStart < found.selEnd ∧ found.selEnd ≤ document.selection.length := by
  have positive := List.length_pos_of_ne_nil isMatch.nonempty
  have room := isMatch.occurs.length_le
  rw [List.length_drop] at room
  rw [isMatch.selEnd]
  omega

theorem length_whole :
    document.whole.length =
      document.before.length + (document.selection.length + document.after.length) := by
  simp [SelectedDocument.whole]

theorem IsMatch.slice_whole (isMatch : IsMatch document changes found) :
    slice document.whole found.docStart found.docEnd = found.sourceText := by
  obtain ⟨-, inside⟩ := isMatch.bounds
  have starts : found.sourceText <+: document.whole.drop found.docStart := by
    obtain ⟨after, split⟩ := isMatch.occurs
    have room : found.selStart ≤ document.selection.length := by
      rw [isMatch.selEnd] at inside
      omega
    refine ⟨after ++ document.after, ?_⟩
    rw [isMatch.docStart, SelectedDocument.whole, ← List.drop_drop, List.drop_left,
      List.drop_append_of_le_length room, ← split, List.append_assoc]
  have docEnd : found.docEnd = found.docStart + found.sourceText.length := by
    rw [isMatch.docEnd, isMatch.docStart, isMatch.selEnd, Nat.add_assoc]
  rw [docEnd]
  exact slice_of_prefix starts

theorem IsMatch.source_normal (isMatch : IsMatch document changes found) :
    normalizeLinebreaks found.sourceText = found.sourceText := by
  obtain ⟨change, -, source, -⟩ := isMatch.change
  apply normalizeLinebreaks_eq_self
  rw [source]
  exact cr_not_mem_normalize _

section

variable (replaced : Replaced document changes used progress)
  (isMatch : IsMatch document changes found)
  (clear : ∀ next, used.head? = some next → found.selEnd ≤ next.selStart)

include replaced isMatch clear

theorem Replaced.ordered_cons :
    InOrder document.whole.length found.docEnd (used.map Match.docSplice) := by
  obtain ⟨-, inside⟩ := isMatch.bounds
  apply replaced.ordered.of_le_head
  · rw [isMatch.docEnd, length_whole]
    omega
  · intro splice first
    cases used with
    | nil => cases first
    | cons next used =>
      cases first
      have nextMatch := replaced.isMatch next (by simp)
      have bound := clear next rfl
      show found.docEnd ≤ next.docStart
      rw [isMatch.docEnd, nextMatch.docStart]
      omega

theorem Replaced.reads : readsSource progress.text found = true := by
  obtain ⟨some_text, inside⟩ := isMatch.bounds
  have shape := foldr_replaceSpan (replaced.ordered_cons isMatch clear)
  have ends : found.docEnd ≤ document.whole.length := by
    rw [isMatch.docEnd, length_whole]
    omega
  have starts : found.docStart ≤ found.docEnd := by
    rw [isMatch.docStart, isMatch.docEnd]
    omega
  have unchanged : slice progress.text found.docStart found.docEnd = found.sourceText := by
    rw [← isMatch.slice_whole, replaced.text, shape, slice, slice,
      List.drop_append_of_le_length (by rw [List.length_take]; omega),
      List.take_append_of_le_length (by rw [List.length_drop, List.length_take]; omega),
      List.drop_take, List.take_take, Nat.min_self]
  rw [readsSource, unchanged, isMatch.source_normal, decide_eq_true_iff]

end

theorem usedIn_append (details : List Detail) (found : Match) :
    usedIn (details ++ [.tried found .applied]) = found :: usedIn details ∧
      usedIn (details ++ [.tried found .textMismatch]) = usedIn details := by
  constructor <;> simp [usedIn, List.filterMap_append]

theorem Replaced.apply (replaced : Replaced document changes used progress)
    (isMatch : IsMatch document changes found)
    (clear : ∀ next, used.head? = some next → found.selEnd ≤ next.selStart) :
    Replaced document changes (found :: used) (applyMatch progress found) := by
  obtain ⟨some_text, -⟩ := isMatch.bounds
  rw [applyMatch, if_pos (replaced.reads isMatch clear)]
  refine ⟨?_, ?_, ?_, ?_, ?_⟩
  · intro other member
    rcases List.mem_cons.mp member with rfl | inUsed
    · exact isMatch
    · exact replaced.isMatch other inUsed
  · refine ⟨?_, ?_, replaced.ordered_cons isMatch clear⟩
    · show document.before.length ≤ found.docStart
      rw [isMatch.docStart]
      omega
    · show found.docStart ≤ found.docEnd
      rw [isMatch.docStart, isMatch.docEnd]
      omega
  · rw [List.map_cons, List.foldr_cons, ← replaced.text]
  · rw [replaced.applied]
    rfl
  · rw [(usedIn_append _ _).1, replaced.details]

theorem Replaced.skip (replaced : Replaced document changes used progress)
    (unreadable : readsSource progress.text found = false) :
    Replaced document changes used (applyMatch progress found) := by
  rw [applyMatch, if_neg (by simp [unreadable])]
  exact ⟨replaced.isMatch, replaced.ordered, replaced.text, replaced.applied,
    by rw [(usedIn_append _ _).2, replaced.details]⟩

theorem Replaced.text_eq (replaced : Replaced document changes used progress) :
    progress.text = applySplices document.whole 0 (used.map Match.docSplice) := by
  have fromStart : InOrder document.whole.length 0 (used.map Match.docSplice) :=
    replaced.ordered.of_le_head (Nat.zero_le _) fun _ _ => Nat.zero_le _
  rw [replaced.text, foldr_replaceSpan fromStart, List.take_zero, List.nil_append]

theorem clear_iff : (used.head?.all fun next => decide (found.selEnd ≤ next.selStart)) = true ↔
    ∀ next, used.head? = some next → found.selEnd ≤ next.selStart := by
  cases used <;> simp

theorem Replaced.foldl (replaced : Replaced document changes used progress)
    (isMatch : ∀ found ∈ rest, IsMatch document changes found)
    (apart : settled document used rest = true) :
    ∃ used', Replaced document changes used' (rest.foldl applyMatch progress) := by
  induction rest generalizing used progress with
  | nil => exact ⟨used, replaced⟩
  | cons found rest induction =>
    have later := fun other member => isMatch other (List.mem_cons_of_mem _ member)
    have here := isMatch found (by simp)
    rw [settled] at apart
    split at apart
    · rename_i clear
      exact induction (replaced.apply here (clear_iff.mp clear)) later apart
    · rw [Bool.and_eq_true, Bool.not_eq_true', ← replaced.text_eq] at apart
      exact induction (replaced.skip apart.1) later apart.2

theorem usedIn_foldl (rest : List Match) (progress : Progress) :
    ∃ more, usedIn (rest.foldl applyMatch progress).details = more ++ usedIn progress.details := by
  induction rest generalizing progress with
  | nil => exact ⟨[], rfl⟩
  | cons found rest induction =>
    obtain ⟨more, later⟩ := induction (applyMatch progress found)
    rw [List.foldl_cons, later, applyMatch]
    split
    · exact ⟨more ++ [found], by rw [(usedIn_append _ _).1]; simp⟩
    · exact ⟨more, by rw [(usedIn_append _ _).2]⟩

theorem Replaced.overlap (replaced : Replaced document changes used progress)
    (isMatch : ∀ found ∈ rest, IsMatch document changes found)
    (descending : rest.Pairwise fun a b => b.selStart ≤ a.selStart)
    (leftmost : ∀ found ∈ rest, ∀ next ∈ used, found.selStart ≤ next.selStart)
    (together : settled document used rest = false) :
    ¬(usedIn (rest.foldl applyMatch progress).details).Pairwise Match.Apart := by
  induction rest generalizing used progress with
  | nil => cases together
  | cons found rest induction =>
    have later := fun other member => isMatch other (List.mem_cons_of_mem _ member)
    have here := isMatch found (by simp)
    obtain ⟨below, descending⟩ := List.pairwise_cons.mp descending
    have leftmostLater := fun other member =>
      leftmost other (List.mem_cons_of_mem _ member)
    rw [settled] at together
    split at together
    · rename_i clear
      refine induction (replaced.apply here (clear_iff.mp clear)) later descending ?_ together
      intro other member next inUsed
      rcases List.mem_cons.mp inUsed with rfl | old
      · exact below other member
      · exact leftmostLater other member next old
    · rename_i notClear
      rw [Bool.and_eq_false_iff, ← replaced.text_eq] at together
      by_cases reads : readsSource progress.text found = true
      · intro disjoint
        obtain ⟨more, split⟩ := usedIn_foldl rest (applyMatch progress found)
        rw [List.foldl_cons, split, applyMatch, if_pos reads, (usedIn_append _ _).1,
          replaced.details] at disjoint
        have apart := (List.pairwise_cons.mp (List.pairwise_append.mp disjoint).2.1).1
        apply notClear
        rw [clear_iff]
        intro next first
        have inUsed : next ∈ used := List.mem_of_mem_head? first
        have nextBounds := (replaced.isMatch next inUsed).bounds
        have order := leftmost found (by simp) next inUsed
        rcases apart next inUsed with before | behind
        · exact before
        · omega
      · rw [Bool.not_eq_true] at reads
        refine induction (replaced.skip reads) later descending leftmostLater ?_
        exact together.resolve_left (by simp [reads])

theorem docSplices_eq (isMatch : ∀ found ∈ used, IsMatch document changes found) :
    used.map Match.docSplice = (used.map Match.selSplice).map fun splice =>
      ⟨document.before.length + splice.start, document.before.length + splice.stop,
        splice.inserted⟩ := by
  rw [List.map_map]
  apply List.map_congr_left
  intro found member
  simp [Match.docSplice, Match.selSplice, (isMatch found member).docStart,
    (isMatch found member).docEnd]

theorem inOrder_selSplices {cursor : ℕ} (isMatch : ∀ found ∈ used, IsMatch document changes found)
    (inside : cursor ≤ document.selection.length)
    (ordered : InOrder document.whole.length (document.before.length + cursor)
      (used.map Match.docSplice)) :
    InOrder document.selection.length cursor (used.map Match.selSplice) := by
  induction used generalizing cursor with
  | nil => exact inside
  | cons found used induction =>
    obtain ⟨before, -, later⟩ := ordered
    have here := isMatch found (by simp)
    obtain ⟨some_text, stop⟩ := here.bounds
    refine ⟨?_, Nat.le_of_lt some_text, ?_⟩
    · have start : document.before.length + cursor ≤ found.docStart := before
      rw [here.docStart] at start
      exact Nat.le_of_add_le_add_left start
    · apply induction (fun other member => isMatch other (List.mem_cons_of_mem _ member)) stop
      have behind : InOrder document.whole.length found.docEnd _ := later
      rwa [here.docEnd] at behind

theorem Replaced.faithful (replaced : Replaced document changes used progress) (skipped : ℕ) :
    Faithful document changes ⟨progress.text, progress.applied, skipped, progress.details⟩ := by
  have ordered := @inOrder_selSplices document changes used 0 replaced.isMatch (Nat.zero_le _)
    replaced.ordered
  refine ⟨?_, ?_, ?_, ?_⟩
  · rw [replaced.details]
    exact replaced.isMatch
  · rw [replaced.details]
    have pairwise := ordered.pairwise
    rw [List.pairwise_map] at pairwise
    exact pairwise.imp Or.inl
  · rw [replaced.details]
    exact replaced.applied
  · show progress.text = _
    rw [replaced.details, replaced.text, foldr_replaceSpan replaced.ordered,
      SelectedDocument.whole, List.take_left, docSplices_eq replaced.isMatch]
    congr 1
    exact applySplices_between ordered

end Run

/-- **Replacements are faithful just where the occurrences stay apart.** -/
theorem applyTrackedReplacements_faithful_iff (document : SelectedDocument)
    (changes : List Change) (noReturn : '\r' ∉ document.selection) :
    (∀ report, applyTrackedReplacements document changes = .ok report →
      Faithful document changes report) ↔
        settled document [] (sortedMatches document changes) = true := by
  have isMatch : ∀ found ∈ sortedMatches document changes, IsMatch document changes found :=
    fun found member => isMatch_of_mem noReturn member
  have start : Replaced document changes [] ⟨document.whole, 0, []⟩ := by
    refine ⟨?_, ?_, rfl, rfl, rfl⟩
    · intro found member
      cases member
    rw [length_whole]
    exact Nat.le_add_right _ _
  unfold applyTrackedReplacements
  by_cases selected : document.selection.isEmpty = true
  · have noMatch : sortedMatches document changes = [] := by
      rw [List.eq_nil_iff_forall_not_mem]
      intro found member
      obtain ⟨some_text, inside⟩ := (isMatch found member).bounds
      rw [List.isEmpty_iff.mp selected, List.length_nil] at inside
      omega
    rw [if_pos selected, noMatch]
    simp [settled]
  · rw [if_neg selected]
    by_cases noMatch : (sortedMatches document changes).isEmpty = true
    · rw [List.isEmpty_iff.mp noMatch]
      constructor
      · intro _
        rfl
      · intro _ report isReport
        cases isReport
        have none_used : usedIn (changes.map fun change =>
            Detail.notFound change.source change.target) = [] := by
          simp [usedIn, List.filterMap_map]
        refine ⟨?_, ?_, ?_, ?_⟩ <;>
          simp [none_used, applySplices]
    · rw [if_neg noMatch]
      constructor
      · intro faithful
        have report := faithful _ rfl
        by_contra together
        rw [Bool.not_eq_true] at together
        have descending : (sortedMatches document changes).Pairwise
            fun a b => b.selStart ≤ a.selStart := by
          have sorted := List.pairwise_insertionSort Match.NotBefore (allMatches document changes)
          refine List.Pairwise.imp_of_mem ?_ sorted
          intro a b inA inB order
          have startA := (isMatch a inA).docStart
          have startB := (isMatch b inB).docStart
          have later : b.docStart ≤ a.docStart := order
          omega
        exact start.overlap isMatch descending (fun _ _ _ member => by cases member) together
          report.disjoint
      · intro apart report isReport
        cases isReport
        obtain ⟨used, replaced⟩ := start.foldl isMatch apart
        exact replaced.faithful _

def twoWords : SelectedDocument := ⟨"In ".toList, "one or two".toList, " words".toList⟩

theorem twoWords_faithful : settled twoWords [] (sortedMatches twoWords
      [⟨"one".toList, "1".toList⟩, ⟨"two".toList, "2".toList⟩]) = true ∧
    ∀ report, applyTrackedReplacements twoWords
        [⟨"one".toList, "1".toList⟩, ⟨"two".toList, "2".toList⟩] = .ok report →
      Faithful twoWords [⟨"one".toList, "1".toList⟩, ⟨"two".toList, "2".toList⟩] report :=
  have isSettled := by decide +kernel
  ⟨isSettled, (applyTrackedReplacements_faithful_iff _ _ (by decide)).mpr isSettled⟩

/-- `b` is in both sources, and its target starts with it. -/
def sharedLetter : SelectedDocument := ⟨[], "ab".toList, []⟩

/-- The second replacement is made in the text of the first one. -/
theorem sharedLetter_not_faithful : ¬∀ report, applyTrackedReplacements sharedLetter
        [⟨"b".toList, "b2".toList⟩, ⟨"ab".toList, "Z".toList⟩] = .ok report →
      Faithful sharedLetter [⟨"b".toList, "b2".toList⟩, ⟨"ab".toList, "Z".toList⟩] report := by
  intro faithful
  have report := faithful _ rfl
  have disjoint := report.disjoint
  revert disjoint
  decide +kernel

end WriterAgent.Persian
