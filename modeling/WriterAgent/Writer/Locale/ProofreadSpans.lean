import WriterAgent.Foundations.EditScript
import WriterAgent.Foundations.TagModes
import WriterAgent.Foundations.Text

/-!
# Spans of proofreading errors

`plugin/writer/locale/grammar_proofread_text.py`: each item of a provider is
anchored in the text, its span grows over the words it shares with the
correction, and spans that collide with an earlier one are dropped.
-/

namespace WriterAgent.Locale

open PyText List

/-- An item of a provider; an offset is missing when it is no `int`. -/
structure ProofItem where
  wrong : Text
  correct : Text
  nErrorStart : Option ℤ
  nErrorLength : Option ℤ
  suggestions : Option (List Text)
  reason : Text
  type : Text
  ruleIdentifier : Text
  shortComment : Text
  fullComment : Text

structure NormalizedProofError where
  nErrorStart : ℕ
  nErrorLength : ℕ
  suggestions : List Text
  shortComment : Text
  fullComment : Text
  ruleIdentifier : Text
  deriving DecidableEq

section Texts

variable (gettext : Text → Text)

def proofreadingSuggestions (item : ProofItem) : List Text :=
  item.suggestions.getD (if item.correct = [] then [] else [item.correct])

def suggestionHint (suggestions : List Text) : Text :=
  if suggestions = [] then
    gettext "No automatic replacement is available.".toList
  else if [] ∈ suggestions then
    gettext ("Suggested fix: delete the highlighted text " ++
      "(the blank replacement below).").toList
  else if suggestions.any (·.all isSpace) then
    gettext "Suggested fix: replace with one space (the blank replacement below).".toList
  else gettext "Choose a replacement below.".toList

def buildNormalizedError (pos length : ℕ) (item : ProofItem) : NormalizedProofError :=
  let existing := strip item.ruleIdentifier
  let suggestions := proofreadingSuggestions item
  let providerShort := strip item.shortComment
  let providerFull := strip item.fullComment
  let comment := if providerShort = [] then item.reason else providerShort
  let short :=
    if comment = [] then item.type
    else strip ('(' :: item.type ++ ") ".toList ++ comment)
  let full :=
    if providerFull ≠ [] then providerFull
    else if item.reason ≠ [] then item.reason else short
  let short :=
    if providerShort ≠ [] ∨ providerFull ≠ [] then
      short ++ ' ' :: suggestionHint gettext suggestions
    else short
  { nErrorStart := pos
    nErrorLength := length
    suggestions
    shortComment := short.take 500
    fullComment := full.take 2000
    ruleIdentifier :=
      if existing ≠ [] then existing else "wa_g_rule||".toList ++ item.reason }

end Texts

/-- `str.find` from an offset on. -/
def findFrom (window wrong : Text) (offset : ℕ) : Option ℕ :=
  (findText wrong (window.drop offset)).map (· + offset)

def anchorWrongInWindow (window wrong : Text) (searchPos : ℕ) : Option ℕ :=
  if wrong = [] then none
  else match findFrom window wrong searchPos with
    | some rel => some rel
    | none => (findText wrong window).filter (searchPos ≤ ·)

def providerErrorSpan (window : Text) (item : ProofItem) : Option (ℕ × ℕ) :=
  match item.nErrorStart, item.nErrorLength with
  | some start, some length =>
    if start < 0 ∨ length ≤ 0 ∨ window.length < start + length then none
    else if item.wrong ≠ [] ∧ slice window start.toNat (start + length).toNat ≠ item.wrong then none
    else some (start.toNat, length.toNat)
  | _, _ => none

section BreakIterator

/- `getWordBoundary`, with the start and the end of the word it answers. -/
variable (wordBoundary : Text → ℕ → ℤ × ℤ)

/-- The loop of `_tokenize`, for at most `fuel` rounds. -/
def tokenizeFrom (text : Text) : ℕ → ℕ → List Text
  | 0, _ => []
  | fuel + 1, start =>
    if text.length ≤ start then []
    else
      let (startPos, endPos) := wordBoundary text start
      if endPos ≤ start then [text.drop start]
      else
        (if start < startPos then [slice text start startPos.toNat] else []) ++
          slice text startPos.toNat endPos.toNat :: tokenizeFrom text fuel endPos.toNat

def tokenize (text : Text) : List Text := tokenizeFrom wordBoundary text text.length 0

/-- The longest run of at most `k` tokens that ends `back` and starts `front`. -/
def sharedTokens (back front : List Text) : ℕ → List Text
  | 0 => []
  | k + 1 =>
    if back.drop (back.length - (k + 1)) = front.take (k + 1) then front.take (k + 1)
    else sharedTokens back front k

def sharedLength (back front : List Text) : ℕ :=
  ((sharedTokens back front (min back.length front.length)).map length).sum

def expandSpanForOverlap (pos length : ℕ) (correct fullText : Text) : ℕ × ℕ :=
  let tokens := tokenize wordBoundary correct
  let maxOverlapChars := max (correct.length * 2) 128
  let suffixWindow := slice fullText (pos + length) (pos + length + maxOverlapChars)
  let suffix := sharedLength tokens (tokenize wordBoundary suffixWindow)
  let prefixWindow := slice fullText (pos - maxOverlapChars) pos
  let overlap := sharedLength (tokenize wordBoundary prefixWindow) tokens
  (pos - overlap, length + suffix + overlap)

def isSpanOverlapping (span : ℕ × ℕ) (usedSpans : List (ℕ × ℕ)) : Bool :=
  usedSpans.any fun used => !(span.2 ≤ used.1 || used.2 ≤ span.1)

/-- The variables of the loop over the items. -/
structure NormalizeState where
  searchPos : ℕ
  usedSpans : List (ℕ × ℕ)
  results : List NormalizedProofError

variable (gettext : Text → Text) (fullText : Text) (sliceStart : ℕ) (window : Text)

/-- Steps 3 and 4 of the loop. -/
def NormalizeState.keep (state : NormalizeState) (item : ProofItem) (pos length : ℕ) :
    NormalizeState :=
  if isSpanOverlapping (pos, pos + length) state.usedSpans then state
  else
    { state with
      usedSpans := state.usedSpans ++ [(pos, pos + length)]
      results := state.results ++ [buildNormalizedError gettext pos length item] }

def normalizeItem (state : NormalizeState) (item : ProofItem) : NormalizeState :=
  match providerErrorSpan window item with
  | some (rel, length) => state.keep gettext item (sliceStart + rel) length
  | none =>
    match anchorWrongInWindow window item.wrong state.searchPos with
    | none => state
    | some rel =>
      let state := { state with searchPos := rel + 1 }
      if item.correct = [] then
        state.keep gettext item (sliceStart + rel) item.wrong.length
      else
        let (pos, length) := expandSpanForOverlap wordBoundary (sliceStart + rel)
          item.wrong.length item.correct fullText
        if slice fullText pos (pos + length) = item.correct then state
        else state.keep gettext item pos length

/-- The end of a Python slice, which counts from the back when it is negative. -/
def pySliceEnd (size : ℕ) (stop : ℤ) : ℕ :=
  if stop < 0 then (size + stop).toNat else stop.toNat

def sliceWindow (nSliceStart nSliceEnd : ℤ) : ℕ × Text :=
  let sliceEnd := min nSliceEnd fullText.length
  let sliceStart := (max 0 (min nSliceStart sliceEnd)).toNat
  (sliceStart, slice fullText sliceStart (pySliceEnd fullText.length sliceEnd))

def normalizeErrorsForText (nSliceStart nSliceEnd : ℤ) (items : List ProofItem) :
    List NormalizedProofError :=
  let (sliceStart, window) := sliceWindow fullText nSliceStart nSliceEnd
  (items.foldl (normalizeItem wordBoundary gettext fullText sliceStart window) ⟨0, [], []⟩).results

end BreakIterator

/-- The boundaries lie between the place asked about and the end. -/
def OrderedBoundaries (wordBoundary : Text → ℕ → ℤ × ℤ) : Prop :=
  ∀ text start, start < text.length → start ≤ (wordBoundary text start).1 ∧
      (wordBoundary text start).1 ≤ (wordBoundary text start).2 ∧
      (wordBoundary text start).2 ≤ text.length

/-- A span found by search has grown by a start and an end of the correction. -/
def Grown (wrong correct covered : Text) : Prop :=
  covered ≠ correct ∧ ∃ before after, before <+: correct ∧ after <:+ correct ∧
      covered = before ++ (wrong ++ after)

/-- What a span covers of the text is what its item asks for. -/
def Explains (fullText window : Text) (item : ProofItem) (pos length : ℕ) : Prop :=
  match providerErrorSpan window item with
  | some _ => item.wrong ≠ [] → slice fullText pos (pos + length) = item.wrong
  | none => Grown item.wrong item.correct (slice fullText pos (pos + length))

structure Placed (fullText window : Text) (items : List ProofItem)
    (results : List NormalizedProofError) : Prop where
  inside : ∀ err ∈ results,
    0 < err.nErrorLength ∧ err.nErrorStart + err.nErrorLength ≤ fullText.length
  apart : results.Pairwise fun a b =>
    b.nErrorStart + b.nErrorLength ≤ a.nErrorStart ∨ a.nErrorStart + a.nErrorLength ≤ b.nErrorStart
  explained : ∀ err ∈ results, ∃ item ∈ items,
    Explains fullText window item err.nErrorStart err.nErrorLength

variable {wordBoundary : Text → ℕ → ℤ × ℤ} {gettext : Text → Text}
  {fullText window wrong correct : Text} {sliceStart pos length : ℕ}
  {item : ProofItem} {items : List ProofItem} {state : NormalizeState}

theorem tokenizeFrom_flatten (ordered : OrderedBoundaries wordBoundary) (text : Text)
    (fuel start : ℕ) (enough : text.length ≤ start + fuel) :
    (tokenizeFrom wordBoundary text fuel start).flatten = text.drop start := by
  induction fuel generalizing start with
  | zero => exact (drop_eq_nil_of_le enough).symm
  | succ fuel ih =>
    unfold tokenizeFrom
    split
    · next ended => exact (drop_eq_nil_of_le ended).symm
    · next inside =>
      obtain ⟨forward, nonneg, bound⟩ := ordered text start (by omega)
      generalize wordBoundary text start = boundary at forward nonneg bound ⊢
      obtain ⟨startPos, endPos⟩ := boundary
      dsimp only at forward nonneg bound ⊢
      split
      · exact append_nil _
      · next progress =>
        have skipped : (if start < startPos then [slice text start startPos.toNat]
            else []).flatten = slice text start startPos.toNat := by
          split
          · exact append_nil _
          · have here : startPos.toNat = start := by omega
            rw [here, slice_self, flatten_nil]
        rw [flatten_append, skipped, flatten_cons, ih endPos.toNat (by omega),
          slice_append_drop (by omega), slice_append_drop (by omega)]

theorem tokenize_flatten (ordered : OrderedBoundaries wordBoundary) (text : Text) :
    (tokenize wordBoundary text).flatten = text :=
  tokenizeFrom_flatten ordered text _ 0 (Nat.le_add_left _ _)

theorem sharedTokens_eq (back front : List Text) (k : ℕ) :
    ∃ j, sharedTokens back front k = front.take j ∧
      sharedTokens back front k = back.drop (back.length - j) := by
  induction k with
  | zero => exact ⟨0, rfl, (drop_eq_nil_of_le le_rfl).symm⟩
  | succ k ih =>
    unfold sharedTokens
    split
    · next same => exact ⟨k + 1, rfl, same.symm⟩
    · exact ih

theorem sharedLength_eq (back front : List Text) :
    ∃ shared : Text, sharedLength back front = shared.length ∧
      shared <+: front.flatten ∧ shared <:+ back.flatten := by
  obtain ⟨j, inFront, inBack⟩ := sharedTokens_eq back front (min back.length front.length)
  refine ⟨_, length_flatten.symm, ?_, ?_⟩
  · rw [inFront]
    exact ( take_prefix j front).flatten
  · rw [inBack]
    exact (drop_suffix _ back).flatten

/-- **Growing a span.** What is added before and behind comes from the text and
from the correction. -/
theorem expandSpanForOverlap_spec (ordered : OrderedBoundaries wordBoundary)
    (anchored : wrong <+: fullText.drop pos) (inText : pos ≤ fullText.length) :
    ∃ before after, before <+: correct ∧ after <:+ correct ∧
      (expandSpanForOverlap wordBoundary pos wrong.length correct fullText).2 =
        (before ++ (wrong ++ after)).length ∧
      before ++ (wrong ++ after) <+: fullText.drop
        (expandSpanForOverlap wordBoundary pos wrong.length correct fullText).1 := by
  unfold expandSpanForOverlap
  dsimp only
  obtain ⟨after, afterLength, afterText, afterCorrect⟩ := sharedLength_eq
    (tokenize wordBoundary correct) (tokenize wordBoundary (slice fullText
      (pos + wrong.length) (pos + wrong.length + max (correct.length * 2) 128)))
  obtain ⟨before, beforeLength, beforeCorrect, beforeText⟩ := sharedLength_eq
    (tokenize wordBoundary (slice fullText (pos - max (correct.length * 2) 128) pos))
    (tokenize wordBoundary correct)
  rw [tokenize_flatten ordered] at afterText afterCorrect beforeText beforeCorrect
  refine ⟨before, after, beforeCorrect, afterCorrect, ?_, ?_⟩
  · rw [afterLength, beforeLength, length_append, length_append]
    omega
  · obtain ⟨rest, wrongHere⟩ := anchored
    have behind : after <+: rest := by
      have there : fullText.drop (pos + wrong.length) = rest := by
        rw [← drop_drop, ← wrongHere, drop_left]
      rw [← there]
      exact afterText.trans ( take_prefix _ _)
    have ahead : before <:+ fullText.take pos := by
      rw [← take_append_slice (Nat.sub_le pos (max (correct.length * 2) 128))]
      exact beforeText.trans (suffix_append _ _)
    obtain ⟨front, cut⟩ := ahead
    have width := congrArg List.length cut
    rw [length_append, length_take, Nat.min_eq_left inText] at width
    have place : pos - before.length = front.length := by omega
    rw [beforeLength, place, ← take_append_drop pos fullText, ← cut, append_assoc, drop_left,
      ← wrongHere]
    exact (prefix_append_right_inj _).mpr ((prefix_append_right_inj _).mpr behind)

theorem anchorWrongInWindow_spec {searchPos rel : ℕ}
    (found : anchorWrongInWindow window wrong searchPos = some rel) :
    wrong ≠ [] ∧ wrong <+: window.drop rel := by
  unfold anchorWrongInWindow at found
  split at found
  · cases found
  · next present =>
    refine ⟨present, ?_⟩
    split at found
    · next here =>
      cases found
      obtain ⟨place, inRest, rfl⟩ := Option.map_eq_some_iff.mp here
      rw [Nat.add_comm, ← drop_drop]
      exact (findText_eq_some inRest).1
    · exact (findText_eq_some (Option.filter_eq_some_iff.mp found).1).1

theorem providerErrorSpan_spec {rel : ℕ}
    (native : providerErrorSpan window item = some (rel, length)) :
    0 < length ∧ rel + length ≤ window.length ∧
      (item.wrong ≠ [] → slice window rel (rel + length) = item.wrong) := by
  unfold providerErrorSpan at native
  split at native
  · next start size _ _ =>
    split_ifs at native with outside differs
    cases native
    have sum : (start + size).toNat = start.toNat + size.toNat := by omega
    rw [sum] at differs
    exact ⟨by omega, by omega, fun named => by_contra fun other => differs ⟨named, other⟩⟩
  · cases native

structure WindowAt (fullText : Text) (sliceStart : ℕ) (window : Text) : Prop where
  starts : window <+: fullText.drop sliceStart
  inText : sliceStart ≤ fullText.length

theorem sliceWindow_at (nSliceStart nSliceEnd : ℤ) :
    WindowAt fullText (sliceWindow fullText nSliceStart nSliceEnd).1
      (sliceWindow fullText nSliceStart nSliceEnd).2 := by
  refine ⟨ take_prefix _ _, ?_⟩
  unfold sliceWindow
  dsimp only
  omega

theorem WindowAt.drop (at_ : WindowAt fullText sliceStart window) (rel : ℕ) :
    window.drop rel <+: fullText.drop (sliceStart + rel) := by
  rw [← drop_drop]
  exact at_.starts.drop rel

namespace NormalizeState

/-- The used spans are those of the results, which are in place. -/
structure Sound (fullText window : Text) (items : List ProofItem)
    (state : NormalizeState) : Prop where
  used : state.usedSpans =
    state.results.map fun err => (err.nErrorStart, err.nErrorStart + err.nErrorLength)
  placed : Placed fullText window items state.results

theorem Sound.more (sound : state.Sound fullText window items) (item : ProofItem) :
    state.Sound fullText window (items ++ [item]) := by
  obtain ⟨used, inside, apart, explained⟩ := sound
  refine ⟨used, inside, apart, fun err mem => ?_⟩
  obtain ⟨source, among, why⟩ := explained err mem
  exact ⟨source, mem_append_left _ among, why⟩

theorem Sound.keep (sound : state.Sound fullText window items) (positive : 0 < length)
    (bound : pos + length ≤ fullText.length) (why : Explains fullText window item pos length) :
    (state.keep gettext item pos length).Sound fullText window (items ++ [item]) := by
  obtain ⟨used, inside, apart, explained⟩ := sound.more item
  unfold NormalizeState.keep
  split
  · exact ⟨used, inside, apart, explained⟩
  · next free =>
    refine ⟨?_, ?_, ?_, ?_⟩
    · rw [map_append, ← used]
      rfl
    · intro err mem
      rcases mem_append.mp mem with old | new
      · exact inside err old
      · rw [mem_singleton.mp new]
        exact ⟨positive, bound⟩
    · refine pairwise_append.mpr ⟨apart, pairwise_singleton _ _, fun err old new mem => ?_⟩
      rw [mem_singleton.mp mem]
      have among : (err.nErrorStart, err.nErrorStart + err.nErrorLength) ∈ state.usedSpans := by
        rw [used]
        exact mem_map_of_mem old
      by_contra crossing
      have shared : ¬(pos + length ≤ err.nErrorStart ∨
          err.nErrorStart + err.nErrorLength ≤ pos) := crossing
      exact free (any_eq_true.mpr ⟨_, among, by simpa using shared⟩)
    · intro err mem
      rcases mem_append.mp mem with old | new
      · exact explained err old
      · rw [mem_singleton.mp new]
        exact ⟨item, mem_append_right _ (mem_singleton_self _), why⟩

end NormalizeState

theorem normalizeItem_sound (ordered : OrderedBoundaries wordBoundary)
    (at_ : WindowAt fullText sliceStart window)
    (sound : state.Sound fullText window items) (item : ProofItem) :
    (normalizeItem wordBoundary gettext fullText sliceStart window state item).Sound
      fullText window (items ++ [item]) := by
  have fits := at_.starts.length_le
  rw [length_drop] at fits
  have start := at_.inText
  unfold normalizeItem
  split
  · next rel length native =>
    obtain ⟨positive, bound, exact⟩ := providerErrorSpan_spec native
    refine sound.keep positive (by omega) ?_
    rw [Explains, native]
    intro named
    have here := at_.drop rel
    have piece : item.wrong <+: fullText.drop (sliceStart + rel) := by
      rw [← exact named]
      exact ( take_prefix _ _).trans here
    have size := length_slice (s := window) rel bound
    rw [exact named, Nat.add_sub_cancel_left] at size
    rw [← size]
    exact slice_of_prefix piece
  · next searched =>
    split
    · exact sound.more item
    · next rel found =>
      obtain ⟨present, here⟩ := anchorWrongInWindow_spec found
      have anchored := here.trans (at_.drop rel)
      have nonempty := length_pos_iff.mpr present
      have moved : NormalizeState.Sound fullText window items
          { state with searchPos := rel + 1 } := ⟨sound.used, sound.placed⟩
      have explains : ∀ {pos : ℕ} {before after : Text}, before <+: item.correct →
          after <:+ item.correct → before ++ (item.wrong ++ after) <+: fullText.drop pos →
            before ++ (item.wrong ++ after) ≠ item.correct →
              (NormalizeState.keep gettext { state with searchPos := rel + 1 } item pos
                (before ++ (item.wrong ++ after)).length).Sound fullText window
                  (items ++ [item]) := by
        intro pos before after first last there differs
        have room := there.length_le
        rw [length_drop, length_append, length_append] at room
        refine moved.keep (by rw [length_append, length_append]; omega)
          (by rw [length_append, length_append]; omega) ?_
        rw [Explains, searched, slice_of_prefix there]
        exact ⟨differs, before, after, first, last, rfl⟩
      dsimp only
      split
      · next empty =>
        have plain := @explains (sliceStart + rel) [] [] nil_prefix nil_suffix
        rw [nil_append, append_nil, empty] at plain
        exact plain anchored present
      · have inWindow : rel ≤ window.length := by
          have room := here.length_le
          rw [length_drop] at room
          omega
        obtain ⟨before, after, first, last, size, there⟩ :=
          @expandSpanForOverlap_spec wordBoundary fullText item.wrong item.correct
            (sliceStart + rel) ordered anchored (by omega)
        split
        · exact moved.more item
        · next differs =>
          rw [size] at differs ⊢
          rw [ slice_of_prefix there] at differs
          exact explains first last there differs

def searchedItem (wrong correct : Text) : ProofItem :=
  ⟨wrong, correct, none, none, none, [], [], [], [], []⟩

/-- A word that starts behind its end makes tokens that are no text together. -/
def backwardsBoundary (text : Text) (start : ℕ) : ℤ × ℤ :=
  if start = 0 ∧ 2 ≤ text.length then (2, 1) else (start, min (start + 1) text.length)

end WriterAgent.Locale
