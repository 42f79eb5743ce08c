import WriterAgent.Foundations.EditScript
import WriterAgent.Foundations.Text

/-!
# Splitting a text into sentences

`plugin/writer/locale/grammar_proofread_text.py`: a break iterator proposes the
ends of sentences, and may answer anything.  The pieces still tile the text.
-/

namespace WriterAgent.Locale

open PyText List

/-- The tables of Unicode and of CLDR that the abbreviation heuristics read. -/
structure AbbrevTables where
  isDigit : Char → Bool
  isAlpha : Char → Bool
  lower : Text → Text
  commonAbbreviations : Text → Bool

def abbrevVowels : Text :=
  "aeiouyаеёиоуыэюяαεηιουω".toList

/-- `str.isalpha`. -/
def AbbrevTables.isAlphaText (tables : AbbrevTables) (word : Text) : Bool :=
  !word.isEmpty && word.all tables.isAlpha

def wordBeforePeriodIsAbbrev (tables : AbbrevTables) (word : Text) : ℕ :=
  if word.isEmpty then 0
  else if word.all (fun c => tables.isDigit c || ['.', ',', '-'].contains c) &&
      word.any tables.isDigit then 1
  else
    let norm := rstripBy (· == '.') (tables.lower word)
    if norm.length == 1 && tables.isAlphaText norm then word.length
    else if tables.commonAbbreviations norm then word.length
    else if norm.contains '.' && 2 ≤ (norm.filter tables.isAlpha).length then
      word.length
    else if tables.isAlphaText norm && !norm.any abbrevVowels.contains then
      word.length
    else 0

def extendThroughTrailingWhitespace (text : Text) (endPos : ℕ) : ℕ :=
  endPos + ((text.drop endPos).takeWhile isSpace).length

/-- Cursors `i`, `j` and `k`: where the break iterator is asked again when the
sentence from `pos` to `endPos` ends in an abbreviation. -/
def abbrevRestart? (tables : AbbrevTables) (text : Text) (pos endPos : ℕ) : Option ℕ :=
  let sentence := rstripBy isSpace (slice text pos endPos)
  let word := sentence.dropLast.rtakeWhile fun c => !isSpace c && !(['.', '!', '?'].contains c)
  if sentence.getLast? = some '.' ∧ 0 < wordBeforePeriodIsAbbrev tables word then
    some (extendThroughTrailingWhitespace text (pos + sentence.length))
  else none

section BreakIterator

/- A break iterator may answer by a state of its own. -/
variable {σ : Type} (endOfSentence : σ → Text → ℕ → ℤ × σ) (tables : AbbrevTables) (text : Text)

/-- The abbreviation loop, for at most `fuel` rounds. -/
def extendAbbrevs (pos : ℕ) : ℕ → ℕ → σ → Option (ℕ × σ)
  | 0, _, _ => none
  | fuel + 1, endPos, state =>
    if text.length ≤ endPos then some (endPos, state)
    else match abbrevRestart? tables text pos endPos with
      | none => some (endPos, state)
      | some k =>
        let (newEnd, state) := endOfSentence state text k
        if newEnd ≤ endPos then some (text.length, state)
        else extendAbbrevs pos fuel newEnd.toNat state

/-- The outer loop, for at most `fuel` rounds, each of at most `inner`. -/
def sentenceLoop (inner : ℕ) : ℕ → ℕ → σ → Option (List (ℕ × Text))
  | 0, _, _ => none
  | fuel + 1, pos, state =>
    if text.length ≤ pos then some []
    else
      let (endPos, state) := endOfSentence state text pos
      let endPos := if endPos ≤ pos then text.length else endPos.toNat
      match extendAbbrevs endOfSentence tables text pos inner endPos state with
      | none => none
      | some (endPos, state) =>
        let wsEnd := extendThroughTrailingWhitespace text endPos
        (sentenceLoop inner fuel wsEnd state).map ((pos, slice text pos wsEnd) :: ·)

end BreakIterator

/-- The matches of `\s+`, the open one starting at `opened`. -/
def whitespaceRuns : ℕ → Option ℕ → Text → List (ℕ × ℕ)
  | at_, opened, [] => (opened.map (·, at_)).toList
  | at_, some start, c :: rest =>
    if isSpace c then whitespaceRuns (at_ + 1) (some start) rest
    else (start, at_) :: whitespaceRuns (at_ + 1) none rest
  | at_, none, c :: rest => whitespaceRuns (at_ + 1) (if isSpace c then some at_ else none) rest

/-- The loop of `split_sentence_chunks_by_separator_regex` over the matches. -/
def chunkLoop (text : Text) : ℕ → List (ℕ × ℕ) → List (ℕ × Text)
  | last, [] => if text.drop last = [] then [] else [(last, text.drop last)]
  | last, (start, stop) :: later =>
    let seg := slice text last start
    if seg = [] then chunkLoop text stop later
    else (last, seg ++ slice text start stop) :: chunkLoop text stop later

/-- `result or [(0, text)]`. -/
def orWhole (text : Text) (pieces : List (ℕ × Text)) : List (ℕ × Text) :=
  if pieces.isEmpty then [(0, text)] else pieces

def isWhitespaceSentenceLocale (localeKey : Text) : Bool :=
  ["th", "lo", "km"].any fun start => start.toList.isPrefixOf localeKey

def splitIntoSentences {σ : Type} (endOfSentence : σ → Text → ℕ → ℤ × σ)
    (tables : AbbrevTables) (rounds : ℕ) (state : σ) (localeKey text : Text) :
    Option (List (ℕ × Text)) :=
  if strip text = [] then some []
  else if isWhitespaceSentenceLocale localeKey then
    some (orWhole text (chunkLoop text 0 (whitespaceRuns 0 none text)))
  else
    (sentenceLoop endOfSentence tables text rounds rounds 0 state).map (orWhole text)

def dialogueQuotes : Text :=
  ['"', '\u201c', '\u201d', '\u201e', '\u00ab', '\u00bb', '\u300c', '\u300d', '\u300e', '\u300f']

def countDialogueQuotes (text : Text) : ℕ := text.countP dialogueQuotes.contains

/-- The loop of `merge_dialogue_sentences`. -/
def mergeLoop (maxMergeChars maxConsecutiveMerges : ℤ) :
    ℕ × Text → ℕ → List (ℕ × Text) → List (ℕ × Text)
  | current, _, [] => [current]
  | current, merges, next :: rest =>
    if countDialogueQuotes current.2 % 2 ≠ 0 ∧
        (current.2.length + next.2.length : ℤ) ≤ maxMergeChars ∧
        (merges : ℤ) < maxConsecutiveMerges then
      mergeLoop maxMergeChars maxConsecutiveMerges
        (current.1, current.2 ++ next.2) (merges + 1) rest
    else current :: mergeLoop maxMergeChars maxConsecutiveMerges next 0 rest

def mergeDialogueSentences (maxMergeChars maxConsecutiveMerges : ℤ) :
    List (ℕ × Text) → List (ℕ × Text)
  | [] => []
  | current :: rest => mergeLoop maxMergeChars maxConsecutiveMerges current 0 rest

/-- The pieces read the text from a place to its end, one behind another. -/
def Tiles (text : Text) : ℕ → List (ℕ × Text) → Prop
  | place, [] => place = text.length
  | place, piece :: rest =>
    piece.1 = place ∧ slice text place (place + piece.2.length) = piece.2 ∧
      Tiles text (place + piece.2.length) rest

variable {text : Text} {place start stop pos : ℕ} {rest : List (ℕ × Text)}

/-- A stretch to a place in the text or beyond it is a piece. -/
theorem tiles_slice (inside : start ≤ stop) (within : start ≤ text.length)
    (tiled : Tiles text (min stop text.length) rest) :
    Tiles text start ((start, slice text start stop) :: rest) := by
  have reached : start + (slice text start stop).length = min stop text.length := by
    rw [slice, length_take, length_drop]
    omega
  refine ⟨rfl, slice_of_prefix ( take_prefix _ _), ?_⟩
  rw [reached]
  exact tiled

theorem tiles_merge {first next : ℕ × Text} (tiled : Tiles text place (first :: next :: rest)) :
    Tiles text place ((first.1, first.2 ++ next.2) :: rest) := by
  obtain ⟨at_, reads, -, reads', tiled⟩ := tiled
  refine ⟨at_, ?_, ?_⟩
  · rw [length_append, ← slice_append_slice (Nat.le_add_right _ _)
      (Nat.add_le_add_left (Nat.le_add_right _ _) _), reads, ← Nat.add_assoc, reads']
  · rw [length_append, ← Nat.add_assoc]
    exact tiled

theorem tiles_mergeLoop (maxMergeChars maxConsecutiveMerges : ℤ) {current : ℕ × Text}
    (merges : ℕ) (tiled : Tiles text place (current :: rest)) :
    Tiles text place (mergeLoop maxMergeChars maxConsecutiveMerges current merges rest) := by
  induction rest generalizing current merges place with
  | nil => exact tiled
  | cons next rest ih =>
    rw [mergeLoop]
    split_ifs
    · exact ih _ (tiles_merge tiled)
    · exact ⟨tiled.1, tiled.2.1, ih 0 tiled.2.2⟩

/-- Matches of a separator with something before each of them. -/
def Apart (length : ℕ) : ℕ → List (ℕ × ℕ) → Prop
  | last, [] => last ≤ length
  | last, (start, stop) :: later =>
    last < start ∧ start ≤ stop ∧ stop ≤ length ∧ Apart length stop later

theorem tiles_chunkLoop {runs : List (ℕ × ℕ)} (apart : Apart text.length place runs) :
    Tiles text place (chunkLoop text place runs) := by
  induction runs generalizing place with
  | nil =>
    have within : place ≤ text.length := apart
    rw [chunkLoop]
    split_ifs with done
    · exact le_antisymm within (drop_eq_nil_iff.mp done)
    · rw [← slice_to_end]
      exact tiles_slice within within (min_self text.length)
  | cons run later ih =>
    obtain ⟨start, stop⟩ := run
    obtain ⟨before, inside, within, apart⟩ := apart
    have some_seg : slice text place start ≠ [] := by
      intro none
      have := length_slice place (inside.trans within)
      rw [none, length_nil] at this
      omega
    rw [chunkLoop, if_neg some_seg, slice_append_slice before.le inside]
    apply tiles_slice (before.le.trans inside) (by omega)
    rw [min_eq_left within]
    exact ih apart

theorem apart_whitespaceRuns {last at_ : ℕ} {opened : Option ℕ} {rest : Text}
    (measured : text.length = at_ + rest.length) (behind : last < at_)
    (started : ∀ start ∈ opened, last < start ∧ start ≤ at_) :
    Apart text.length last (whitespaceRuns at_ opened rest) := by
  induction rest generalizing last at_ opened with
  | nil =>
    rw [length_nil] at measured
    cases opened with
    | none => exact (behind.trans_le measured.ge).le
    | some start =>
      obtain ⟨before, inside⟩ := started start rfl
      exact ⟨before, inside, measured.ge, measured.ge⟩
  | cons c rest ih =>
    rw [length_cons] at measured
    have measured : text.length = at_ + 1 + rest.length := by omega
    cases opened with
    | none =>
      apply ih measured (by omega)
      intro start opens
      split_ifs at opens with space
      · cases opens
        omega
      · cases opens
    | some start =>
      obtain ⟨before, inside⟩ := started start rfl
      rw [whitespaceRuns]
      split_ifs with space
      · exact ih measured (by omega) (by rintro _ ⟨⟩; omega)
      · exact ⟨before, inside, by omega, ih measured (by omega) nofun⟩

theorem whitespaceRuns_some {at_ : ℕ} (start : ℕ) {rest : Text}
    (measured : text.length = at_ + rest.length) :
    ∃ later, whitespaceRuns at_ (some start) rest =
        (start, at_ + (rest.takeWhile isSpace).length) :: later ∧
      Apart text.length (at_ + (rest.takeWhile isSpace).length) later := by
  induction rest generalizing at_ with
  | nil => exact ⟨[], rfl, measured.ge⟩
  | cons c rest ih =>
    rw [length_cons] at measured
    have measured : text.length = at_ + 1 + rest.length := by omega
    rw [whitespaceRuns]
    split_ifs with space
    · obtain ⟨later, runs, apart⟩ := ih measured
      have shift : at_ + ((c :: rest).takeWhile isSpace).length =
          at_ + 1 + (rest.takeWhile isSpace).length := by
        rw [takeWhile_cons_of_pos space, length_cons]
        omega
      rw [shift]
      exact ⟨later, runs, apart⟩
    · rw [takeWhile_cons_of_neg space]
      exact ⟨_, rfl, apart_whitespaceRuns measured (Nat.lt_succ_self _) nofun⟩

/-- White space at the start of the text is in no piece. -/
theorem tiles_whitespaceChunks (text : Text) : Tiles text (text.takeWhile isSpace).length
      (chunkLoop text 0 (whitespaceRuns 0 none text)) := by
  cases text with
  | nil => rfl
  | cons c rest =>
    have measured : (c :: rest).length = 0 + 1 + rest.length := by
      rw [length_cons]
      omega
    rw [whitespaceRuns]
    split_ifs with space
    · obtain ⟨later, runs, apart⟩ := whitespaceRuns_some 0 measured
      rw [takeWhile_cons_of_pos space, length_cons, runs, chunkLoop, slice_self,
        if_pos rfl, Nat.add_comm _ 1]
      exact tiles_chunkLoop apart
    · rw [takeWhile_cons_of_neg space]
      exact tiles_chunkLoop (apart_whitespaceRuns measured Nat.one_pos nofun)

theorem orWhole_of_tiles {pieces : List (ℕ × Text)} (inside : place < text.length)
    (tiled : Tiles text place pieces) : orWhole text pieces = pieces := by
  cases pieces with
  | nil => exact absurd tiled inside.ne
  | cons piece pieces => rfl

theorem le_extendThroughTrailingWhitespace (text : Text) (endPos : ℕ) :
    endPos ≤ extendThroughTrailingWhitespace text endPos :=
  Nat.le_add_right _ _

section Oracle

variable {σ : Type} (endOfSentence : σ → Text → ℕ → ℤ × σ) (tables : AbbrevTables)

theorem extendAbbrevs_spec (text : Text) {pos : ℕ} (unread : pos < text.length)
    (fuel endPos : ℕ) (state : σ) (after : pos < endPos)
    (enough : text.length < fuel + endPos) (some_fuel : 0 < fuel) :
    ∃ stop final, extendAbbrevs endOfSentence tables text pos fuel endPos state =
      some (stop, final) ∧ pos < stop := by
  induction fuel generalizing endPos state with
  | zero => exact absurd some_fuel (lt_irrefl 0)
  | succ fuel ih =>
    rw [extendAbbrevs]
    split_ifs with past
    · exact ⟨endPos, state, rfl, after⟩
    · cases abbrevRestart? tables text pos endPos with
      | none => exact ⟨endPos, state, rfl, after⟩
      | some k =>
        dsimp only
        cases endOfSentence state text k with
        | mk newEnd next =>
          dsimp only
          split_ifs with stuck
          · exact ⟨text.length, next, rfl, unread⟩
          · -- the answer is behind the end it is to replace
            exact ih newEnd.toNat next (by omega) (by omega) (by omega)

theorem sentenceLoop_spec (text : Text) {inner : ℕ} (rounds : text.length < inner)
    (fuel pos : ℕ) (state : σ) (enough : text.length < fuel + pos) (some_fuel : 0 < fuel) :
    ∃ pieces, sentenceLoop endOfSentence tables text inner fuel pos state = some pieces ∧
      Tiles text (min pos text.length) pieces := by
  induction fuel generalizing pos state with
  | zero => exact absurd some_fuel (lt_irrefl 0)
  | succ fuel ih =>
    rw [sentenceLoop]
    split_ifs with past
    · exact ⟨[], rfl, min_eq_right past⟩
    · have unread := not_le.mp past
      obtain ⟨answer, asked⟩ := endOfSentence state text pos
      dsimp only
      obtain ⟨stop, next, ran, after⟩ := extendAbbrevs_spec endOfSentence tables text
        unread inner (if answer ≤ pos then text.length else answer.toNat) asked
        (by split_ifs <;> omega) (by omega) (by omega)
      rw [ran]
      have reached := after.trans_le (le_extendThroughTrailingWhitespace text stop)
      obtain ⟨pieces, looped, tiled⟩ :=
        ih (extendThroughTrailingWhitespace text stop) next (by omega) (by omega)
      dsimp only
      rw [looped, min_eq_left unread.le]
      exact ⟨_, rfl, tiles_slice reached.le unread.le tiled⟩

def firstStart (localeKey text : Text) : ℕ :=
  if isWhitespaceSentenceLocale localeKey then (text.takeWhile isSpace).length else 0

/-- **Splitting into sentences.** Whatever the break iterator answers, the loops
end, and the pieces tile the text, also when dialogues are merged. -/
theorem splitIntoSentences_tiles (rounds : ℕ) (state : σ) (localeKey text : Text)
    (nonblank : ∃ c ∈ text, isSpace c = false) (enough : text.length < rounds)
    (maxMergeChars maxConsecutiveMerges : ℤ) :
    ∃ pieces, splitIntoSentences endOfSentence tables rounds state localeKey text =
        some pieces ∧ pieces ≠ [] ∧ Tiles text (firstStart localeKey text) pieces ∧
      Tiles text (firstStart localeKey text)
        (mergeDialogueSentences maxMergeChars maxConsecutiveMerges pieces) := by
  obtain ⟨c, member, visible⟩ := nonblank
  have inside : (text.takeWhile isSpace).length < text.length := by
    refine lt_of_le_of_ne ( takeWhile_prefix _).length_le fun whole => ?_
    rw [← ( takeWhile_prefix isSpace).eq_of_length whole] at member
    exact ne_true_of_eq_false visible (mem_takeWhile_imp member)
  have notBlank : strip text ≠ [] := by
    intro blank
    have all := rdropWhile_eq_nil_iff.mp blank
    rw [← takeWhile_append_dropWhile (p := isSpace) (l := text), mem_append] at member
    exact ne_true_of_eq_false visible (member.elim mem_takeWhile_imp (all c))
  have first : firstStart localeKey text < text.length := by
    rw [firstStart]
    split_ifs <;> omega
  obtain ⟨pieces, split, tiled⟩ : ∃ pieces,
      splitIntoSentences endOfSentence tables rounds state localeKey text = some pieces ∧
        Tiles text (firstStart localeKey text) pieces := by
    rw [splitIntoSentences, if_neg notBlank]
    rw [firstStart] at first ⊢
    split_ifs at first ⊢ with whitespace
    · exact ⟨_, congrArg some (orWhole_of_tiles first (tiles_whitespaceChunks text)),
        tiles_whitespaceChunks text⟩
    · obtain ⟨pieces, looped, tiled⟩ := sentenceLoop_spec endOfSentence tables text enough
        rounds 0 state enough (by omega)
      rw [Nat.zero_min] at tiled
      rw [looped]
      exact ⟨pieces, congrArg some (orWhole_of_tiles first tiled), tiled⟩
  cases pieces with
  | nil => exact absurd tiled first.ne
  | cons current rest => exact ⟨_, split, cons_ne_nil _ _, tiled, tiles_mergeLoop _ _ 0 tiled⟩

end Oracle

/-- An iterator that stops behind every period, also when it is asked again. -/
theorem splitIntoSentences_tiles_of_stuck :
    let tables : AbbrevTables :=
      ⟨isAsciiDigit, isAsciiLetter, map Char.toLower, (· == "dr".toList)⟩
    let text := "Dr. No".toList
    ∃ pieces, splitIntoSentences (fun s _ _ => (4, s)) tables 7 () "en".toList text =
        some pieces ∧ pieces ≠ [] ∧ Tiles text (firstStart "en".toList text) pieces ∧
      Tiles text (firstStart "en".toList text) (mergeDialogueSentences 1000 4 pieces) :=
  splitIntoSentences_tiles (fun s _ _ => (4, s)) _ 7 () _ _ ⟨'D', by decide, by decide⟩
    (by decide) 1000 4

end WriterAgent.Locale
