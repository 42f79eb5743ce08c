import WriterAgent.Foundations.Text

/-!
# Cell addresses

Column letters, sheet prefixes and A1 references, as the address helpers of
the Calc plugin read and write them.
-/

namespace WriterAgent.Calc

open PyText List

/-- A zero-based `(column, row)` position on one sheet. -/
abbrev Position := Nat × Nat

/-- The digits of a column name, least significant last.  The fuel bounds the
number of letters; a column index never needs more letters than its value. -/
def indexToColumnLoop : Nat → Nat → Text → Text
  | 0, _, letters => letters
  | fuel + 1, index, letters =>
    if index = 0 then letters
    else
      indexToColumnLoop fuel ((index - 1) / 26)
        (Char.ofNat ('A'.toNat + (index - 1) % 26) :: letters)

def indexToColumn (index : Nat) : Text :=
  indexToColumnLoop (index + 1) (index + 1) []

def columnToIndex (col : Text) : Nat :=
  (upper col).foldl (fun result c => result * 26 + (c.toNat - 'A'.toNat + 1)) 0 - 1

def formatAddress (col row : Nat) : Text :=
  indexToColumn col ++ (toString (row + 1)).toList

/-- The tail `\s*(.+)$` of the sheet-prefix pattern: after optional white
space, at least one character and no line break, except one that ends the
text. -/
def prefixRestMatches (rest : Text) : Bool :=
  let body := if rest.getLast? == some '\n' then rest.dropLast else rest
  let line := body.rtakeWhile (· != '\n')
  !line.isEmpty && (body.rdropWhile (· != '\n')).all isSpace

def isSheetSeparator (c : Char) : Bool := c == '.' || c == '!'

/-- `(sheet_name, address)`; `(none, ref)` when no sheet is named. -/
def splitSheetPrefix (ref : Text) : Option Text × Text :=
  match ref.dropWhile isSpace with
  | '\'' :: quoted =>
    let name := quoted.takeWhile (· != '\'')
    match ((quoted.dropWhile (· != '\'')).drop 1).dropWhile isSpace with
    | c :: rest =>
      if isSheetSeparator c && !name.isEmpty && prefixRestMatches rest then
        (some (strip name), strip rest)
      else (none, strip ref)
    | [] => (none, strip ref)
  | bare =>
    let name := bare.takeWhile fun c => !isSheetSeparator c && c != '\''
    match bare.dropWhile (fun c => !isSheetSeparator c && c != '\'') with
    | c :: rest =>
      if isSheetSeparator c && !name.isEmpty && prefixRestMatches rest then
        (some (strip name), strip rest)
      else (none, strip ref)
    | [] => (none, strip ref)

/-- One leading `([A-Z]+)([0-9]+)`: the position it names, with its row still
one-based, and what follows it. -/
def takeA1 (s : Text) : Option (Position × Text) :=
  let letters := s.takeWhile isAsciiUpper
  let after := s.dropWhile isAsciiUpper
  let digits := after.takeWhile isAsciiDigit
  if letters.isEmpty || digits.isEmpty then none
  else some ((columnToIndex letters, digitsValue digits), after.dropWhile isAsciiDigit)

/-- `parse_address`; `none` where the source raises `ValueError`. -/
def parseAddress (address : Text) : Option Position :=
  match splitSheetPrefix address with
  | (some _, _) => none
  | (none, rest) =>
    match takeA1 (upper (strip rest)) with
    | some ((col, row), []) => if row < 1 then none else some (col, row - 1)
    | _ => none

/-- `parse_range_string`; `none` where the source raises `ValueError`. -/
def parseRangeString (range : Text) : Option (Position × Position) :=
  match splitSheetPrefix range with
  | (some _, _) => none
  | (none, rest) =>
    match takeA1 (upper (strip rest)) with
    | some ((col, row), []) => if row < 1 then none else some ((col, row - 1), (col, row - 1))
    | some ((startCol, startRow), ':' :: tail) =>
      match takeA1 tail with
      | some ((endCol, endRow), []) =>
        if startRow < 1 || endRow < 1 then none
        else some ((startCol, startRow - 1), (endCol, endRow - 1))
      | _ => none
    | _ => none

/-- Capital letters, then digits naming a row, short enough to be probed as a
cell reference. -/
def isA1 (s : Text) : Bool :=
  match takeA1 s with
  | some ((_, row), []) => decide (1 ≤ row) && decide (s.length ≤ 256)
  | _ => false

def isA1Char (c : Char) : Bool := isAsciiUpper c || isAsciiDigit c

def a1Position (s : Text) : Position :=
  (columnToIndex (s.takeWhile isAsciiUpper), digitsValue (s.dropWhile isAsciiUpper) - 1)

variable {s rest : Text} {c : Char} {position : Position}

theorem isA1Char_toNat (plain : isA1Char c = true) :
    (65 ≤ c.toNat ∧ c.toNat ≤ 90) ∨ (48 ≤ c.toNat ∧ c.toNat ≤ 57) := by
  simp only [isA1Char, isAsciiUpper, isAsciiDigit, Bool.or_eq_true,
    Bool.and_eq_true, decide_eq_true_eq, Char.le_def] at plain
  exact plain

theorem isSpace_of_isA1Char (plain : isA1Char c = true) : isSpace c = false := by
  have range := isA1Char_toNat plain
  simp only [isSpace, Bool.or_eq_false_iff, Bool.and_eq_false_iff,
    decide_eq_false_iff_not, beq_eq_false_iff_ne]
  omega

theorem upperChar_of_isA1Char (plain : isA1Char c = true) : upperChar c = [c] := by
  have range := isA1Char_toNat plain
  have notLower : isAsciiLower c = false := by
    simp only [isAsciiLower, Bool.and_eq_false_iff, decide_eq_false_iff_not, Char.le_def]
    change ¬ 97 ≤ c.toNat ∨ ¬ c.toNat ≤ 122
    omega
  simp only [upperChar, notLower, Bool.false_eq_true, if_false]
  split <;> first | rfl | omega

theorem upper_of_forall_isA1Char (plain : ∀ c ∈ s, isA1Char c = true) : upper s = s := by
  induction s with
  | nil => rfl
  | cons c rest ih =>
    have tail := ih fun d member => plain d (mem_cons_of_mem _ member)
    rw [upper, flatMap_cons, upperChar_of_isA1Char (plain c mem_cons_self), ← upper, tail]
    rfl

theorem ne_of_isA1Char {c d : Char} (plain : isA1Char c = true)
    (other : isA1Char d = false) : c ≠ d := by
  rintro rfl
  simp [plain] at other

theorem strip_of_forall_isA1Char (plain : ∀ c ∈ s, isA1Char c = true) : strip s = s := by
  apply strip_eq_self
  constructor
  · intro c head
    exact isSpace_of_isA1Char (plain c (mem_of_mem_head? head))
  · intro c last
    exact isSpace_of_isA1Char (plain c (mem_of_mem_getLast? last))

theorem splitSheetPrefix_of_forall_isA1Char
    (plain : ∀ c ∈ s, isA1Char c = true) : splitSheetPrefix s = (none, s) := by
  have noSpace : s.dropWhile isSpace = s := by
    apply lstripBy_eq_self
    intro c head
    exact isSpace_of_isA1Char (plain c (mem_of_mem_head? head))
  have noSeparator : s.dropWhile (fun c => !isSheetSeparator c && c != '\'') = [] := by
    rw [dropWhile_eq_nil_iff]
    intro c member
    have dot := ne_of_isA1Char (plain c member) (d := '.') rfl
    have bang := ne_of_isA1Char (plain c member) (d := '!') rfl
    have quote := ne_of_isA1Char (plain c member) (d := '\'') rfl
    simp [isSheetSeparator, dot, bang, quote]
  rw [splitSheetPrefix, noSpace]
  split
  · rename_i quoted
    exact absurd rfl (ne_of_isA1Char (plain _ mem_cons_self) (d := '\'') rfl)
  · rw [noSeparator, strip_of_forall_isA1Char plain]

theorem removeChar_of_notMem (absent : c ∉ s) : removeChar c s = s := by
  rw [removeChar, filter_eq_self]
  intro d member
  simpa using fun equal : d = c => absent (equal ▸ member)

section

variable (plain : isA1 s = true)

include plain

theorem isA1_split : ∃ letters digits, s = letters ++ digits ∧ letters ≠ [] ∧ digits ≠ [] ∧
        (∀ c ∈ letters, isAsciiUpper c = true) ∧
        (∀ c ∈ digits, isAsciiDigit c = true) ∧
        takeA1 s = some ((columnToIndex letters, digitsValue digits), []) ∧
        1 ≤ digitsValue digits ∧ s.length ≤ 256 ∧
        a1Position s = (columnToIndex letters, digitsValue digits - 1) := by
  unfold isA1 at plain
  split at plain
  · rename_i col row result
    simp only [Bool.and_eq_true, decide_eq_true_eq] at plain
    rw [result]
    unfold takeA1 at result
    simp only at result
    split at result
    · simp at result
    · rename_i nonempty
      simp only [Option.some.injEq, Prod.mk.injEq] at result
      obtain ⟨⟨colEq, rowEq⟩, allDigits⟩ := result
      simp only [Bool.or_eq_true, List.isEmpty_iff, not_or] at nonempty
      have digitsAll : (s.dropWhile isAsciiUpper).takeWhile isAsciiDigit
          = s.dropWhile isAsciiUpper := by
        have whole := List.takeWhile_append_dropWhile
          (p := isAsciiDigit) (l := s.dropWhile isAsciiUpper)
        rwa [allDigits, append_nil] at whole
      rw [digitsAll] at rowEq nonempty
      refine ⟨s.takeWhile isAsciiUpper, s.dropWhile isAsciiUpper,
        List.takeWhile_append_dropWhile.symm, nonempty.1, nonempty.2,
        fun c member => List.mem_takeWhile_imp member, ?_, ?_, ?_,
        plain.2, rfl⟩
      · intro c member
        rw [← digitsAll] at member
        exact List.mem_takeWhile_imp member
      · rw [colEq, rowEq]
      · rw [rowEq]
        exact plain.1
  · simp at plain

theorem isA1_chars : ∀ c ∈ s, isA1Char c = true := by
  obtain ⟨letters, digits, rfl, _, _, upperLetters, decimalDigits, _⟩ :=
    isA1_split plain
  intro c member
  rcases mem_append.mp member with inLetters | inDigits
  · simp [isA1Char, upperLetters c inLetters]
  · simp [isA1Char, decimalDigits c inDigits]

theorem isA1_ne_nil : s ≠ [] := by
  rintro rfl
  simp [isA1, takeA1] at plain

theorem isA1_last (last : s.getLast? = some c) : isAsciiDigit c = true := by
  obtain ⟨letters, digits, rfl, _, nonempty, _, decimalDigits, _⟩ :=
    isA1_split plain
  rw [List.getLast?_append_of_ne_nil _ nonempty] at last
  exact decimalDigits c (mem_of_mem_getLast? last)

theorem parseAddress_of_isA1 : parseAddress s = some (a1Position s) := by
  have chars := isA1_chars plain
  obtain ⟨letters, digits, _, _, _, _, _, taken, positive, _, position⟩ :=
    isA1_split plain
  rw [parseAddress, splitSheetPrefix_of_forall_isA1Char chars]
  simp only [strip_of_forall_isA1Char chars, upper_of_forall_isA1Char chars, taken, position]
  rw [if_neg (by omega)]

theorem parseRangeString_of_isA1 : parseRangeString s = some (a1Position s, a1Position s) := by
  have chars := isA1_chars plain
  obtain ⟨letters, digits, _, _, _, _, _, taken, positive, _, position⟩ :=
    isA1_split plain
  rw [parseRangeString, splitSheetPrefix_of_forall_isA1Char chars]
  simp only [strip_of_forall_isA1Char chars, upper_of_forall_isA1Char chars, taken, position]
  rw [if_neg (by omega)]

end

theorem mem_of_takeA1 (taken : takeA1 s = some (position, rest))
    (member : c ∈ s) (other : isA1Char c = false) : c ∈ rest := by
  unfold takeA1 at taken
  simp only at taken
  split at taken
  · simp at taken
  · obtain ⟨_, rfl⟩ := taken
    simp only [isA1Char, Bool.or_eq_false_iff] at other
    rw [← List.takeWhile_append_dropWhile (p := isAsciiUpper) (l := s)] at member
    rcases mem_append.mp member with letter | after
    · simp [List.mem_takeWhile_imp letter] at other
    · rw [← List.takeWhile_append_dropWhile (p := isAsciiDigit)
        (l := s.dropWhile isAsciiUpper)] at after
      rcases mem_append.mp after with digit | remaining
      · simp [List.mem_takeWhile_imp digit] at other
      · exact remaining

/-- A visible character that no upper case produces or changes, and that is
neither a letter nor a digit: it stays visible to the address parsers. -/
structure Foreign (c : Char) : Prop where
  visible : isSpace c = false
  fixed : upperChar c = [c]
  other : isA1Char c = false

theorem Foreign.mem_upper (foreign : Foreign c) (member : c ∈ s) : c ∈ upper (strip s) := by
  rw [upper, mem_flatMap]
  exact ⟨c, mem_strip member foreign.visible, by simp [foreign.fixed]⟩

theorem splitSheetPrefix_none (split : splitSheetPrefix s = (none, rest)) : rest = strip s := by
  unfold splitSheetPrefix at split
  simp only at split
  repeat' split at split
  all_goals simp_all

theorem splitSheetPrefix_snd (s : Text) : (splitSheetPrefix s).2 = strip s ∨
      ∃ c rest, isSheetSeparator c = true ∧ c :: rest <:+ s ∧
        (splitSheetPrefix s).2 = strip rest := by
  have visible : s.dropWhile isSpace <:+ s := dropWhile_suffix _
  unfold splitSheetPrefix
  split
  · rename_i quoted bareEq
    rw [bareEq] at visible
    have inner : ((quoted.dropWhile (· != '\'')).drop 1).dropWhile isSpace <:+
        quoted :=
      (dropWhile_suffix _).trans ((drop_suffix _ _).trans (dropWhile_suffix _))
    simp only
    split
    · rename_i c rest innerEq
      rw [innerEq] at inner
      split
      · rename_i accepted
        simp only [Bool.and_eq_true] at accepted
        refine Or.inr ⟨c, rest, accepted.1.1, ?_, rfl⟩
        exact inner.trans ((suffix_cons _ _).trans visible)
      · exact Or.inl rfl
    · exact Or.inl rfl
  · have inner : (s.dropWhile isSpace).dropWhile
        (fun c => !isSheetSeparator c && c != '\'') <:+ s :=
      (dropWhile_suffix _).trans visible
    simp only
    split
    · rename_i c rest innerEq
      rw [innerEq] at inner
      split
      · rename_i accepted
        simp only [Bool.and_eq_true] at accepted
        exact Or.inr ⟨c, rest, accepted.1.1, inner, rfl⟩
      · exact Or.inl rfl
    · exact Or.inl rfl

theorem Foreign.notMem_of_parseAddress (foreign : Foreign c)
    (parsed : parseAddress s = some position) : c ∉ s := by
  intro member
  unfold parseAddress at parsed
  split at parsed
  · simp at parsed
  · rename_i rest noSheet
    rw [splitSheetPrefix_none noSheet, strip_strip] at parsed
    split at parsed
    · rename_i taken
      have inRest := mem_of_takeA1 taken (foreign.mem_upper member) foreign.other
      simp at inRest
    · simp at parsed

theorem Foreign.notMem_of_parseRangeString (foreign : Foreign c) (notColon : c ≠ ':')
    {range : Position × Position} (parsed : parseRangeString s = some range) : c ∉ s := by
  intro member
  unfold parseRangeString at parsed
  split at parsed
  · simp at parsed
  · rename_i rest noSheet
    rw [splitSheetPrefix_none noSheet, strip_strip] at parsed
    have visible := foreign.mem_upper member
    split at parsed
    · rename_i taken
      have inRest := mem_of_takeA1 taken visible foreign.other
      simp at inRest
    · rename_i tail taken
      have inRest := mem_of_takeA1 taken visible foreign.other
      have inTail : c ∈ tail := by simpa [notColon] using inRest
      split at parsed
      · rename_i taken'
        have inEnd := mem_of_takeA1 taken' inTail foreign.other
        simp at inEnd
      · simp at parsed
    · simp at parsed

example : parseAddress "'My Sheet'.B2".toList = none ∧
    parseRangeString "b2:AA10".toList = some ((1, 1), (26, 9)) := by decide

end WriterAgent.Calc
