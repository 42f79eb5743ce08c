import Mathlib.Data.Set.Function
import Mathlib.Tactic.Linarith
import Mathlib.Tactic.Ring
import WriterAgent.Calc.AddressUtils

/-!
# Written addresses

`format_address` writes a column in bijective base 26 and a row in base ten.
-/

namespace WriterAgent.Calc

open PyText List

def columnValue (s : Text) : Nat :=
  s.foldl (fun result c => result * 26 + (c.toNat - 'A'.toNat + 1)) 0

theorem columnValue_append (front back : Text) :
    columnValue (front ++ back) = columnValue front * 26 ^ back.length + columnValue back := by
  have shift : ∀ (start : ℕ) (s : Text),
      s.foldl (fun result c => result * 26 + (c.toNat - 'A'.toNat + 1)) start =
        start * 26 ^ s.length + columnValue s := by
    intro start s
    induction s generalizing start with
    | nil => simp [columnValue]
    | cons c rest induction =>
      rw [columnValue, foldl_cons, foldl_cons, induction, @induction (0 * 26 + _), length_cons]
      ring
  rw [columnValue, foldl_append]
  exact shift _ back

theorem letter_toNat {n : ℕ} (small : n < 26) :
    (Char.ofNat ('A'.toNat + n)).toNat = 'A'.toNat + n := by
  have table : ∀ n < 26, (Char.ofNat ('A'.toNat + n)).toNat = 'A'.toNat + n := by decide
  exact table n small

theorem columnValue_indexToColumnLoop {fuel index : ℕ} (enough : index ≤ fuel) (letters : Text) :
    columnValue (indexToColumnLoop fuel index letters) =
      index * 26 ^ letters.length + columnValue letters := by
  induction fuel generalizing index letters with
  | zero =>
    obtain rfl : index = 0 := Nat.le_zero.1 enough
    rw [indexToColumnLoop, Nat.zero_mul, Nat.zero_add]
  | succ fuel induction =>
    rw [indexToColumnLoop]
    split
    · next zero => rw [zero, Nat.zero_mul, Nat.zero_add]
    · rename_i positive
      have small : (index - 1) % 26 < 26 := Nat.mod_lt _ (by decide)
      have digit : columnValue [Char.ofNat ('A'.toNat + (index - 1) % 26)] =
          (index - 1) % 26 + 1 := by
        rw [columnValue, foldl_cons, foldl_nil, letter_toNat small]
        omega
      have split : Char.ofNat ('A'.toNat + (index - 1) % 26) :: letters =
          [Char.ofNat ('A'.toNat + (index - 1) % 26)] ++ letters := rfl
      rw [induction (by omega), split, columnValue_append, digit, length_append, pow_add]
      have whole : index = 26 * ((index - 1) / 26) + (index - 1) % 26 + 1 := by omega
      calc (index - 1) / 26 * (26 * 26 ^ letters.length) +
            (((index - 1) % 26 + 1) * 26 ^ letters.length + columnValue letters)
          = (26 * ((index - 1) / 26) + (index - 1) % 26 + 1) * 26 ^ letters.length +
              columnValue letters := by ring
        _ = index * 26 ^ letters.length + columnValue letters := by rw [← whole]

theorem isAsciiUpper_letter {n : ℕ} (small : n < 26) :
    isAsciiUpper (Char.ofNat ('A'.toNat + n)) = true := by
  have code := letter_toNat small
  have first : 'A'.toNat = 65 := rfl
  simp only [isAsciiUpper, Bool.and_eq_true, decide_eq_true_eq, Char.le_def]
  change 65 ≤ (Char.ofNat ('A'.toNat + n)).toNat ∧ (Char.ofNat ('A'.toNat + n)).toNat ≤ 90
  omega

variable {s : Text} {c : Char}

theorem isAsciiUpper_indexToColumnLoop {fuel index : ℕ} {letters : Text}
    (all : ∀ c ∈ letters, isAsciiUpper c = true) :
    ∀ c ∈ indexToColumnLoop fuel index letters, isAsciiUpper c = true := by
  induction fuel generalizing index letters with
  | zero => exact all
  | succ fuel induction =>
    rw [indexToColumnLoop]
    split
    · exact all
    · apply induction
      intro c member
      rcases mem_cons.1 member with rfl | later
      · exact isAsciiUpper_letter (Nat.mod_lt _ (by decide))
      · exact all c later

theorem isAsciiUpper_of_mem_indexToColumn {col : ℕ} {c : Char} (member : c ∈ indexToColumn col) :
    isAsciiUpper c = true :=
  isAsciiUpper_indexToColumnLoop (by simp) c member

theorem upper_eq_self (all : ∀ c ∈ s, isAsciiUpper c = true) : upper s = s :=
  upper_of_forall_isA1Char fun c member => by rw [isA1Char, all c member]; rfl

theorem columnValue_indexToColumn (col : ℕ) : columnValue (indexToColumn col) = col + 1 := by
  rw [indexToColumn, columnValue_indexToColumnLoop le_rfl]
  simp [columnValue]

theorem columnToIndex_indexToColumn (col : ℕ) : columnToIndex (indexToColumn col) = col := by
  have value := columnValue_indexToColumn col
  rw [columnValue] at value
  rw [columnToIndex, upper_eq_self fun c => isAsciiUpper_of_mem_indexToColumn, value]
  rfl

theorem indexToColumn_ne_nil (col : ℕ) : indexToColumn col ≠ [] := by
  intro none
  have value := columnValue_indexToColumn col
  rw [none] at value
  exact absurd value (by simp [columnValue])

theorem rowText (row : ℕ) : (toString row).toList = Nat.toDigits 10 row := by
  simp [Nat.repr]

theorem isAsciiDigit_of_mem_rowText {row : ℕ} {c : Char} (member : c ∈ (toString row).toList) :
    isAsciiDigit c = true := by
  rw [rowText] at member
  have digit := Nat.isDigit_of_mem_toDigits (by decide) (by decide) member
  simpa [isAsciiDigit, Char.isDigit, Char.le_def, UInt32.le_iff_toNat_le] using digit

theorem rowText_ne_nil (row : ℕ) : (toString row).toList ≠ [] := by
  rw [rowText]
  exact Nat.toDigits_ne_nil

theorem digitsValue_rowText (row : ℕ) : digitsValue (toString row).toList = row := by
  rw [rowText]
  exact Nat.ofDigitChars_toDigits (by decide) (by decide)

theorem not_isAsciiUpper_of_isAsciiDigit (digit : isAsciiDigit c = true) :
    isAsciiUpper c = false := by
  simp only [isAsciiDigit, Bool.and_eq_true, decide_eq_true_eq, Char.le_def] at digit
  simp only [isAsciiUpper, Bool.and_eq_false_iff, decide_eq_false_iff_not, Char.le_def]
  have below : c.toNat ≤ 57 := digit.2
  left
  change ¬ 65 ≤ c.toNat
  omega

theorem isA1Char_of_mem_formatAddress {col row : ℕ} {c : Char}
    (member : c ∈ formatAddress col row) : isA1Char c = true := by
  rcases mem_append.1 member with letter | digit
  · rw [isA1Char, isAsciiUpper_of_mem_indexToColumn letter]
    rfl
  · rw [isA1Char, isAsciiDigit_of_mem_rowText digit, Bool.or_true]

theorem takeA1_formatAddress (col row : ℕ) {rest : Text}
    (ends : rest.head?.any isAsciiDigit = false) :
    takeA1 (formatAddress col row ++ rest) = some ((col, row + 1), rest) := by
  have stop : ∀ digits : Text, digits ≠ [] → (∀ c ∈ digits, isAsciiDigit c = true) →
      (digits ++ rest).takeWhile isAsciiUpper = [] ∧
        (digits ++ rest).dropWhile isAsciiUpper = digits ++ rest := by
    intro digits nonempty all
    obtain ⟨d, more, rfl⟩ := exists_cons_of_ne_nil nonempty
    have no := not_isAsciiUpper_of_isAsciiDigit (all d mem_cons_self)
    rw [cons_append, takeWhile_cons_of_neg (by simp [no]), dropWhile_cons_of_neg (by simp [no])]
    exact ⟨rfl, rfl⟩
  have endsDigits : rest.takeWhile isAsciiDigit = [] ∧ rest.dropWhile isAsciiDigit = rest := by
    cases rest with
    | nil => exact ⟨rfl, rfl⟩
    | cons c more =>
      have no : isAsciiDigit c = false := ends
      rw [takeWhile_cons_of_neg (by simp [no]), dropWhile_cons_of_neg (by simp [no])]
      exact ⟨rfl, rfl⟩
  have letters := fun c => @isAsciiUpper_of_mem_indexToColumn col c
  have digits := fun c => @isAsciiDigit_of_mem_rowText (row + 1) c
  obtain ⟨noLetter, afterLetters⟩ := stop _ (rowText_ne_nil (row + 1)) digits
  have front : (formatAddress col row ++ rest).takeWhile isAsciiUpper = indexToColumn col := by
    rw [formatAddress, append_assoc, takeWhile_append_of_pos letters, noLetter, append_nil]
  have back : (formatAddress col row ++ rest).dropWhile isAsciiUpper =
      (toString (row + 1)).toList ++ rest := by
    rw [formatAddress, append_assoc, dropWhile_append_of_pos letters, afterLetters]
  rw [takeA1]
  rw [front, back, takeWhile_append_of_pos digits, endsDigits.1, append_nil,
    dropWhile_append_of_pos digits, endsDigits.2, columnToIndex_indexToColumn,
    digitsValue_rowText]
  simp [List.isEmpty_iff, indexToColumn_ne_nil]

theorem parseAddress_formatAddress (col row : ℕ) :
    parseAddress (formatAddress col row) = some (col, row) := by
  have plain := fun c => @isA1Char_of_mem_formatAddress col row c
  have taken := @takeA1_formatAddress col row [] rfl
  rw [append_nil] at taken
  rw [parseAddress, splitSheetPrefix_of_forall_isA1Char plain]
  simp only
  rw [strip_of_forall_isA1Char plain, upper_of_forall_isA1Char plain, taken]
  rfl

theorem formatAddress_injective {col row col' row' : ℕ}
    (same : formatAddress col row = formatAddress col' row') : (col, row) = (col', row') := by
  have parsed := parseAddress_formatAddress col row
  rw [same, parseAddress_formatAddress] at parsed
  exact (Option.some.inj parsed).symm

def isCornerChar (c : Char) : Bool := isA1Char c || c == ':'

theorem isCornerChar_facts (plain : isCornerChar c = true) :
    isSpace c = false ∧ isSheetSeparator c = false ∧ c ≠ '\'' ∧ upperChar c = [c] := by
  rcases Bool.or_eq_true_iff.1 plain with a1 | colon
  · have dot := @ne_of_isA1Char c '.' a1 rfl
    have bang := @ne_of_isA1Char c '!' a1 rfl
    exact ⟨isSpace_of_isA1Char a1, by simp [isSheetSeparator, dot, bang],
      ne_of_isA1Char a1 rfl, upperChar_of_isA1Char a1⟩
  · obtain rfl : c = ':' := by simpa using colon
    decide

theorem upper_of_corners (plain : ∀ c ∈ s, isCornerChar c = true) : upper s = s := by
  induction s with
  | nil => rfl
  | cons c rest induction =>
    have later := induction fun d member => plain d (mem_cons_of_mem _ member)
    rw [upper, flatMap_cons, (isCornerChar_facts (plain c mem_cons_self)).2.2.2, ← upper, later]
    rfl

theorem strip_of_corners (plain : ∀ c ∈ s, isCornerChar c = true) : strip s = s := by
  apply strip_eq_self
  constructor
  · intro c head
    exact (isCornerChar_facts (plain c (mem_of_mem_head? head))).1
  · intro c last
    exact (isCornerChar_facts (plain c (mem_of_mem_getLast? last))).1

theorem splitSheetPrefix_of_corners (plain : ∀ c ∈ s, isCornerChar c = true) :
    splitSheetPrefix s = (none, s) := by
  have noSpace : s.dropWhile isSpace = s := by
    apply lstripBy_eq_self
    intro c head
    exact (isCornerChar_facts (plain c (mem_of_mem_head? head))).1
  have noSeparator : s.dropWhile (fun c => !isSheetSeparator c && c != '\'') = [] := by
    rw [dropWhile_eq_nil_iff]
    intro c member
    obtain ⟨_, separator, quote, _⟩ := isCornerChar_facts (plain c member)
    simp [separator, quote]
  rw [splitSheetPrefix, noSpace]
  split
  · next quoted => exact absurd rfl (isCornerChar_facts (plain _ mem_cons_self)).2.2.1
  · rw [noSeparator, strip_of_corners plain]

theorem parseRangeString_corners (startCol startRow endCol endRow : ℕ) :
    parseRangeString (formatAddress startCol startRow ++ ':' :: formatAddress endCol endRow) =
      some ((startCol, startRow), (endCol, endRow)) := by
  have plain : ∀ c ∈ formatAddress startCol startRow ++ ':' :: formatAddress endCol endRow,
      isCornerChar c = true := by
    intro c member
    rw [isCornerChar]
    rcases mem_append.1 member with first | second
    · rw [isA1Char_of_mem_formatAddress first]
      rfl
    · rcases mem_cons.1 second with rfl | inEnd
      · decide
      · rw [isA1Char_of_mem_formatAddress inEnd]
        rfl
  have first := @takeA1_formatAddress startCol startRow (':' :: formatAddress endCol endRow) rfl
  have second := @takeA1_formatAddress endCol endRow [] rfl
  rw [append_nil] at second
  rw [parseRangeString, splitSheetPrefix_of_corners plain]
  simp only
  rw [strip_of_corners plain, upper_of_corners plain, first]
  simp only
  rw [second]
  rfl

theorem parseRangeString_cell (col row : ℕ) :
    parseRangeString (formatAddress col row) = some ((col, row), (col, row)) := by
  have plain := fun c => @isA1Char_of_mem_formatAddress col row c
  have taken := @takeA1_formatAddress col row [] rfl
  rw [append_nil] at taken
  rw [parseRangeString, splitSheetPrefix_of_forall_isA1Char plain]
  simp only
  rw [strip_of_forall_isA1Char plain, upper_of_forall_isA1Char plain, taken]
  rfl

theorem letter_eq_self (upperCase : isAsciiUpper c = true) :
    'A'.toNat ≤ c.toNat ∧ c.toNat - 'A'.toNat < 26 ∧
      Char.ofNat ('A'.toNat + (c.toNat - 'A'.toNat)) = c := by
  simp only [isAsciiUpper, Bool.and_eq_true, decide_eq_true_eq, Char.le_def] at upperCase
  have first : 'A'.toNat ≤ c.toNat := upperCase.1
  have last : c.toNat ≤ 'A'.toNat + 25 := upperCase.2
  refine ⟨first, by omega, ?_⟩
  rw [Nat.add_sub_cancel' first, Char.ofNat_toNat]

theorem indexToColumnLoop_columnValue {fuel : ℕ} (all : ∀ c ∈ s, isAsciiUpper c = true)
    (enough : columnValue s ≤ fuel) (letters : Text) :
    indexToColumnLoop fuel (columnValue s) letters = s ++ letters := by
  induction s using reverseRecOn generalizing fuel letters with
  | nil => cases fuel <;> rfl
  | append_singleton front c ih =>
    obtain ⟨first, small, same⟩ := letter_eq_self (all c (by simp))
    have value : columnValue (front ++ [c]) =
        columnValue front * 26 + (c.toNat - 'A'.toNat) + 1 := by
      rw [columnValue_append, length_singleton, pow_one, columnValue, columnValue, foldl_cons,
        foldl_nil]
      omega
    rw [value] at enough ⊢
    obtain ⟨fuel, rfl⟩ := Nat.exists_eq_succ_of_ne_zero (by omega : fuel ≠ 0)
    have front_value : (columnValue front * 26 + (c.toNat - 'A'.toNat)) / 26 =
        columnValue front := by omega
    have last : (columnValue front * 26 + (c.toNat - 'A'.toNat)) % 26 =
        c.toNat - 'A'.toNat := by omega
    rw [indexToColumnLoop, if_neg (Nat.succ_ne_zero _), Nat.add_sub_cancel, front_value,
      last, same, append_assoc]
    exact ih (fun d member => all d (mem_append_left _ member)) (by omega) (c :: letters)

theorem columnValue_pos (nonempty : s ≠ []) : 0 < columnValue s := by
  obtain ⟨front, last, rfl⟩ := (eq_nil_or_concat' s).resolve_left nonempty
  rw [columnValue_append, columnValue, columnValue, foldl_cons, foldl_nil]
  omega

theorem indexToColumn_columnToIndex (nonempty : s ≠ [])
    (all : ∀ c ∈ s, isAsciiUpper c = true) : indexToColumn (columnToIndex s) = s := by
  have value : columnToIndex s + 1 = columnValue s := by
    rw [columnToIndex, upper_eq_self all]
    exact Nat.sub_add_cancel (columnValue_pos nonempty)
  rw [indexToColumn, value, indexToColumnLoop_columnValue all le_rfl, append_nil]

/-- The non-empty texts over `A` to `Z`. -/
def columnNames : Set Text := {s | s ≠ [] ∧ ∀ c ∈ s, isAsciiUpper c = true}

/-- Letters followed by a positive decimal number. -/
def cellNames : Set Text :=
  {s | ∃ letters ∈ columnNames, ∃ digits : Text, s = letters ++ digits ∧ digits ≠ [] ∧
    (∀ c ∈ digits, isAsciiDigit c = true) ∧ 0 < digitsValue digits}

theorem mem_cellNames_of_parseAddress {position : Position} (stripped : strip s = s)
    (upperCase : upper s = s) (parsed : parseAddress s = some position) : s ∈ cellNames := by
  unfold parseAddress at parsed
  split at parsed
  · cases parsed
  · next rest plain =>
    rw [splitSheetPrefix_none plain, strip_strip, stripped, upperCase] at parsed
    split at parsed
    · next col row taken =>
      split at parsed
      · cases parsed
      · next positive =>
        unfold takeA1 at taken
        dsimp only at taken
        split at taken
        · cases taken
        · next present =>
          obtain ⟨letters, digits⟩ := not_or.mp (fun none => present (Bool.or_eq_true_iff.mpr none))
          obtain ⟨address, ended⟩ := Prod.mk.inj (Option.some.inj taken)
          have value := (Prod.mk.inj address).2
          refine ⟨s.takeWhile isAsciiUpper, ⟨fun none => letters (isEmpty_iff.mpr none),
            fun c => mem_takeWhile_imp⟩, (s.dropWhile isAsciiUpper).takeWhile isAsciiDigit, ?_,
            fun none => digits (isEmpty_iff.mpr none), fun c => mem_takeWhile_imp, ?_⟩
          · have whole := takeWhile_append_dropWhile
              (p := isAsciiDigit) (l := s.dropWhile isAsciiUpper)
            rw [ended, append_nil] at whole
            rw [whole, takeWhile_append_dropWhile]
          · omega
    · cases parsed

/-- **Addresses.** Column names and indices are in bijection, a written address
is read back, and only cell names are addresses. -/
theorem addresses_readBack : Set.BijOn indexToColumn Set.univ columnNames ∧
    Set.BijOn columnToIndex columnNames Set.univ ∧
    Set.InvOn columnToIndex indexToColumn Set.univ columnNames ∧
    (∀ col row, parseAddress (formatAddress col row) = some (col, row)) ∧
    ∀ s, strip s = s → upper s = s → s ∉ cellNames → parseAddress s = none := by
  have names : Set.MapsTo indexToColumn Set.univ columnNames :=
    fun col _ => ⟨indexToColumn_ne_nil col, fun _ => isAsciiUpper_of_mem_indexToColumn⟩
  have inverse : Set.InvOn columnToIndex indexToColumn Set.univ columnNames :=
    ⟨fun col _ => columnToIndex_indexToColumn col,
      fun s name => indexToColumn_columnToIndex name.1 name.2⟩
  have indices : Set.MapsTo columnToIndex columnNames Set.univ := fun _ _ => trivial
  refine ⟨inverse.bijOn names indices, inverse.symm.bijOn indices names, inverse,
    parseAddress_formatAddress, fun s stripped upperCase other => ?_⟩
  cases parsed : parseAddress s with
  | none => rfl
  | some position => exact absurd (mem_cellNames_of_parseAddress stripped upperCase parsed) other

end WriterAgent.Calc
