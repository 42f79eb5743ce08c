import WriterAgent.Calc.ExcelPyConvert.ScriptBank

/-!
# Which script a banked cell runs

A formula with a bank reference leads back to the bank cell of its own sheet
and address when the bank sheet can be named without quotes.
-/

namespace WriterAgent.Calc.ExcelPyConvert

open PyText WriterAgent.Calc.Python List

def isWordChar (c : Char) : Bool := isAsciiWordStart c || isAsciiDigit c

variable {a1 letters digits code codeSheet sheet : Text} {c : Char}
  {isAlnum : Char → Bool} {cell : ConvertedCell} {report : ConversionReport}
  {book : SheetCells} {place : Text × Text} {excelEscape : Bool}

theorem isRegexWord_of_isWordChar (isAlnum : Char → Bool)
    (word : isWordChar c = true) : isRegexWord isAlnum c = true := by
  simp only [isWordChar, isAsciiWordStart, Bool.or_eq_true] at word
  simp only [isRegexWord, Bool.or_eq_true]
  tauto

theorem isWordChar_of_isRegexWord (word : isRegexWord isAlnum c = true)
    (ascii : c.toNat < 128) : isWordChar c = true := by
  have narrow : ¬ 128 ≤ c.toNat := by omega
  simp only [isRegexWord, Bool.or_eq_true, Bool.and_eq_true, decide_eq_true_eq,
    narrow, false_and, or_false] at word
  simp only [isWordChar, isAsciiWordStart, Bool.or_eq_true]
  tauto

theorem isAscii_of_isWordChar {s : Text} (word : ∀ c ∈ s, isWordChar c = true) :
    isAscii s = true := by
  apply all_eq_true.mpr
  intro c member
  have plain := word c member
  simp only [isWordChar, isAsciiWordStart, isAsciiLetter, isAsciiUpper,
    isAsciiLower, isAsciiDigit, Bool.or_eq_true, Bool.and_eq_true,
    decide_eq_true_eq, Char.le_def, beq_iff_eq] at plain
  rw [decide_eq_true_eq]
  rcases plain with (rfl | (upper | lower)) | digit
  · decide
  · have bound : c.toNat ≤ 90 := upper.2
    omega
  · have bound : c.toNat ≤ 122 := lower.2
    omega
  · have bound : c.toNat ≤ 57 := digit.2
    omega

theorem isSpace_of_isWordChar (word : isWordChar c = true) : isSpace c = false := by
  simp only [isWordChar, isAsciiWordStart, Bool.or_eq_true, beq_iff_eq] at word
  rcases word with (rfl | letter) | digit
  · decide
  · exact isSpace_of_isRangeChar (by simp [isRangeChar, letter])
  · exact isSpace_of_isRangeChar (by simp [isRangeChar, digit])

theorem orElseText_ne_nil {s other : Text} (nonempty : other ≠ []) : orElseText s other ≠ [] := by
  unfold orElseText
  cases s with
  | nil => simpa using nonempty
  | cons c rest => simp

theorem orElseText_forall {holds : Char → Prop} {s other : Text}
    (first : ∀ c ∈ s, holds c) (second : ∀ c ∈ other, holds c) :
    ∀ c ∈ orElseText s other, holds c := by
  unfold orElseText
  split
  · exact second
  · exact first

theorem codeSheetNameFor_split (isAlnum : Char → Bool) (sourceSheet : Text) :
    ∃ safe, codeSheetNameFor isAlnum sourceSheet = codeSheetPrefix ++ safe ∧
      safe ≠ [] ∧ ∀ c ∈ safe, isRegexWord isAlnum c = true := by
  have underscore : ∀ c ∈ ['_'], isRegexWord isAlnum c = true := by
    intro c member
    rw [mem_singleton] at member
    subst member
    exact isRegexWord_of_isWordChar isAlnum (by decide)
  have replaced : ∀ raw, ∀ c ∈ substitute (unsafeRun isAlnum) none 0 raw,
      isRegexWord isAlnum c = true := by
    intro raw
    apply substitute_forall
    · intro before s length replacement found c member
      unfold unsafeRun at found
      split at found
      · simp at found
      · obtain ⟨_, rfl⟩ : _ ∧ ['_'] = replacement := by simpa using found
        exact underscore c member
    · intro before c rest absent
      unfold unsafeRun at absent
      split at absent
      · next none => simpa [takeWhile_cons] using none
      · simp at absent
  have sheetWord : ∀ c ∈ "Sheet".toList, isRegexWord isAlnum c = true := by
    have word : ∀ c ∈ "Sheet".toList, isWordChar c = true := by decide
    exact fun c member => isRegexWord_of_isWordChar isAlnum (word c member)
  unfold codeSheetNameFor
  simp only
  generalize orElseText (strip _) _ = raw
  have safeChars := @orElseText_forall (fun c => isRegexWord isAlnum c = true)
    (rstripBy (· == '_') (lstripBy (· == '_')
      (substitute (unsafeRun isAlnum) none 0 raw))) "Sheet".toList
    (fun c member => replaced raw c ((lstripBy_isSuffix _ _).subset
      ((rstripBy_isPrefix _ _).subset member))) sheetWord
  have safeNonempty := @orElseText_ne_nil (rstripBy (· == '_') (lstripBy (· == '_')
      (substitute (unsafeRun isAlnum) none 0 raw))) "Sheet".toList (by decide)
  generalize orElseText (rstripBy _ _) _ = safe at safeChars safeNonempty
  refine ⟨safe.take 23, ?_, ?_, ?_⟩
  · have room : codeSheetMaxLen = codeSheetPrefix.length + 23 := rfl
    rw [room, take_length_add_append]
  · cases safe with
    | nil => exact absurd rfl safeNonempty
    | cons c rest => simp
  · exact fun c member => safeChars c (mem_of_mem_take member)

theorem codeSheetPrefix_word : ∀ c ∈ codeSheetPrefix, isWordChar c = true := by
  decide

theorem codeSheetNameFor_chars (isAlnum : Char → Bool) (sourceSheet : Text) :
    ∀ c ∈ codeSheetNameFor isAlnum sourceSheet, isRegexWord isAlnum c = true := by
  obtain ⟨safe, split, _, chars⟩ := codeSheetNameFor_split isAlnum sourceSheet
  intro c member
  rw [split] at member
  rcases mem_append.mp member with first | later
  · exact isRegexWord_of_isWordChar isAlnum (codeSheetPrefix_word c first)
  · exact chars c later

theorem not_isRegexWord (isAlnum : Char → Bool) (ascii : c.toNat < 128)
    (other : isWordChar c = false) : isRegexWord isAlnum c = false := by
  by_contra word
  rw [Bool.not_eq_false] at word
  rw [isWordChar_of_isRegexWord word ascii] at other
  simp at other

/-- A normal address: capitals, then digits. -/
structure BankA1 (a1 letters digits : Text) : Prop where
  split : a1 = letters ++ digits
  someLetter : letters ≠ []
  someDigit : digits ≠ []
  letters : ∀ c ∈ letters, isAsciiUpper c = true
  digits : ∀ c ∈ digits, isDecimal c = true

theorem upperChar_isAsciiLetter (letter : isAsciiLetter c = true) :
    upperChar c ≠ [] ∧ ∀ d ∈ upperChar c, isAsciiUpper d = true := by
  have bound : c.toNat < 128 := by
    have word : isWordChar c = true := by simp [isWordChar, isAsciiWordStart, letter]
    have ascii := @isAscii_of_isWordChar [c] (by simpa using word)
    simpa [isAscii] using ascii
  have table : ∀ n < 128, isAsciiLetter (Char.ofNat n) = true → upperChar (Char.ofNat n) ≠ [] ∧
        ∀ d ∈ upperChar (Char.ofNat n), isAsciiUpper d = true := by
    decide +kernel
  have row := table c.toNat bound
  rw [Char.ofNat_toNat] at row
  exact row letter

theorem matchA1_cases {s : Text} (matched : matchA1 s = some (letters, digits)) :
    letters ≠ [] ∧ digits ≠ [] ∧ (∀ c ∈ letters, isAsciiLetter c = true) ∧
      ∀ c ∈ digits, isDecimal c = true := by
  unfold matchA1 at matched
  simp only at matched
  split at matched
  · simp at matched
  · rename_i kept
    simp only [Bool.or_eq_true, not_or, List.isEmpty_iff] at kept
    obtain ⟨rfl, rfl⟩ := Prod.mk.inj (Option.some.inj matched)
    refine ⟨kept.1.1, kept.1.2, ?_, ?_⟩
    · exact fun c member => List.mem_takeWhile_imp member
    · exact fun c member => List.mem_takeWhile_imp member

theorem normalizeBankA1_cases {cell : Text} (normal : normalizeBankA1 cell = some a1) :
    ∃ letters digits, BankA1 a1 letters digits := by
  obtain ⟨⟨letters, digits⟩, matched, rfl⟩ := Option.map_eq_some_iff.mp normal
  obtain ⟨someLetter, someDigit, isLetter, isDigit⟩ := matchA1_cases matched
  refine ⟨upper letters, digits, rfl, ?_, someDigit, ?_, isDigit⟩
  · obtain ⟨c, rest, rfl⟩ := exists_cons_of_ne_nil someLetter
    have first := (upperChar_isAsciiLetter (isLetter c mem_cons_self)).1
    simp [upper, first]
  · intro c member
    obtain ⟨source, inLetters, image⟩ := mem_flatMap.mp member
    exact (upperChar_isAsciiLetter (isLetter source inLetters)).2 c image

theorem isAsciiLetter_of_isAsciiUpper (upper : isAsciiUpper c = true) : isAsciiLetter c = true := by
  simp [isAsciiLetter, upper]

theorem not_isDecimal (ascii : c.toNat < 128) (other : isAsciiDigit c = false) :
    isDecimal c = false := by
  by_contra decimal
  rw [Bool.not_eq_false] at decimal
  rw [isAsciiDigit_of_isDecimal decimal ascii] at other
  simp at other

section

variable (plain : BankA1 a1 letters digits)

include plain

theorem BankA1.notMem (ascii : c.toNat < 128) (notUpper : isAsciiUpper c = false)
    (notDigit : isAsciiDigit c = false) : c ∉ a1 := by
  intro member
  rw [plain.split] at member
  rcases mem_append.mp member with inLetters | inDigits
  · simp [plain.letters c inLetters] at notUpper
  · have decimal := plain.digits c inDigits
    rw [not_isDecimal ascii notDigit] at decimal
    simp at decimal

theorem BankA1.visible : ∀ c ∈ a1, isSpace c = false := by
  intro c member
  rw [plain.split] at member
  rcases mem_append.mp member with inLetters | inDigits
  · apply isSpace_of_isRangeChar
    simp [isRangeChar, isAsciiLetter, plain.letters c inLetters]
  · exact isSpace_of_isDecimal (plain.digits c inDigits)

theorem BankA1.straight : StraightQuotes a1 := by
  intro c member
  rw [plain.split] at member
  rcases mem_append.mp member with inLetters | inDigits
  · have range := isTokenChar_of_isRangeChar (c := c) (by
      simp [isRangeChar, isAsciiLetter, plain.letters c inLetters])
    simp only [isTokenChar, Bool.and_eq_true, beq_iff_eq] at range
    exact range.2
  · have other := @isDecimal_induction
      (fun n => n != 0x201C && n != 0x201D && n != 0x2018 && n != 0x2019)
      (by decide +kernel) c (plain.digits c inDigits)
    unfold normalizeQuote
    split <;> simp_all

theorem BankA1.matchA1_eq : matchA1 a1 = some (letters, digits) := by
  have noDollar : ∀ s : Text, '$' ∉ s → dropDollar s = s := by
    intro s absent
    unfold dropDollar
    rw [if_neg]
    intro head
    exact absent (mem_of_mem_head? (by simpa using head))
  have absent := plain.notMem (c := '$') (by decide) (by decide) (by decide)
  have isLetter : ∀ c ∈ letters, isAsciiLetter c = true :=
    fun c member => isAsciiLetter_of_isAsciiUpper (plain.letters c member)
  have digitsOnly : digits.takeWhile isAsciiLetter = [] ∧
      digits.dropWhile isAsciiLetter = digits := by
    obtain ⟨c, rest, split⟩ := exists_cons_of_ne_nil plain.someDigit
    have decimal := plain.digits c (by simp [split])
    have notLetter : isAsciiLetter c = false := by
      by_contra letter
      rw [Bool.not_eq_false] at letter
      have word : isWordChar c = true := by simp [isWordChar, isAsciiWordStart, letter]
      have ascii : c.toNat < 128 := by
        have whole := @isAscii_of_isWordChar [c] (by simpa using word)
        simpa [isAscii] using whole
      have digit := isAsciiDigit_of_isDecimal decimal ascii
      have table : ∀ n < 128, isAsciiDigit (Char.ofNat n) = true →
          isAsciiLetter (Char.ofNat n) = false := by decide +kernel
      have row := table c.toNat ascii
      rw [Char.ofNat_toNat] at row
      simp [row digit] at letter
    rw [split]
    simp [notLetter]
  have absentDigits : '$' ∉ digits := by
    intro member
    apply absent
    rw [plain.split]
    exact mem_append_right _ member
  have letterPart : a1.takeWhile isAsciiLetter = letters := by
    rw [plain.split, takeWhile_append_of_pos isLetter, digitsOnly.1, append_nil]
  have digitPart : a1.dropWhile isAsciiLetter = digits := by
    rw [plain.split, dropWhile_append_of_pos isLetter, digitsOnly.2]
  have allDigits : digits.takeWhile isDecimal = digits :=
    takeWhile_eq_self_iff.mpr plain.digits
  have nothing : digits.dropWhile isDecimal = [] :=
    dropWhile_eq_nil_iff.mpr plain.digits
  simp only [matchA1, noDollar a1 absent, letterPart, digitPart,
    noDollar digits absentDigits, allDigits, nothing]
  simp [plain.someLetter, plain.someDigit]

theorem BankA1.normalizeBankA1_eq : normalizeBankA1 a1 = some a1 := by
  have noDollar := removeChar_of_notMem
    (plain.notMem (c := '$') (by decide) (by decide) (by decide))
  have noBang := plain.notMem (c := '!') (by decide) (by decide) (by decide)
  have noDot := plain.notMem (c := '.') (by decide) (by decide) (by decide)
  have trimmed : strip a1 = a1 := strip_eq_self
    ⟨fun c head => plain.visible c (mem_of_mem_head? head),
      fun c last => plain.visible c (mem_of_mem_getLast? last)⟩
  have upperSame : upper letters = letters := by
    apply upper_of_forall_isA1Char
    intro c member
    simp [isA1Char, plain.letters c member]
  simp only [normalizeBankA1, noDollar, trimmed]
  simp [noBang, noDot, plain.matchA1_eq, upperSame]
  exact plain.split.symm

end

def bankRefText (codeSheet : Text) (excelBang : Bool) (a1 : Text) : Text :=
  codeSheet ++ (if excelBang then '!' else '.') :: a1

def writtenRef (codeSheet : Text) (excelBang : Bool) (a1 : Text) : Text :=
  if isAscii codeSheet then bankRefText codeSheet excelBang a1
  else '\'' :: codeSheet ++ '\'' :: (if excelBang then '!' else '.') :: a1

section Reference

variable {isAlnum : Char → Bool} {codeSheet a1 letters digits : Text}

structure BankName (isAlnum : Char → Bool) (codeSheet : Text) : Prop where
  start : ∃ safe, codeSheet = codeSheetPrefix ++ safe ∧ safe ≠ []
  word : ∀ c ∈ codeSheet, isRegexWord isAlnum c = true

theorem codeSheetNameFor_bankName (isAlnum : Char → Bool) (sourceSheet : Text) :
    BankName isAlnum (codeSheetNameFor isAlnum sourceSheet) := by
  obtain ⟨safe, split, nonempty, _⟩ := codeSheetNameFor_split isAlnum sourceSheet
  exact ⟨⟨safe, split, nonempty⟩, codeSheetNameFor_chars isAlnum sourceSheet⟩

section

variable (name : BankName isAlnum codeSheet)

include name

theorem BankName.notMem (ascii : c.toNat < 128) (other : isWordChar c = false) : c ∉ codeSheet := by
  intro member
  have word := name.word c member
  rw [not_isRegexWord isAlnum ascii other] at word
  simp at word

theorem BankName.ascii_iff : isAscii codeSheet = true ↔ ∀ c ∈ codeSheet, isWordChar c = true := by
  constructor
  · intro ascii c member
    have small : c.toNat < 128 := by simpa using all_eq_true.mp ascii c member
    exact isWordChar_of_isRegexWord (name.word c member) small
  · exact isAscii_of_isWordChar

theorem BankName.isSheetIdentifier_eq : isSheetIdentifier codeSheet = isAscii codeSheet := by
  rw [Bool.eq_iff_iff, name.ascii_iff]
  obtain ⟨safe, split, _⟩ := name.start
  have cons : codeSheet = 'p' :: codeSheet.drop 1 := by
    rw [split]
    rfl
  rw [cons, isSheetIdentifier]
  have start : isAsciiWordStart 'p' = true := by decide
  simp [start, isWordChar]

theorem BankName.sheetNeedsQuotes_eq : sheetNeedsQuotes codeSheet = !isAscii codeSheet := by
  rw [sheetNeedsQuotes, name.isSheetIdentifier_eq]
  cases ascii : isAscii codeSheet with
  | false => simp
  | true =>
    have noSpace : codeSheet.any isSpace = false := by
      rw [any_eq_false]
      intro c member
      simp [isSpace_of_isWordChar (name.ascii_iff.mp ascii c member)]
    simp [noSpace]

theorem BankName.sheetNeedsExcelQuotes_eq :
    sheetNeedsExcelQuotes codeSheet = !isAscii codeSheet := by
  obtain ⟨safe, split, _⟩ := name.start
  have notDigit : codeSheet.head?.any isAsciiDigit = false := by
    rw [split]
    rfl
  rw [sheetNeedsExcelQuotes, notDigit, Bool.false_or, Bool.eq_iff_iff,
    Bool.not_eq_true', ← Bool.not_eq_true, name.ascii_iff, any_eq_true]
  have other : ∀ c, (!(c == '_' || isAsciiDigit c || isAsciiLetter c)) = true ↔
      ¬ isWordChar c = true := by
    intro c
    rw [Bool.or_right_comm]
    simp [isWordChar, isAsciiWordStart]
  simp only [other]
  push Not
  rfl

theorem bankRefText_trimmed (plain : BankA1 a1 letters digits) (excelBang : Bool) :
    strip (bankRefText codeSheet excelBang a1) = bankRefText codeSheet excelBang a1 := by
  obtain ⟨safe, split, _⟩ := name.start
  have nonempty : a1 ≠ [] := by
    rw [plain.split]
    simp [plain.someLetter]
  apply strip_eq_self
  constructor
  · intro c head
    rw [split] at head
    cases head
    decide
  · intro c last
    rw [bankRefText, List.getLast?_append_of_ne_nil _ (by simp),
      List.getLast?_cons_of_ne_nil nonempty] at last
    exact plain.visible c (mem_of_mem_getLast? last)

theorem bankRefText_noDollar (plain : BankA1 a1 letters digits) (excelBang : Bool) :
    removeChar '$' (bankRefText codeSheet excelBang a1) = bankRefText codeSheet excelBang a1 := by
  apply removeChar_of_notMem
  have notName := name.notMem (c := '$') (by decide) (by decide)
  have notAddress := plain.notMem (c := '$') (by decide) (by decide) (by decide)
  cases excelBang with
  | false | true => simp [bankRefText, notName, notAddress]

theorem BankName.not_isA1CellPrefix : isA1CellPrefix codeSheet = false := by
  obtain ⟨safe, split, _⟩ := name.start
  rw [split]
  rfl

theorem formatPyDataRange_bankRef (plain : BankA1 a1 letters digits) :
    formatPyDataRange (strip (bankRefText codeSheet false a1)) = writtenRef codeSheet false a1 := by
  have noBang := name.notMem (c := '!') (by decide) (by decide)
  have noBangA1 := plain.notMem (c := '!') (by decide) (by decide) (by decide)
  have notQuoted : codeSheet.head? ≠ some '\'' := by
    intro head
    exact name.notMem (c := '\'') (by decide) (by decide) (mem_of_mem_head? head)
  have nonempty : a1 ≠ [] := by
    rw [plain.split]
    simp [plain.someLetter]
  have named : codeSheet ≠ [] := by
    obtain ⟨safe, split, someSafe⟩ := name.start
    rw [split]
    exact append_ne_nil_of_right_ne_nil _ someSafe
  obtain ⟨taken, dropped⟩ := takeWhile_separator (name.notMem (c := '.') (by decide) (by decide)) a1
  have address := bankRefText_noDollar name plain false
  rw [bankRefText_trimmed name plain, formatPyDataRange, bankRefText_trimmed name plain, address]
  simp only [bankRefText, Bool.false_eq_true, if_false, taken, dropped,
    writtenRef, name.sheetNeedsQuotes_eq, name.not_isA1CellPrefix]
  simp [noBang, noBangA1, named, nonempty, notQuoted]
  cases isAscii codeSheet with
  | false => simp
  | true => simp

theorem formatExcelDataRange_bankRef (plain : BankA1 a1 letters digits) :
    formatExcelDataRange (strip (bankRefText codeSheet true a1)) =
      writtenRef codeSheet true a1 := by
  have noQuote : ∀ c ∈ codeSheet, isAnyQuote c = false := by
    intro c member
    have single : c ≠ '\'' := by
      rintro rfl
      exact name.notMem (by decide) (by decide) member
    have double : c ≠ '"' := by
      rintro rfl
      exact name.notMem (by decide) (by decide) member
    simp [isAnyQuote, single, double]
  have bare : rstripBy isAnyQuote (lstripBy isAnyQuote codeSheet) =
      codeSheet := by
    have front := @lstripBy_eq_self isAnyQuote codeSheet
      fun c head => noQuote c (mem_of_mem_head? head)
    rw [front]
    exact rstripBy_eq_self fun c last => noQuote c (mem_of_mem_getLast? last)
  obtain ⟨taken, dropped⟩ := takeWhile_separator (name.notMem (c := '!') (by decide) (by decide)) a1
  have address := bankRefText_noDollar name plain true
  have hasBang : (bankRefText codeSheet true a1).contains '!' = true := by simp [bankRefText]
  rw [bankRefText_trimmed name plain, formatExcelDataRange, bankRefText_trimmed name plain, address]
  simp only [hasBang, Bool.not_true, Bool.false_and, Bool.false_eq_true, if_false, if_true]
  simp only [bankRefText, if_true, taken, dropped, drop_succ_cons,
    drop_zero, bare, writtenRef, name.sheetNeedsExcelQuotes_eq]
  cases isAscii codeSheet with
  | false => simp
  | true => simp

theorem BankName.writtenRef_bareCode (plain : BankA1 a1 letters digits)
    (ascii : isAscii codeSheet = true) (excelBang : Bool) :
    BareCode (writtenRef codeSheet excelBang a1) := by
  have cases : ∀ c ∈ writtenRef codeSheet excelBang a1,
      c ∈ codeSheet ∨ c = '.' ∨ c = '!' ∨ c ∈ a1 := by
    intro c member
    rw [writtenRef, if_pos ascii, bankRefText, mem_append, mem_cons] at member
    cases excelBang with
    | false => simpa [or_left_comm] using Or.imp_right (Or.imp_right Or.inr) member
    | true => exact Or.imp_right Or.inr member
  have absent : ∀ c : Char, c.toNat < 128 → isWordChar c = false →
      c ≠ '.' → c ≠ '!' → c ∉ writtenRef codeSheet excelBang a1 := by
    intro c small other notDot notBang member
    have notUpper : isAsciiUpper c = false := by
      by_contra upper
      simp [isWordChar, isAsciiWordStart, isAsciiLetter, upper] at other
    have notDigit : isAsciiDigit c = false := by
      by_contra digit
      simp [isWordChar, digit] at other
    rcases cases c member with inName | dot | bang | inA1
    · exact name.notMem small other inName
    · exact notDot dot
    · exact notBang bang
    · exact plain.notMem small notUpper notDigit inA1
  refine ⟨?_, ?_, ?_, ?_, ?_⟩
  · rw [writtenRef, if_pos ascii, bankRefText]
    simp
  · intro c member
    rcases cases c member with inName | rfl | rfl | inA1
    · exact isSpace_of_isWordChar (name.ascii_iff.mp ascii c inName)
    · decide
    · decide
    · exact plain.visible c inA1
  · intro c member
    have different : ∀ d : Char, d.toNat < 128 → isWordChar d = false →
        d ≠ '.' → d ≠ '!' → c ≠ d := by
      rintro d small other notDot notBang rfl
      exact absent c small other notDot notBang member
    simp [isDataSeparator, different '(' (by decide) (by decide) (by decide) (by decide),
      different ')' (by decide) (by decide) (by decide) (by decide),
      different ';' (by decide) (by decide) (by decide) (by decide),
      different ',' (by decide) (by decide) (by decide) (by decide)]
  · exact absent '"' (by decide) (by decide) (by decide) (by decide)
  · intro c member
    rcases cases c member with inName | rfl | rfl | inA1
    · exact straightQuotes_of_isAscii ascii c inName
    · decide
    · decide
    · exact plain.straight c inA1

theorem matchBankRef_bankRefText (plain : BankA1 a1 letters digits) (excelBang : Bool) :
    matchBankRef (bankRefText codeSheet excelBang a1) = some (codeSheet, a1) := by
  obtain ⟨safe, split, someSafe⟩ := name.start
  have noDot := name.notMem (c := '.') (by decide) (by decide)
  have noBang := name.notMem (c := '!') (by decide) (by decide)
  have sheet : (bankRefText codeSheet excelBang a1).takeWhile
      (fun c => c != '.' && c != '!') = codeSheet := by
    have all : ∀ c ∈ codeSheet, (c != '.' && c != '!') = true := by
      intro c member
      have notDot : c ≠ '.' := by
        rintro rfl
        exact noDot member
      have notBang : c ≠ '!' := by
        rintro rfl
        exact noBang member
      simp [notDot, notBang]
    rw [bankRefText, takeWhile_append_of_pos all]
    cases excelBang with
    | false => simp
    | true => simp
  have address : ((bankRefText codeSheet excelBang a1).drop codeSheet.length).drop 1 = a1 := by
    rw [bankRefText, drop_left]
    rfl
  have start : (bankRefText codeSheet excelBang a1).take
      codeSheetPrefix.length = codeSheetPrefix := by
    rw [bankRefText, split, append_assoc, take_left]
  have longer : codeSheetPrefix.length < codeSheet.length := by
    rw [split, length_append]
    have positive := length_pos_of_ne_nil someSafe
    omega
  simp only [matchBankRef, sheet, address, start, plain.matchA1_eq]
  simp [longer]

theorem resolveCodeBankRef_bankRefText (plain : BankA1 a1 letters digits)
    (excelBang : Bool) (lower : Text → Text) {cells : PyDict Text (Text × Text)}
    {formula : Text} (sheetFound : book.get? codeSheet = some cells)
    (cellFound : cells.get? a1 = some (formula, code)) (nonempty : code ≠ []) :
    resolveCodeBankRef lower (bankRefText codeSheet excelBang a1) book = some code := by
  simp [resolveCodeBankRef, bankRefText_trimmed name plain, matchBankRef_bankRefText name plain,
    plain.normalizeBankA1_eq, sheetFound, cellFound, nonempty]

end

theorem resolveCodeBankRef_quoted (lower : Text → Text)
    (head : code.head? = some '\'') (book : SheetCells) :
    resolveCodeBankRef lower code book = none := by
  obtain ⟨rest, rfl⟩ := List.head?_eq_some_iff.mp head
  have single : strip ['\''] = ['\''] := by decide
  obtain ⟨after, front⟩ := @strip_isPrefix ['\''] ('\'' :: rest) ⟨_, rfl⟩ (by simp [single])
  rw [single, singleton_append] at front
  have unmatched : matchBankRef ('\'' :: after) = none := by
    have different : upper (('\'' :: after).take codeSheetPrefix.length) ≠
        upper codeSheetPrefix := by
      have length : codeSheetPrefix.length = 7 + 1 := rfl
      rw [length, take_succ_cons]
      intro same
      have heads := congrArg List.head? same
      have left : (upper ('\'' :: after.take 7)).head? = some '\'' := rfl
      rw [left] at heads
      exact absurd heads (by decide)
    simp [matchBankRef, different]
  rw [resolveCodeBankRef, ← front, unmatched]

end Reference

def bankedScript (lower : Text → Text) (formula : Text) (book : SheetCells) : Option Text :=
  (parsePythonFormula formula).bind fun parts =>
    resolveCodeBankRef lower parts.code book

def bankPlace (isAlnum : Char → Bool) (cell : ConvertedCell) : Option (Text × Text) :=
  if !cell.converted || cell.convertedCode.isEmpty || cell.cell.isEmpty ||
      cell.sheet.isEmpty || shouldInlineCode cell.convertedCode then none
  else (normalizeBankA1 cell.cell).map fun a1 =>
    (codeSheetNameFor isAlnum cell.sheet, a1)

def bankContent (banks : Banks) (place : Text × Text) : Option Text :=
  (banks.get? place.1).bind fun bank => bank.get? place.2

theorem bankContent_bankCell (isAlnum : Char → Bool) (state : Banks × BankOwners × List BankWarning)
    (cell : ConvertedCell) (place : Text × Text) :
    bankContent (bankCell isAlnum state cell).1 place = (bankContent state.1 place).or
        (if bankPlace isAlnum cell = some place then some cell.convertedCode
          else none) := by
  obtain ⟨banks, owners, warnings⟩ := state
  obtain ⟨sheet, address⟩ := place
  unfold bankCell bankPlace
  simp only
  split
  · simp
  · cases normal : normalizeBankA1 cell.cell with
    | none => simp
    | some a1 =>
      simp only [Option.map_some, Option.some.injEq, Prod.mk.injEq]
      cases taken : ((banks.get? (codeSheetNameFor isAlnum cell.sheet)).getD
          PyDict.empty).get? a1 with
      | none =>
        simp only [bankContent, PyDict.get?_set]
        by_cases sameSheet : sheet = codeSheetNameFor isAlnum cell.sheet
        · subst sameSheet
          cases found : banks.get? (codeSheetNameFor isAlnum cell.sheet) with
          | none => simp [eq_comm]
          | some bank =>
            simp only [found, Option.getD_some] at taken
            by_cases sameA1 : address = a1
            · subst sameA1
              simp [taken]
            · simp [sameA1, Ne.symm sameA1]
        · simp [sameSheet, Ne.symm sameSheet]
      | some prev =>
        have kept : bankContent banks (sheet, address) = (bankContent banks (sheet, address)).or
              (if codeSheetNameFor isAlnum cell.sheet = sheet ∧ a1 = address
                then some cell.convertedCode else none) := by
          split
          · rename_i same
            obtain ⟨rfl, rfl⟩ := same
            have held : bankContent banks
                (codeSheetNameFor isAlnum cell.sheet, a1) = some prev := by
              cases found : banks.get? (codeSheetNameFor isAlnum cell.sheet) with
              | none => simp [found] at taken
              | some bank => simpa [bankContent, found] using taken
            rw [held]
            rfl
          · simp
        simp only
        split <;> exact kept

theorem bankContent_foldl (isAlnum : Char → Bool) (cells : List ConvertedCell)
    (state : Banks × BankOwners × List BankWarning) (place : Text × Text) :
    bankContent (cells.foldl (bankCell isAlnum) state).1 place = (bankContent state.1 place).or
        ((cells.find? fun cell => bankPlace isAlnum cell = some place).map
          ConvertedCell.convertedCode) := by
  induction cells generalizing state with
  | nil => simp
  | cons cell rest ih =>
    rw [foldl_cons, ih, bankContent_bankCell]
    by_cases here : bankPlace isAlnum cell = some place <;> simp [here]

theorem bankContent_collectScriptBank (isAlnum : Char → Bool)
    (report : ConversionReport) (place : Text × Text) :
    bankContent (collectScriptBank isAlnum report).1 place = (report.cells.find? fun cell =>
        bankPlace isAlnum cell = some place).map ConvertedCell.convertedCode :=
  bankContent_foldl isAlnum report.cells _ place

theorem get?_foldl_writeBank_other (entries : List (Text × PyDict Text Text))
    (book : SheetCells) (other : sheet ∉ entries.map Prod.fst) :
    (entries.foldl writeBank book).get? sheet = book.get? sheet := by
  induction entries generalizing book with
  | nil => rfl
  | cons entry rest ih =>
    rw [map_cons, mem_cons, not_or] at other
    rw [foldl_cons, ih _ other.2]
    unfold writeBank
    simp only
    split
    · rfl
    · rw [PyDict.get?_set, if_neg other.1]

theorem get?_writeBank {bank : PyDict Text Text} (found : bank.get? a1 = some code) :
    ∃ cells, (writeBank book (sheet, bank)).get? sheet = some cells ∧
      cells.get? a1 = some ([], code) := by
  have nonempty : bank.entries ≠ [] := by
    intro empty
    simp [PyDict.get?, empty, PyDict.lookup] at found
  unfold writeBank
  simp only [List.isEmpty_iff, nonempty, if_false, PyDict.get?_set, if_true]
  refine ⟨_, rfl, ?_⟩
  unfold writeBankCells
  rw [PyDict.get?_foldl_set (fun code => ([], code)) bank.distinct]
  rw [PyDict.get?] at found
  simp [found]

theorem get?_writeScriptBank (book : SheetCells) {banks : Banks}
    (found : bankContent banks place = some code) :
    ∃ cells, (writeScriptBank book banks).get? place.1 = some cells ∧
      cells.get? place.2 = some ([], code) := by
  obtain ⟨bank, bankFound, codeFound⟩ := Option.bind_eq_some_iff.mp found
  have member := PyDict.get?_eq_some_iff.mp bankFound
  obtain ⟨front, back, split⟩ := append_of_mem member
  have distinct := banks.distinct
  rw [split, map_append, nodup_append] at distinct
  have other : place.1 ∉ back.map Prod.fst :=
    (nodup_cons.mp distinct.2.1).1
  unfold writeScriptBank
  rw [split, foldl_append, foldl_cons, get?_foldl_writeBank_other back _ other]
  exact get?_writeBank codeFound

/-- The code of the cell stands in the formula itself, escaped for its
notation. -/
def CarriesInline (isAlnum : Char → Bool) (excelEscape : Bool)
    (cell : ConvertedCell) (formula : Text) : Prop :=
  ∃ dataSuffix, formula = "=PY(".toList ++ '"' ::
    ((if excelEscape then escapeCodeForExcelFormula cell.convertedCode
      else escapeCodeForFormula isAlnum cell.convertedCode) ++
      '"' :: dataSuffix)

theorem rebuildPythonFormulaWithCodeRef_bankRef (name : BankName isAlnum codeSheet)
    (plain : BankA1 a1 letters digits) (dataArgs : List Text) (separator : Text)
    (excelEscape : Bool) :
    ∃ tail, OpensArgs tail ∧ rebuildPythonFormulaWithCodeRef
          (bankRefText codeSheet (separator == [','] || excelEscape) a1) dataArgs
          separator (excelEscape || separator == [',']) =
        "=PY(".toList ++ (writtenRef codeSheet
          (separator == [','] || excelEscape) a1 ++ (tail ++ [')'])) := by
  have useExcel : ((excelEscape || separator == [',']) || separator == [',']) =
      (separator == [','] || excelEscape) := by
    cases excelEscape <;> simp
  obtain ⟨tail, suffix, opens⟩ := buildDataSuffix_split dataArgs separator
    (separator == [','] || excelEscape)
  refine ⟨tail, opens, ?_⟩
  unfold rebuildPythonFormulaWithCodeRef
  simp only [useExcel, suffix]
  cases separator == [','] || excelEscape with
  | false =>
    simp only [Bool.false_eq_true, if_false]
    rw [formatPyDataRange_bankRef name plain]
  | true =>
    simp only [if_true]
    rw [formatExcelDataRange_bankRef name plain]

theorem formulaForConvertedCell_cases (isAlnum : Char → Bool)
    (converted : cell.converted = true) (separator : Text) (excelEscape : Bool) :
    (bankPlace isAlnum cell = none ∧ CarriesInline isAlnum excelEscape cell
        (formulaForConvertedCell isAlnum cell separator excelEscape true)) ∨
    ∃ codeSheet a1 letters digits tail, bankPlace isAlnum cell = some (codeSheet, a1) ∧
        BankName isAlnum codeSheet ∧ BankA1 a1 letters digits ∧
        OpensArgs tail ∧ cell.convertedCode ≠ [] ∧
        formulaForConvertedCell isAlnum cell separator excelEscape true =
          "=PY(".toList ++ (writtenRef codeSheet
            (separator == [','] || excelEscape) a1 ++ (tail ++ [')'])) := by
  have inlined : CarriesInline isAlnum excelEscape cell
      (rebuildPythonFormulaWithData isAlnum cell.convertedCode cell.dataArgs
        separator excelEscape) := ⟨_, rfl⟩
  by_cases banked : cell.cell ≠ [] ∧ cell.sheet ≠ [] ∧ shouldInlineCode cell.convertedCode = false
  · obtain ⟨someCell, someSheet, long⟩ := banked
    have someCode : cell.convertedCode ≠ [] := by
      intro empty
      rw [empty] at long
      exact absurd long (by decide)
    have place : bankPlace isAlnum cell = (normalizeBankA1 cell.cell).map fun a1 =>
          (codeSheetNameFor isAlnum cell.sheet, a1) := by
      simp [bankPlace, converted, someCell, someSheet, long, someCode]
    have name := codeSheetNameFor_bankName isAlnum cell.sheet
    unfold formulaForConvertedCell codeBankRef
    simp only [isEmpty_eq_false_iff.mpr someCell, isEmpty_eq_false_iff.mpr someSheet, long,
      Bool.not_false, Bool.and_self, if_true]
    cases normal : normalizeBankA1 cell.cell with
    | none =>
      rw [normal] at place
      exact Or.inl ⟨place, inlined⟩
    | some a1 =>
      rw [normal] at place
      obtain ⟨letters, digits, plain⟩ := normalizeBankA1_cases normal
      obtain ⟨tail, opens, formula⟩ :=
        rebuildPythonFormulaWithCodeRef_bankRef name plain cell.dataArgs separator excelEscape
      exact Or.inr ⟨_, a1, letters, digits, tail, place, name, plain, opens, someCode, formula⟩
  · have notBanked : (!cell.cell.isEmpty && !cell.sheet.isEmpty &&
        !shouldInlineCode cell.convertedCode) = false := by
      by_contra all
      simp only [Bool.not_eq_false, Bool.and_eq_true, Bool.not_eq_true',
        isEmpty_eq_false_iff] at all
      exact banked ⟨all.1.1, all.1.2, all.2⟩
    refine Or.inl ⟨?_, ?_⟩
    · unfold bankPlace
      rw [if_pos]
      by_contra all
      simp only [Bool.not_eq_true, Bool.or_eq_false_iff, Bool.not_eq_false',
        isEmpty_eq_false_iff] at all
      exact banked ⟨all.1.1.2, all.1.2, all.2⟩
    · unfold formulaForConvertedCell
      simp only [Bool.true_and, notBanked, Bool.false_eq_true, if_false]
      exact inlined

def RunsOwnScripts (isAlnum : Char → Bool) (lower : Text → Text) (book : SheetCells)
    (report : ConversionReport) (separator : Text) (excelEscape : Bool) : Prop :=
  ∀ cell ∈ report.cells, cell.converted = true →
    let formula :=
      formulaForConvertedCell isAlnum cell separator excelEscape true
    CarriesInline isAlnum excelEscape cell formula ∨ bankedScript lower formula
          (writeScriptBank book (collectScriptBank isAlnum report).1) =
        some cell.convertedCode

/-- Banked cells have sheet names that need no quotes, and cells with one
place have one script. -/
def BanksApart (isAlnum : Char → Bool) (report : ConversionReport) : Prop :=
  ∀ cell ∈ report.cells, ∀ place, bankPlace isAlnum cell = some place →
    isAscii place.1 = true ∧ ∀ other ∈ report.cells, bankPlace isAlnum other = some place →
        other.convertedCode = cell.convertedCode

theorem not_carriesInline_of_ref {rest : Text} {excelBang : Bool}
    (name : BankName isAlnum codeSheet) :
    ¬ CarriesInline isAlnum excelEscape cell
      ("=PY(".toList ++ (writtenRef codeSheet excelBang a1 ++ rest)) := by
  rintro ⟨dataSuffix, same⟩
  have tails := append_cancel_left same
  obtain ⟨safe, split, _⟩ := name.start
  unfold writtenRef at tails
  split at tails
  · rw [split] at tails
    exact absurd (List.cons.inj tails).1 (by decide)
  · exact absurd (List.cons.inj tails).1 (by decide)

theorem bankPlace_converted (placed : bankPlace isAlnum cell = some place) :
    cell.converted = true := by
  by_contra notConverted
  simp [bankPlace, notConverted] at placed

theorem bankedScript_eq (lower : Text → Text) (book : SheetCells)
    {first : ConvertedCell} {tail : Text} (excelBang : Bool)
    (name : BankName isAlnum codeSheet) (plain : BankA1 a1 letters digits)
    (opens : OpensArgs tail) (ascii : isAscii codeSheet = true)
    (found : report.cells.find? (fun cell =>
      bankPlace isAlnum cell = some (codeSheet, a1)) = some first)
    (someCode : first.convertedCode ≠ []) :
    bankedScript lower ("=PY(".toList ++ (writtenRef codeSheet excelBang a1 ++ (tail ++ [')'])))
        (writeScriptBank book (collectScriptBank isAlnum report).1) =
      some first.convertedCode := by
  obtain ⟨dataSuffix, parsed⟩ :=
    parse_bareCode (name.writtenRef_bareCode plain ascii excelBang) opens
  have content : bankContent (collectScriptBank isAlnum report).1
      (codeSheet, a1) = some first.convertedCode := by
    rw [bankContent_collectScriptBank, found, Option.map_some]
  obtain ⟨cells, sheetFound, cellFound⟩ := get?_writeScriptBank book content
  rw [bankedScript, parsed, Option.bind_some]
  simp only [writtenRef, if_pos ascii]
  exact resolveCodeBankRef_bankRefText name plain excelBang lower sheetFound cellFound someCode

theorem bankedScript_quoted (lower : Text → Text) (book : SheetCells)
    (excelBang : Bool) (tail : Text) (quoted : isAscii codeSheet = false) :
    bankedScript lower ("=PY(".toList ++ (writtenRef codeSheet excelBang a1 ++ (tail ++ [')'])))
        book = none := by
  have shape : ∃ body, writtenRef codeSheet excelBang a1 ++ (tail ++ [')']) =
      '\'' :: body ++ [')'] := by
    refine ⟨codeSheet ++ '\'' :: (if excelBang then '!' else '.') :: (a1 ++ tail), ?_⟩
    simp [writtenRef, quoted]
  obtain ⟨body, bodyEq⟩ := shape
  rw [bankedScript, bodyEq]
  cases parsed : parsePythonFormula ("=PY(".toList ++ ('\'' :: body ++ [')'])) with
  | none => rfl
  | some parts => exact resolveCodeBankRef_quoted lower (parse_quotedRef_head parsed) book

theorem exists_first_of_bankPlace (member : cell ∈ report.cells)
    (placed : bankPlace isAlnum cell = some place) :
    ∃ first ∈ report.cells, bankPlace isAlnum first = some place ∧
      report.cells.find? (fun cell => bankPlace isAlnum cell = some place) = some first := by
  cases found : report.cells.find? fun cell =>
      bankPlace isAlnum cell = some place with
  | none =>
    have absent := List.find?_eq_none.mp found cell member
    simp [placed] at absent
  | some first =>
    refine ⟨first, mem_of_find?_eq_some found, ?_, rfl⟩
    simpa using List.find?_some found

theorem runsOwnScripts_of_banksApart (lower : Text → Text) (book : SheetCells)
    (separator : Text) (excelEscape : Bool) (apart : BanksApart isAlnum report) :
    RunsOwnScripts isAlnum lower book report separator excelEscape := by
  intro cell member converted formula
  rcases formulaForConvertedCell_cases isAlnum converted separator
    excelEscape with ⟨_, inlined⟩ | ⟨codeSheet, a1, letters, digits, tail,
      placed, name, plain, opens, someCode, formulaEq⟩
  · exact Or.inl inlined
  · obtain ⟨ascii, same⟩ := apart cell member _ placed
    obtain ⟨first, firstMember, firstPlaced, found⟩ :=
      exists_first_of_bankPlace member placed
    have sameCode := same first firstMember firstPlaced
    refine Or.inr ?_
    simp only [formula, formulaEq]
    rw [bankedScript_eq lower book _ name plain opens ascii found
      (by rw [sameCode]; exact someCode), sameCode]

theorem banksApart_of_runsOwnScripts {lower : Text → Text} {separator : Text}
    (runs : RunsOwnScripts isAlnum lower book report separator excelEscape) :
    BanksApart isAlnum report := by
  have banked : ∀ cell ∈ report.cells, ∀ place,
      bankPlace isAlnum cell = some place → isAscii place.1 = true ∧ ∀ first,
          report.cells.find? (fun cell =>
            bankPlace isAlnum cell = some place) = some first →
            cell.convertedCode = first.convertedCode := by
    intro cell member place placed
    have converted := bankPlace_converted placed
    have runsCell := runs cell member converted
    rcases formulaForConvertedCell_cases isAlnum converted separator
      excelEscape with ⟨notPlaced, _⟩ | ⟨codeSheet, a1, letters, digits, tail,
        placed', name, plain, opens, _, formulaEq⟩
    · rw [placed] at notPlaced
      cases notPlaced
    · rw [placed] at placed'
      cases placed'
      simp only [formulaEq] at runsCell
      rcases runsCell with inlined | script
      · exact absurd inlined (not_carriesInline_of_ref name)
      · have ascii : isAscii codeSheet = true := by
          by_contra quoted
          rw [bankedScript_quoted lower _ _ tail (by simpa using quoted)]
            at script
          cases script
        refine ⟨ascii, ?_⟩
        intro first found
        have firstPlaced : bankPlace isAlnum first = some (codeSheet, a1) := by
          simpa using List.find?_some found
        have someCode : first.convertedCode ≠ [] := by
          intro empty
          simp [bankPlace, empty] at firstPlaced
        rw [bankedScript_eq lower book _ name plain opens ascii found someCode] at script
        exact (Option.some.inj script).symm
  intro cell member place placed
  obtain ⟨first, _, _, found⟩ := exists_first_of_bankPlace member placed
  refine ⟨(banked cell member place placed).1, ?_⟩
  intro other otherMember otherPlaced
  rw [(banked other otherMember place otherPlaced).2 first found,
    (banked cell member place placed).2 first found]

def longScript (last : Char) : Text := List.replicate 1000 '#' ++ [last]

def regionCell (region : String) (last : Char) : ConvertedCell :=
  { sheet := "Quarterly results 2024 ".toList ++ region.toList
    cell := "H4".toList
    originalCode := longScript last
    convertedCode := longScript last }

end WriterAgent.Calc.ExcelPyConvert
