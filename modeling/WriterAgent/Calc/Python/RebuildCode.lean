import WriterAgent.Calc.Python.FormulaRoundTrip
import WriterAgent.Calc.Python.SanitizeCode

/-!
# Writing code into a new formula

`rebuild_python_formula_with_data` sanitizes the code, doubles its quotes and
appends the data arguments.
-/

namespace WriterAgent.Calc.Python

open PyText List

def escapeCodeForFormula (isAlnum : Char → Bool) (code : Text) : Text :=
  escapeCodeForExcelFormula (sanitizeInlinePyCode isAlnum code)

/-- `_sheet_needs_excel_quotes`.  A digit beyond ASCII is caught by the second
test. -/
def sheetNeedsExcelQuotes (sheet : Text) : Bool :=
  sheet.head?.any isAsciiDigit ||
    sheet.any fun c => !(c == '_' || isAsciiDigit c || isAsciiLetter c)

def formatExcelDataRange (rangeAddr : Text) : Text :=
  let addr := removeChar '$' (strip rangeAddr)
  let sheet := addr.takeWhile (· != '.')
  let rest := (addr.dropWhile (· != '.')).drop 1
  let addr :=
    if !addr.contains '!' && addr.contains '.' && !sheet.isEmpty &&
        !rest.isEmpty && !isA1CellPrefix sheet then sheet ++ '!' :: rest
    else addr
  if addr.contains '!' then
    let sheet := addr.takeWhile (· != '!')
    let rest := (addr.dropWhile (· != '!')).drop 1
    let sheet := rstripBy isAnyQuote (lstripBy isAnyQuote sheet)
    if sheetNeedsExcelQuotes sheet then '\'' :: sheet ++ '\'' :: '!' :: rest
    else sheet ++ '!' :: rest
  else addr

def buildDataSuffix (dataArgs : List Text) (separator : Text) (excelRanges : Bool) : Text :=
  let sep := if separator == [','] then ',' else ';'
  let fmt :=
    if excelRanges || sep == ',' then formatExcelDataRange
    else formatPyDataRange
  let args := (dataArgs.filter fun arg => !(strip arg).isEmpty).map fun arg => fmt (strip arg)
  if args.isEmpty then [')'] else sep :: (join sep args ++ [')'])

/-- `rebuild_python_formula_with_data`; the parsed parts it is also given play
no role. -/
def rebuildPythonFormulaWithData (isAlnum : Char → Bool) (code : Text)
    (dataArgs : List Text) (separator : Text) (excelEscape : Bool) : Text :=
  let escaped :=
    if excelEscape then escapeCodeForExcelFormula code
    else escapeCodeForFormula isAlnum code
  "=PY(".toList ++ '"' :: (escaped ++ '"' ::
    buildDataSuffix dataArgs separator (excelEscape || separator == [',']))

def rebuildPythonFormulaWithCodeRef (codeRef : Text) (dataArgs : List Text)
    (separator : Text) (excelRanges : Bool) : Text :=
  let useExcel := excelRanges || separator == [',']
  let fmt := if useExcel then formatExcelDataRange else formatPyDataRange
  "=PY(".toList ++ (fmt (strip codeRef) ++ buildDataSuffix dataArgs separator useExcel)

def isRangeChar (c : Char) : Bool :=
  isAsciiLetter c || isAsciiDigit c || c == '$' || c == ':'

/-- A cell or range address, `$` signs included. -/
structure RangeText (s : Text) : Prop where
  chars : ∀ c ∈ s, isRangeChar c = true
  visible : ∃ c ∈ s, c ≠ '$'

/-- What a sheet name holds: no quotes of any kind, no separators. -/
def isSheetChar (c : Char) : Bool :=
  !(isDataSeparator c || isAnyQuote c || c == '.' || c == '!' || c == '$') && normalizeQuote c == c

/-- A plain cell or range token, on a named sheet or not, in the notation of
Calc or of Excel.  White space around it does not matter. -/
inductive PlainRangeToken (token : Text) : Prop where
  | range (isRange : RangeText (strip token))
  | onSheet {dollar sheet range : Text} {separator : Char}
      (split : strip token = dollar ++ (sheet ++ separator :: range))
      (absolute : dollar = [] ∨ dollar = ['$'])
      (named : sheet ≠ []) (chars : ∀ c ∈ sheet, isSheetChar c = true)
      (mark : separator = '.' ∨ separator = '!')
      (isRange : RangeText range)

/-- The characters that the parser turns into straight quotes. -/
def Typographic (c : Char) : Prop := normalizeQuote c ≠ c

variable {c d : Char} {code tail front address image sheet s token : Text} {args : List Text}

theorem straightQuotes_of_isAscii (ascii : isAscii s = true) : StraightQuotes s := by
  intro c member
  have small : c.toNat < 128 := by simpa using all_eq_true.mp ascii c member
  unfold normalizeQuote
  split <;> first | rfl | omega

theorem straightQuotes_iff (s : Text) : StraightQuotes s ↔ ∀ c, Typographic c → c ∉ s := by
  constructor
  · intro straight c typographic member
    exact typographic (straight c member)
  · intro absent c member
    by_contra typographic
    exact absent c typographic member

section

variable (typographic : Typographic c)

include typographic

theorem Typographic.ne (straight : normalizeQuote d = d) : c ≠ d := by
  rintro rfl
  exact typographic straight

theorem Typographic.notMem (ascii : isAscii s = true) : c ∉ s :=
  fun member => typographic (straightQuotes_of_isAscii ascii c member)

theorem Typographic.isSpace_eq : isSpace c = false := by
  unfold Typographic normalizeQuote at typographic
  split at typographic
  all_goals first
    | (next code => simp [isSpace, code])
    | simp at typographic

theorem Typographic.notMem_spaces {spaces : Text}
    (blank : ∀ d ∈ spaces, isSpace d = true) : c ∉ spaces := by
  intro member
  have space := blank c member
  rw [typographic.isSpace_eq] at space
  simp at space

theorem mem_replaceText_iff {old new : Text} (nonempty : old ≠ [])
    (oldAscii : isAscii old = true) (newAscii : isAscii new = true) (s : Text) :
    c ∈ replaceText old new s ↔ c ∈ s := by
  unfold replaceText
  rw [mem_substitute_iff, drop_zero]
  intro before rest length replacement found
  split at found
  · rename_i matched
    obtain ⟨rfl, rfl⟩ : old.length = length ∧ new = replacement := by simpa using found
    obtain ⟨tail, rfl⟩ := isPrefixOf_iff_prefix.mp matched
    refine ⟨length_pos_of_ne_nil nonempty, ?_⟩
    rw [take_left]
    exact iff_of_false (typographic.notMem newAscii) (typographic.notMem oldAscii)
  · simp at found

theorem mem_xlTextCall_iff (s : Text) : c ∈ substitute xlTextCall none 0 s ↔ c ∈ s := by
  rw [mem_substitute_iff, drop_zero]
  intro before rest length replacement found
  unfold xlTextCall at found
  split at found
  · rename_i matched
    rw [Option.map_eq_some_iff] at found
    obtain ⟨opening, opened, pair⟩ := found
    obtain ⟨rfl, rfl⟩ := Prod.mk.inj pair
    obtain ⟨tail, rfl⟩ := isPrefixOf_iff_prefix.mp matched
    have five : ".text".toList.length = 5 := rfl
    obtain ⟨spaces, later, rfl, blank, rfl⟩ := openParenLength_cases opened
    refine ⟨by omega, iff_of_false (typographic.notMem (by decide)) ?_⟩
    rw [← five, take_length_add_append, take_length_add_append,
      mem_append, mem_append, not_or, not_or]
    exact ⟨typographic.notMem (by decide), typographic.notMem_spaces blank,
      show c ∉ ['('] from typographic.notMem (by decide)⟩
  · simp at found

theorem mem_rewriteTokenCalls_iff (isAlnum : Char → Bool) {rewriteInner : Text → Text}
    (nonempty : token ≠ []) (ascii : isAscii token = true)
    (inside : ∀ inner, c ∈ rewriteInner inner ↔ c ∈ inner) (s : Text) :
    c ∈ rewriteTokenCalls isAlnum token rewriteInner s ↔ c ∈ s := by
  unfold rewriteTokenCalls
  rw [mem_substitute_iff, drop_zero]
  intro before whole length replacement found
  obtain ⟨spaces, rest, rfl, blank, shape⟩ := tokenCall_cases found
  have positive : 0 < token.length := length_pos_of_ne_nil nonempty
  rcases shape with ⟨rfl, rfl⟩ | ⟨inner, after, rfl, rfl, rfl⟩
  · rw [take_length]
    exact ⟨by rw [length_append]; omega, Iff.rfl⟩
  · have split : token ++ (spaces ++ '(' :: (inner ++ ')' :: after)) =
        token ++ (spaces ++ '(' :: (inner ++ [')'])) ++ after := by
      simp
    rw [split, take_left, inside]
    have notToken := typographic.notMem ascii
    have notBlank := typographic.notMem_spaces blank
    have notOpen : c ≠ '(' := typographic.ne (by decide)
    have notClose : c ≠ ')' := typographic.ne (by decide)
    refine ⟨by rw [length_append]; omega, ?_⟩
    simp [notToken, notBlank, notOpen, notClose]

end

theorem Typographic.mem_wrapped_iff {c : Char} (typographic : Typographic c) {front back : Text}
    (frontAscii : isAscii front = true) (backAscii : isAscii back = true) (inner : Text) :
    c ∈ front ++ (inner ++ back) ↔ c ∈ inner := by
  have notFront := typographic.notMem frontAscii
  have notBack := typographic.notMem backAscii
  simp [notFront, notBack]

theorem mem_sanitizeInlinePyCode_iff (typographic : Typographic c)
    (isAlnum : Char → Bool) (code : Text) :
    c ∈ sanitizeInlinePyCode isAlnum code ↔ c ∈ code := by
  have inFloat : ∀ inner, c ∈ rewriteFloat inner ↔ c ∈ inner :=
    @Typographic.mem_wrapped_iff _ typographic ['('] _ (by decide) (by decide)
  have inInt : ∀ inner, c ∈ rewriteInt inner ↔ c ∈ inner :=
    @Typographic.mem_wrapped_iff _ typographic ['(', '('] _ (by decide) (by decide)
  have inStr : ∀ inner, c ∈ rewriteStr inner ↔ c ∈ inner :=
    typographic.mem_wrapped_iff (by decide +kernel) (by decide)
  unfold sanitizeInlinePyCode
  rw [mem_rewriteTokenCalls_iff typographic isAlnum (by decide) (by decide) inStr,
    mem_rewriteTokenCalls_iff typographic isAlnum (by decide) (by decide) inInt,
    mem_rewriteTokenCalls_iff typographic isAlnum (by decide) (by decide) inFloat,
    mem_xlTextCall_iff typographic,
    mem_replaceText_iff typographic (by decide) (by decide +kernel) (by decide +kernel)]

theorem straightQuotes_sanitize_iff (isAlnum : Char → Bool) (code : Text) :
    StraightQuotes (sanitizeInlinePyCode isAlnum code) ↔ StraightQuotes code := by
  rw [straightQuotes_iff, straightQuotes_iff]
  apply forall_congr'
  intro c
  apply imp_congr_right
  intro typographic
  rw [mem_sanitizeInlinePyCode_iff typographic]

theorem isRangeChar_toNat (plain : isRangeChar c = true) :
    (65 ≤ c.toNat ∧ c.toNat ≤ 90) ∨ (97 ≤ c.toNat ∧ c.toNat ≤ 122) ∨
      (48 ≤ c.toNat ∧ c.toNat ≤ 58) ∨ c.toNat = 36 := by
  simp only [isRangeChar, isAsciiLetter, isAsciiUpper, isAsciiLower, isAsciiDigit, Bool.or_eq_true,
    Bool.and_eq_true, decide_eq_true_eq, Char.le_def, beq_iff_eq] at plain
  rcases plain with (((upper | lower) | digit) | rfl) | rfl
  · exact Or.inl upper
  · exact Or.inr (Or.inl lower)
  · have bounds : 48 ≤ c.toNat ∧ c.toNat ≤ 57 := digit
    omega
  · decide
  · decide

theorem isSpace_of_isRangeChar (plain : isRangeChar c = true) : isSpace c = false := by
  have range := isRangeChar_toNat plain
  simp only [isSpace, Bool.or_eq_false_iff, Bool.and_eq_false_iff,
    decide_eq_false_iff_not, beq_eq_false_iff_ne]
  omega

theorem ne_of_isRangeChar (plain : isRangeChar c = true)
    (other : isRangeChar d = false) : c ≠ d := by
  rintro rfl
  simp [plain] at other

def isTokenChar (c : Char) : Bool :=
  !isDataSeparator c && c != '"' && normalizeQuote c == c

theorem isTokenChar_of_isRangeChar (plain : isRangeChar c = true) : isTokenChar c = true := by
  have straight : normalizeQuote c = c := by
    have range := isRangeChar_toNat plain
    unfold normalizeQuote
    split <;> first | rfl | omega
  simp [isTokenChar, isDataSeparator, straight, ne_of_isRangeChar plain (d := ';') rfl,
    ne_of_isRangeChar plain (d := ',') rfl,
    ne_of_isRangeChar plain (d := '"') rfl]

theorem isSheetChar_cases (plain : isSheetChar c = true) :
    isTokenChar c = true ∧ isAnyQuote c = false ∧ c ≠ '.' ∧ c ≠ '!' ∧ c ≠ '$' := by
  simp only [isSheetChar, Bool.and_eq_true, Bool.not_eq_true',
    Bool.or_eq_false_iff, beq_eq_false_iff_ne] at plain
  obtain ⟨⟨⟨⟨⟨separator, quote⟩, dot⟩, bang⟩, dollar⟩, straight⟩ := plain
  refine ⟨?_, quote, dot, bang, dollar⟩
  have notQuote : c ≠ '"' := by
    rintro rfl
    simp [isAnyQuote] at quote
  simp [isTokenChar, separator, notQuote, beq_iff_eq.mp straight]

/-- A written token: an optional sheet part in front of an address. -/
structure TokenImage (image front address : Text) : Prop where
  split : image = front ++ address
  sheetChars : ∀ c ∈ front, isTokenChar c = true
  sheetHead : ∀ c, front.head? = some c → isSpace c = false
  nonempty : address ≠ []
  addressChars : ∀ c ∈ address, isRangeChar c = true

theorem TokenImage.last {image front address : Text} (shape : TokenImage image front address) :
    ∀ c, image.getLast? = some c → isRangeChar c = true := by
  intro c last
  rw [shape.split, List.getLast?_append_of_ne_nil _ shape.nonempty] at last
  exact shape.addressChars c (mem_of_mem_getLast? last)

theorem TokenImage.chars (shape : TokenImage image front address) :
    ∀ c ∈ image, isTokenChar c = true := by
  intro c member
  rw [shape.split] at member
  rcases mem_append.mp member with inFront | inAddress
  · exact shape.sheetChars c inFront
  · exact isTokenChar_of_isRangeChar (shape.addressChars c inAddress)

theorem TokenImage.dataToken (shape : TokenImage image front address) : DataToken image := by
  refine ⟨?_, ⟨?_, ?_⟩, ?_⟩
  · rw [shape.split]
    simp [shape.nonempty]
  · intro c head
    rw [shape.split] at head
    by_cases empty : front = []
    · rw [empty] at head
      exact isSpace_of_isRangeChar (shape.addressChars c (mem_of_mem_head? head))
    · rw [List.head?_append_of_ne_nil _ empty] at head
      exact shape.sheetHead c head
  · intro c last
    exact isSpace_of_isRangeChar (shape.last c last)
  · intro c member
    have plain := shape.chars c member
    simp only [isTokenChar, Bool.and_eq_true, Bool.not_eq_true', bne_iff_ne] at plain
    exact plain.1

theorem TokenImage.straight (shape : TokenImage image front address) : StraightQuotes image := by
  intro c member
  have plain := shape.chars c member
  simp only [isTokenChar, Bool.and_eq_true, beq_iff_eq] at plain
  exact plain.2

theorem RangeText.removeChar {range : Text} (plain : RangeText range) :
    PyText.removeChar '$' range ≠ [] ∧ ∀ c ∈ PyText.removeChar '$' range, isRangeChar c = true := by
  obtain ⟨c, member, visible⟩ := plain.visible
  constructor
  · apply ne_nil_of_mem
    exact mem_filter.mpr ⟨member, by simpa using visible⟩
  · intro d inside
    exact plain.chars d (mem_filter.mp inside).1

theorem isA1CellPrefix_head (cell : isA1CellPrefix sheet = true)
    (noDollar : '$' ∉ sheet) : ∀ c, sheet.head? = some c → isSpace c = false := by
  intro c head
  obtain ⟨rest, rfl⟩ := List.head?_eq_some_iff.mp head
  have notDollar : c ≠ '$' := by
    rintro rfl
    exact noDollar mem_cons_self
  simp only [isA1CellPrefix, List.head?_cons, Bool.and_eq_true] at cell
  have letter : isAsciiLetter c = true := by
    by_contra other
    simp [notDollar, other] at cell
  exact isSpace_of_isRangeChar (by simp [isRangeChar, letter])

theorem quotePySheet_image (chars : ∀ c ∈ sheet, isTokenChar c = true)
    (nonempty : address ≠ []) (plain : ∀ c ∈ address, isRangeChar c = true) :
    ∃ front, TokenImage (quotePySheet sheet address) front address := by
  unfold quotePySheet
  split
  · refine ⟨'\'' :: (sheet ++ ['\'', '.']), by simp, ?_, ?_, nonempty, plain⟩
    · intro c member
      simp only [mem_cons, mem_append, not_mem_nil, or_false] at member
      rcases member with rfl | inSheet | rfl | rfl
      · decide
      · exact chars c inSheet
      · decide
      · decide
    · intro c head
      cases head
      decide
  · rename_i bare
    simp only [sheetNeedsQuotes, Bool.or_eq_true, not_or, Bool.not_eq_true, any_eq_false] at bare
    refine ⟨sheet ++ ['.'], by simp, ?_, ?_, nonempty, plain⟩
    · intro c member
      rcases mem_append.mp member with inSheet | dot
      · exact chars c inSheet
      · rw [mem_singleton] at dot
        subst dot
        decide
    · intro c head
      cases sheet with
      | nil => simp [isSheetIdentifier] at bare
      | cons d rest =>
        cases head
        simpa using bare.1 c mem_cons_self

theorem takeWhile_separator {separator : Char} (absent : separator ∉ sheet) (rest : Text) :
    (sheet ++ separator :: rest).takeWhile (· != separator) = sheet ∧
      (sheet ++ separator :: rest).dropWhile (· != separator) = separator :: rest := by
  have all : ∀ c ∈ sheet, (c != separator) = true := by
    intro c member
    rw [bne_iff_ne]
    rintro rfl
    exact absent member
  constructor
  · rw [takeWhile_append_of_pos all]
    simp
  · rw [dropWhile_append_of_pos all]
    simp

theorem formatPyDataRange_image (plain : PlainRangeToken token) :
    ∃ front address, TokenImage (formatPyDataRange token) front address := by
  cases plain with
  | range isRange =>
    obtain ⟨nonempty, chars⟩ := isRange.removeChar
    have absent : ∀ d, isRangeChar d = false → d ∉ removeChar '$' (strip token) := by
      intro d other member
      simp [chars d member] at other
    have same : formatPyDataRange token = removeChar '$' (strip token) := by
      simp [formatPyDataRange, absent '!' rfl, absent '.' rfl]
    rw [same]
    exact ⟨[], _, rfl, by simp, by simp, nonempty, chars⟩
  | @onSheet dollar sheet range separator split absolute named chars mark isRange =>
    obtain ⟨nonempty, rangeChars⟩ := isRange.removeChar
    have sheetAbsent : ∀ d, isSheetChar d = false → d ∉ sheet := by
      intro d other member
      simp [chars d member] at other
    have rangeAbsent : ∀ d, isRangeChar d = false → d ∉ removeChar '$' range := by
      intro d other member
      simp [rangeChars d member] at other
    have tokenChars : ∀ c ∈ sheet, isTokenChar c = true :=
      fun c member => (isSheetChar_cases (chars c member)).1
    have noQuote : ∀ c ∈ sheet, isAnyQuote c = false :=
      fun c member => (isSheetChar_cases (chars c member)).2.1
    have address : removeChar '$' (strip token) = sheet ++ separator :: removeChar '$' range := by
      have noDollar : removeChar '$' dollar = [] := by rcases absolute with rfl | rfl <;> rfl
      have sheetSame := removeChar_of_notMem (sheetAbsent '$' (by decide))
      have visible : separator ≠ '$' := by rcases mark with rfl | rfl <;> decide
      rw [split]
      simp only [removeChar, filter_append] at noDollar sheetSame ⊢
      rw [noDollar, sheetSame]
      simp [visible]
    rcases mark with rfl | rfl
    · obtain ⟨taken, dropped⟩ := takeWhile_separator
        (sheetAbsent '.' (by decide)) (removeChar '$' range)
      have noBang : '!' ∉ sheet ++ '.' :: removeChar '$' range := by
        simp [sheetAbsent '!' (by decide), rangeAbsent '!' rfl]
      have image : formatPyDataRange token =
          if isA1CellPrefix sheet then sheet ++ '.' :: removeChar '$' range
          else quotePySheet sheet (removeChar '$' range) := by
        have notQuoted : sheet.head? ≠ some '\'' := by
          intro head
          exact sheetAbsent '\'' (by decide) (mem_of_mem_head? head)
        simp only [formatPyDataRange, address, taken, dropped, quotePySheet]
        simp [noBang, named, nonempty, notQuoted]
      rw [image]
      split
      · rename_i cell
        refine ⟨sheet ++ ['.'], _, by simp, ?_, ?_, nonempty, rangeChars⟩
        · intro c member
          rcases mem_append.mp member with inSheet | dot
          · exact tokenChars c inSheet
          · rw [mem_singleton] at dot
            subst dot
            decide
        · intro c head
          rw [List.head?_append_of_ne_nil _ named] at head
          exact isA1CellPrefix_head cell (sheetAbsent '$' (by decide)) c head
      · obtain ⟨front, shape⟩ :=
          quotePySheet_image tokenChars nonempty rangeChars
        exact ⟨front, _, shape⟩
    · obtain ⟨taken, dropped⟩ := takeWhile_separator
        (sheetAbsent '!' (by decide)) (removeChar '$' range)
      have bare : rstripBy isAnyQuote (lstripBy isAnyQuote sheet) = sheet := by
        have front := @lstripBy_eq_self isAnyQuote sheet
          fun c head => noQuote c (mem_of_mem_head? head)
        rw [front]
        exact rstripBy_eq_self fun c last => noQuote c (mem_of_mem_getLast? last)
      have image : formatPyDataRange token = quotePySheet sheet (removeChar '$' range) := by
        simp only [formatPyDataRange, address, taken, dropped]
        simp [bare]
      rw [image]
      obtain ⟨front, shape⟩ :=
        quotePySheet_image tokenChars nonempty rangeChars
      exact ⟨front, _, shape⟩

def writtenArgs (args : List Text) : List Text :=
  (args.filter fun arg => !(strip arg).isEmpty).map formatPyDataRange

theorem buildDataSuffix_calc (args : List Text) :
    buildDataSuffix args [';'] false = dataSuffixText (writtenArgs args) := by
  have same : (fun arg => formatPyDataRange (strip arg)) =
      formatPyDataRange := by
    funext arg
    simp [formatPyDataRange]
  simp [buildDataSuffix, dataSuffixText, writtenArgs, same]

theorem rebuildPythonFormulaWithData_calc (isAlnum : Char → Bool) (code : Text) (args : List Text) :
    rebuildPythonFormulaWithData isAlnum code args [';'] false = "=PY(".toList ++
        ('"' :: (escapeCodeForExcelFormula (sanitizeInlinePyCode isAlnum code) ++
          '"' :: argTail (writtenArgs args)) ++ [')']) := by
  have calcNotation : (false || [';'] == [',']) = false := by decide
  rw [rebuildPythonFormulaWithData, calcNotation, buildDataSuffix_calc, dataSuffixText_eq]
  simp [escapeCodeForFormula]

theorem writtenArgs_image (plain : ∀ arg ∈ args, strip arg = [] ∨ PlainRangeToken arg) :
    ∀ token ∈ writtenArgs args, ∃ front address, TokenImage token front address := by
  intro token member
  obtain ⟨arg, kept, rfl⟩ := mem_map.mp member
  obtain ⟨inArgs, visible⟩ := mem_filter.mp kept
  rcases plain arg inArgs with blank | isToken
  · simp [blank] at visible
  · exact formatPyDataRange_image isToken

theorem readable_writtenArgs (plain : ∀ arg ∈ args, strip arg = [] ∨ PlainRangeToken arg) :
    Readable (writtenArgs args) := by
  have images := writtenArgs_image plain
  have lastPlain : ∀ c, (join ';' (writtenArgs args)).getLast? = some c → isRangeChar c = true := by
    intro c last
    rcases eq_nil_or_concat (writtenArgs args) with
      empty | ⟨front, token, split⟩
    · simp [empty] at last
    · rw [concat_eq_append] at split
      obtain ⟨_, _, shape⟩ := images token (by simp [split])
      rw [split, join_getLast? shape.dataToken.nonempty] at last
      exact shape.last c last
  constructor
  · intro token member
    obtain ⟨_, _, shape⟩ := images token member
    exact shape.dataToken
  · intro last
    exact absurd (lastPlain _ last) (by decide)
  · rintro ⟨_, last⟩
    exact absurd (lastPlain _ last) (by decide)

theorem onPrefix_written (straight : StraightQuotes code) (tailStraight : StraightQuotes tail) :
    OnPrefix "=PY(".toList ('"' :: (escapeCodeForExcelFormula code ++ '"' :: tail)) := by
  have opened : pyCallOpenEnd "=PY(".toList true = some 4 := by decide
  obtain ⟨_, isPrefix, head⟩ := isCallPrefix_of_pyCallOpenEnd opened
  exact ⟨isPrefix, head, straightQuotes_of_isAscii (by decide),
    straightQuotes_quotedBody straight tailStraight⟩

/-- What the writer promises: the formula parses, to the sanitized code and the
written arguments. -/
def RoundTrips (isAlnum : Char → Bool) (code : Text) (args : List Text) : Prop :=
  ∃ parts, parsePythonFormula (rebuildPythonFormulaWithData isAlnum code args [';'] false) =
      some parts ∧
    parts.code = sanitizeInlinePyCode isAlnum code ∧
    readDataArgs parts.dataSuffix = writtenArgs args

theorem roundTrips_of_straightQuotes (isAlnum : Char → Bool) (straight : StraightQuotes code)
    (plain : ∀ arg ∈ args, strip arg = [] ∨ PlainRangeToken arg) :
    RoundTrips isAlnum code args := by
  have readable := readable_writtenArgs plain
  have tokens : ∀ token ∈ writtenArgs args, StraightQuotes token := by
    intro token member
    obtain ⟨_, _, shape⟩ := writtenArgs_image plain token member
    exact shape.straight
  have sanitized := (straightQuotes_sanitize_iff isAlnum code).mpr straight
  have onPrefix := onPrefix_written sanitized (straightQuotes_argTail tokens)
  obtain ⟨parsed, _⟩ :=
    parse_quotedFormula onPrefix (isArgTail_of_dataTokens readable.plain)
  rw [← rebuildPythonFormulaWithData_calc] at parsed
  refine ⟨_, parsed, rfl, ?_⟩
  rw [← dataSuffixText_eq]
  exact readDataArgs_dataSuffixText readable

/-- **Writing and parsing.** With plain data arguments, a written formula is
read back as it was meant if and only if the code has no typographic quote. -/
theorem rebuildPythonFormulaWithData_roundTrips_iff (isAlnum : Char → Bool) (code : Text)
    {args : List Text} (plain : ∀ arg ∈ args, strip arg = [] ∨ PlainRangeToken arg) :
    RoundTrips isAlnum code args ↔ StraightQuotes code := by
  constructor
  · rintro ⟨parts, parsed, codeEq, _⟩
    have straight := (straightQuotes_of_parse parsed).2.1
    rw [codeEq] at straight
    exact (straightQuotes_sanitize_iff isAlnum code).mp straight
  · intro straight
    exact roundTrips_of_straightQuotes isAlnum straight plain

theorem rebuildPythonFormulaWithData_roundTrips_sheetRange :
    RoundTrips (fun _ => false) "x = str(data)".toList [" $Sheet1.A1:B2 ".toList, []] ↔
      StraightQuotes "x = str(data)".toList := by
  apply rebuildPythonFormulaWithData_roundTrips_iff
  intro arg member
  simp only [mem_cons, not_mem_nil, or_false] at member
  rcases member with rfl | rfl
  · exact Or.inr (@PlainRangeToken.onSheet _ ['$'] "Sheet1".toList "A1:B2".toList '.'
      (by decide) (by decide) (by decide) (by decide) (by decide)
      ⟨by decide, by decide⟩)
  · exact Or.inl rfl

/-- A string in typographic quotes cuts the written code argument short. -/
theorem not_roundTrips_typographicString :
    ¬ RoundTrips (fun _ => false) "x = \u201chi\u201d".toList ["A1".toList] := by
  have unparsed : parsePythonFormula (rebuildPythonFormulaWithData (fun _ => false)
        "x = \u201chi\u201d".toList ["A1".toList] [';'] false) = none := by
    decide +kernel
  rintro ⟨parts, parsed, _⟩
  rw [unparsed] at parsed
  cases parsed

/-- The text between the code argument and the last parenthesis, whatever the
arguments are. -/
def OpensArgs (tail : Text) : Prop :=
  tail = [] ∨ ∃ c rest, tail = c :: rest ∧ isDataSeparator c = true

theorem opensArgs_of_written {sep : Char}
    (separates : isDataSeparator sep = true) (written : List Text) :
    ∃ tail, (if written.isEmpty then [')'] else sep :: (join sep written ++ [')'])) =
        tail ++ [')'] ∧ OpensArgs tail := by
  split
  · exact ⟨[], rfl, Or.inl rfl⟩
  · exact ⟨_ :: _, rfl, Or.inr ⟨_, _, rfl, separates⟩⟩

theorem buildDataSuffix_split (dataArgs : List Text) (separator : Text) (excelRanges : Bool) :
    ∃ tail, buildDataSuffix dataArgs separator excelRanges = tail ++ [')'] ∧ OpensArgs tail := by
  have separates : isDataSeparator (if separator == [','] then ',' else ';') = true := by
    split <;> decide
  exact opensArgs_of_written separates _

/-- A code argument that is read as it stands, up to its end or a separator. -/
structure BareCode (code : Text) : Prop where
  nonempty : code ≠ []
  visible : ∀ c ∈ code, isSpace c = false
  plain : ∀ c ∈ code, c ≠ '(' ∧ c ≠ ')' ∧ isDataSeparator c = false
  unquoted : '"' ∉ code
  straight : StraightQuotes code

theorem BareCode.trimmed (bare : BareCode code) : Trimmed isSpace code :=
  ⟨fun c head => bare.visible c (mem_of_mem_head? head),
    fun c last => bare.visible c (mem_of_mem_getLast? last)⟩

theorem BareCode.scanDepth (plain : ∀ c ∈ code, c ≠ '(' ∧ c ≠ ')' ∧ isDataSeparator c = false) :
    Python.scanDepth 0 code = some 0 := by
  induction code with
  | nil => rfl
  | cons c rest ih =>
    obtain ⟨notOpen, notClose, notSeparator⟩ := plain c mem_cons_self
    rw [scanDepth_cons_of_neutral 0 rest notOpen notClose notSeparator]
    exact ih fun d member => plain d (mem_cons_of_mem _ member)

theorem OpensArgs.map_normalizeQuote (opens : OpensArgs tail) :
    OpensArgs (tail.map normalizeQuote) := by
  rcases opens with rfl | ⟨c, rest, rfl, separator⟩
  · exact Or.inl rfl
  · refine Or.inr ⟨normalizeQuote c, rest.map normalizeQuote, rfl, ?_⟩
    have either : c = ';' ∨ c = ',' := by simpa [isDataSeparator] using separator
    rcases either with rfl | rfl <;> decide

theorem OpensArgs.of_isPrefix (opens : OpensArgs tail) (isPrefix : front <+: tail) :
    OpensArgs front := by
  cases front with
  | nil => exact Or.inl rfl
  | cons c rest =>
    obtain ⟨after, rfl⟩ := isPrefix
    rcases opens with empty | ⟨d, later, split, separator⟩
    · simp at empty
    · obtain ⟨rfl, _⟩ := List.cons.inj split
      exact Or.inr ⟨c, rest, rfl, separator⟩

theorem parseUnquotedCodeArg_bare (bare : BareCode code) (opens : OpensArgs tail) :
    ∃ rest, strip (code ++ tail) = code ++ rest ∧ OpensArgs rest ∧
      parseUnquotedCodeArg (code ++ rest) = some code := by
  have front : code <+: strip (code ++ tail) := by
    have stripped := strip_isPrefix (prefix_append code tail)
    rw [strip_eq_self bare.trimmed] at stripped
    exact stripped bare.nonempty
  obtain ⟨rest, split⟩ := front
  have restOpens : OpensArgs rest := by
    have whole : code ++ rest <+: code ++ tail := by
      have visible : ∀ c, (code ++ tail).head? = some c → isSpace c = false := by
        intro c head
        rw [List.head?_append_of_ne_nil _ bare.nonempty] at head
        exact bare.trimmed.front c head
      rw [split, strip, lstripBy_eq_self visible]
      exact rstripBy_isPrefix _ _
    exact opens.of_isPrefix ((prefix_append_right_inj code).mp whole)
  refine ⟨rest, split.symm, restOpens, ?_⟩
  have trimmed : Trimmed isSpace (code ++ rest) := by
    rw [split]
    exact strip_trimmed _
  have notQuoted : (code ++ rest).head? ≠ some '"' := by
    rw [List.head?_append_of_ne_nil _ bare.nonempty]
    intro head
    exact bare.unquoted (mem_of_mem_head? head)
  have span : unquotedCodeSpan 0 (code ++ rest) = code := by
    rw [unquotedCodeSpan_append (BareCode.scanDepth bare.plain)]
    rcases restOpens with rfl | ⟨c, later, rfl, separator⟩
    · simp [unquotedCodeSpan]
    · rw [unquotedCodeSpan]
      · simp [separator]
      · rintro rfl
        simp [isDataSeparator] at separator
      · rintro _ rfl
        simp [isDataSeparator] at separator
      · rintro _ _ rfl
        simp [isDataSeparator] at separator
  rw [parseUnquotedCodeArg_of_trimmed trimmed (by simp [bare.nonempty])
    notQuoted, span, strip_eq_self bare.trimmed]

theorem normalize_written {body : Text} :
    normalizeFormulaString ("=PY(".toList ++ (body ++ [')'])) =
      "=PY(".toList ++ (body.map normalizeQuote ++ [')']) := by
  have front : "=PY(".toList.map normalizeQuote = "=PY(".toList := by decide
  have closing : normalizeQuote ')' = ')' := by decide
  have last : ("=PY(".toList ++ (body ++ [')'])).getLast? = some ')' := by
    rw [← append_assoc, List.getLast?_concat]
  rw [normalizeFormulaString_eq_map rfl last, map_append, front, map_append, map_singleton, closing]

theorem pyCallOpenEnd_written (rest : Text) :
    pyCallOpenEnd ("=PY(".toList ++ rest) true = some 4 := by
  have opened : pyCallOpenEnd "=PY(".toList true = some 4 := by decide
  exact (isCallPrefix_of_pyCallOpenEnd opened).2.1 rest

theorem parse_bareCode (bare : BareCode code) (opens : OpensArgs tail) : ∃ dataSuffix,
      parsePythonFormula ("=PY(".toList ++ (code ++ (tail ++ [')']))) =
        some ⟨"=PY(".toList, code, dataSuffix⟩ := by
  have codeSame : code.map normalizeQuote = code := by
    rw [map_congr_left (g := id) bare.straight, map_id]
  obtain ⟨rest, stripped, restOpens, found⟩ :=
    parseUnquotedCodeArg_bare bare opens.map_normalizeQuote
  have suffix : ∃ dataSuffix, dataSuffixOf (strip rest) = some dataSuffix := by
    have headVisible : OpensArgs (strip rest) := by
      rcases restOpens with rfl | ⟨c, later, rfl, separator⟩
      · exact Or.inl rfl
      · have single : strip [c] = [c] := by
          have either : c = ';' ∨ c = ',' := by simpa [isDataSeparator] using separator
          rcases either with rfl | rfl <;> decide
        have front := @strip_isPrefix [c] (c :: later) ⟨later, rfl⟩ (by simp [single])
        rw [single] at front
        obtain ⟨after, split⟩ := front
        exact Or.inr ⟨c, after, split.symm, separator⟩
    rcases headVisible with empty | ⟨c, later, split, separator⟩
    · exact ⟨_, by rw [empty]; rfl⟩
    · exact ⟨_, by rw [split, dataSuffixOf, if_pos separator]⟩
  have normal := @normalize_written (code ++ tail)
  have opened := pyCallOpenEnd_written (code ++ (tail.map normalizeQuote ++ [')']))
  rw [map_append, codeSame, append_assoc, append_assoc] at normal
  have notQuoted : (code ++ rest).head? ≠ some '"' := by
    rw [List.head?_append_of_ne_nil _ bare.nonempty]
    intro head
    exact bare.unquoted (mem_of_mem_head? head)
  have inner : ("=PY(".toList ++ (code ++ (tail.map normalizeQuote ++ [')']))).drop 4 =
        code ++ tail.map normalizeQuote ++ [')'] := by
    simp
  unfold parsePythonFormula
  simp only [normal, opened, inner, List.getLast?_append, List.getLast?_singleton, Option.some_or,
    bne_self_eq_false, Bool.false_eq_true, if_false, dropLast_concat, stripped]
  split
  · rename_i later quoted
    rw [quoted] at notQuoted
    simp at notQuoted
  · simp [found, suffix]

theorem parse_quotedRef_head {body : Text} {parts : PythonFormulaParts}
    (parsed : parsePythonFormula ("=PY(".toList ++ ('\'' :: body ++ [')'])) =
      some parts) : parts.code.head? = some '\'' := by
  have apostrophe : normalizeQuote '\'' = '\'' := by decide
  have normal := @normalize_written ('\'' :: body)
  rw [map_cons, apostrophe] at normal
  have opened := pyCallOpenEnd_written ('\'' :: body.map normalizeQuote ++ [')'])
  have inner : ("=PY(".toList ++ ('\'' :: body.map normalizeQuote ++ [')'])).drop 4 =
        '\'' :: body.map normalizeQuote ++ [')'] := rfl
  have single : strip ['\''] = ['\''] := by decide
  obtain ⟨rest, split⟩ := @strip_isPrefix ['\'']
    ('\'' :: body.map normalizeQuote) ⟨_, rfl⟩ (by simp [single])
  rw [single, singleton_append] at split
  unfold parsePythonFormula at parsed
  simp only [normal, opened, inner, List.getLast?_append, List.getLast?_singleton, Option.some_or,
    bne_self_eq_false, Bool.false_eq_true, if_false, dropLast_concat, ← split] at parsed
  have found : parseUnquotedCodeArg ('\'' :: rest) =
      some (strip ('\'' :: unquotedCodeSpan 0 rest)) := by
    have trimmed : Trimmed isSpace ('\'' :: rest) := by
      rw [split]
      exact strip_trimmed _
    rw [parseUnquotedCodeArg_of_trimmed trimmed (by simp) (by simp)]
    simp [unquotedCodeSpan, isDataSeparator]
  rw [found] at parsed
  obtain ⟨_, _, rfl⟩ := Option.map_eq_some_iff.mp parsed
  obtain ⟨after, front⟩ := @strip_isPrefix ['\'']
    ('\'' :: unquotedCodeSpan 0 rest) ⟨_, rfl⟩ (by simp [single])
  rw [← front]
  rfl

end WriterAgent.Calc.Python
