import WriterAgent.Calc.Python.FormulaEdit
import WriterAgent.Foundations.Split

/-!
# Reading data arguments back

The geometric pass and the importer read a formula's data arguments with
`parse_data_binding_text(format_data_binding_display(suffix))`.
-/

namespace WriterAgent.Calc.Python

open PyText List

def readDataArgs (dataSuffix : Text) : List Text :=
  parseDataBindingText (formatDataBindingDisplay dataSuffix)

/-- The shape of every token the reader returns. -/
structure DataToken (token : Text) : Prop where
  nonempty : token ≠ []
  trimmed : Trimmed isSpace token
  plain : ∀ c ∈ token, isDataSeparator c = false ∧ c ≠ '"'

variable {tokens : List Text} {token s : Text} {fuel : Nat}

theorem DataToken.notSeparator (plain : DataToken token) : ';' ∉ token ∧ ',' ∉ token := by
  constructor
  · intro member
    exact absurd (plain.plain _ member).1 (by decide)
  · intro member
    exact absurd (plain.plain _ member).1 (by decide)

theorem replaceChar_join {parts : List Text} (absent : ∀ part ∈ parts, ';' ∉ part) :
    replaceChar ';' ',' (join ';' parts) = join ',' parts := by
  have unchanged : ∀ part : Text, ';' ∉ part →
      replaceChar ';' ',' part = part := by
    intro part notIn
    rw [replaceChar, map_congr_left (g := id), map_id]
    intro c member
    have different : c ≠ ';' := fun equal => notIn (equal ▸ member)
    simp [different]
  induction parts with
  | nil => rfl
  | cons part rest ih =>
    have first := unchanged part (absent part mem_cons_self)
    have tail := ih fun later member =>
      absent later (mem_cons_of_mem _ member)
    cases rest with
    | nil => simpa using first
    | cons next rest =>
      rw [join_cons_cons, join_cons_cons, ← tail]
      simp only [replaceChar, map_append, map_cons] at first ⊢
      rw [first]
      simp

theorem displayRound_length_le (s : Text) : (displayRound s).length ≤ s.length :=
  ((rstripBy_isPrefix _ _).length_le.trans
    (lstripBy_isSuffix _ _).length_le).trans (strip_isInfix s).length_le

theorem displayRound_isInfix (s : Text) : displayRound s <:+: s :=
  ((rstripBy_isPrefix _ _).isInfix.trans (lstripBy_isSuffix _ _).isInfix).trans (strip_isInfix s)

theorem displayLoop_isInfix (fuel : Nat) (s : Text) : displayLoop fuel s <:+: s := by
  induction fuel generalizing s with
  | zero => exact infix_rfl
  | succ fuel ih =>
    rw [displayLoop]
    split
    · exact infix_rfl
    · exact (ih _).trans (displayRound_isInfix s)

theorem displayRound_displayLoop (enough : s.length < fuel) :
    displayRound (displayLoop fuel s) = displayLoop fuel s := by
  induction fuel generalizing s with
  | zero => omega
  | succ fuel ih =>
    rw [displayLoop]
    split
    · next fixed => exact fixed
    · rename_i changed
      apply ih
      have shorter : (displayRound s).length ≠ s.length := by
        intro equal
        exact changed ((displayRound_isInfix s).eq_of_length equal)
      have bound := displayRound_length_le s
      omega

theorem displayRound_formatDataBindingDisplay (dataSuffix : Text) :
    displayRound (formatDataBindingDisplay dataSuffix) = formatDataBindingDisplay dataSuffix :=
  displayRound_displayLoop (Nat.lt_succ_self _)

theorem displayRound_closed {sep : Char} {body : Text} (separator : isDataSeparator sep = true)
    (nonempty : body ≠ []) (front : ∀ c, body.head? = some c → isDataSeparator c = false) :
    displayRound (sep :: (body ++ [')'])) = rstripBy (· == ')') body := by
  have visible : isSpace sep = false := by
    have either : sep = ';' ∨ sep = ',' := by simpa [isDataSeparator] using separator
    rcases either with rfl | rfl <;> decide
  have stripped : strip (sep :: (body ++ [')'])) = sep :: (body ++ [')']) := by
    apply strip_eq_self
    constructor
    · intro c head
      cases head
      exact visible
    · intro c last
      rw [List.getLast?_cons_of_ne_nil (by simp),
        List.getLast?_append_of_ne_nil _ (by simp)] at last
      cases last
      decide
  have headAppend : ∀ c, (body ++ [')']).head? = some c → isDataSeparator c = false := by
    intro c head
    rw [List.head?_append_of_ne_nil _ nonempty] at head
    exact front c head
  rw [displayRound, stripped, lstripBy, dropWhile_cons_of_pos separator,
    ← lstripBy, lstripBy_eq_self headAppend, rstripBy_append_singleton]
  simp

theorem displayLoop_succ (fuel : Nat) (s : Text) :
    displayLoop (fuel + 1) s = displayLoop fuel (displayRound s) := by
  rw [displayLoop]
  split
  · rename_i fixed
    rw [fixed]
    cases fuel with
    | zero => rfl
    | succ fuel => rw [displayLoop, if_pos fixed]
  · rfl

theorem displayLoop_fixed (fixed : displayRound s = s) : displayLoop fuel s = s := by
  cases fuel with
  | zero => rfl
  | succ fuel => rw [displayLoop, if_pos fixed]

theorem isDataSeparator_of_isSpace {c : Char} (space : isSpace c = true) :
    isDataSeparator c = false ∧ (c == ')') = false := by
  have different : ∀ d, isSpace d = false → c ≠ d := by
    rintro d visible rfl
    simp [space] at visible
  simp [isDataSeparator, different ';' (by decide), different ',' (by decide),
    different ')' (by decide)]

theorem formatDataBindingDisplay_closed {sep : Char} {body : Text}
    (separator : isDataSeparator sep = true) (nonempty : strip body ≠ [])
    (front : ∀ c, (strip body).head? = some c → isDataSeparator c = false)
    (back : (strip body).getLast? ≠ some ')') :
    formatDataBindingDisplay (sep :: (body ++ [')'])) = strip body := by
  obtain ⟨before, after, split, allBefore, allAfter⟩ := strip_split body
  have backFalse : ∀ c, (strip body).getLast? = some c → (c == ')') = false := by
    intro c last
    rw [beq_eq_false_iff_ne]
    rintro rfl
    exact back last
  have bodyFront : ∀ c, body.head? = some c → isDataSeparator c = false := by
    intro c head
    rw [split] at head
    cases before with
    | nil =>
      rw [nil_append, List.head?_append_of_ne_nil _ nonempty] at head
      exact front c head
    | cons d before =>
      obtain rfl : d = c := by simpa using head
      exact (isDataSeparator_of_isSpace (allBefore d mem_cons_self)).1
  have bodyBack : ∀ c, body.getLast? = some c → (c == ')') = false := by
    intro c last
    rw [split] at last
    by_cases empty : after = []
    · rw [empty, append_nil, List.getLast?_append_of_ne_nil _ nonempty] at last
      exact backFalse c last
    · rw [List.getLast?_append_of_ne_nil _ empty] at last
      exact (isDataSeparator_of_isSpace (allAfter c (mem_of_getLast? last))).2
  have bodyNonempty : body ≠ [] := by
    rintro rfl
    exact nonempty strip_nil
  have firstRound : displayRound (sep :: (body ++ [')'])) = body := by
    rw [displayRound_closed separator bodyNonempty bodyFront, rstripBy_eq_self bodyBack]
  have secondRound : displayRound body = strip body := by
    rw [displayRound, lstripBy_eq_self front, rstripBy_eq_self backFalse]
  have lastRound : displayRound (strip body) = strip body := by
    rw [displayRound, strip_strip, lstripBy_eq_self front, rstripBy_eq_self backFalse]
  rw [formatDataBindingDisplay, displayLoop_succ, firstRound, length_cons,
    displayLoop_succ, secondRound, displayLoop_fixed lastRound]

theorem unbracket_isInfix (raw : Text) : unbracket raw <:+: raw := by
  unfold unbracket
  split
  · exact (strip_isInfix _).trans ((drop_suffix _ _).isInfix.trans ( dropLast_prefix _).isInfix)
  · exact infix_rfl

theorem mem_parseDataBindingText {text : Text} (member : token ∈ parseDataBindingText text) :
    DataToken token ∧ ∀ c ∈ token, c ∈ text := by
  unfold parseDataBindingText at member
  simp only at member
  split at member
  · simp at member
  · simp only [mem_filter, mem_map, Bool.not_eq_true', isEmpty_eq_false_iff, contains_eq_mem,
      decide_eq_false_iff_not] at member
    obtain ⟨⟨⟨piece, pieceMember, rfl⟩, nonempty⟩, noQuote⟩ := member
    have source : ∀ c ∈ strip piece, c ≠ ',' ∧ c ≠ ';' ∧ c ∈ text := by
      intro c inToken
      have ⟨notComma, inReplaced⟩ := not_of_mem_splitOn pieceMember
        ((strip_isInfix piece).subset inToken)
      obtain ⟨original, inRaw, image⟩ := mem_map.mp inReplaced
      by_cases semicolon : original = ';'
      · subst semicolon
        exact absurd image.symm notComma
      · simp only [beq_iff_eq, semicolon, if_false] at image
        subst image
        exact ⟨notComma, semicolon,
          (strip_isInfix text).subset ((unbracket_isInfix _).subset inRaw)⟩
    refine ⟨⟨nonempty, strip_trimmed piece, ?_⟩, ?_⟩
    · intro c inToken
      obtain ⟨notComma, notSemicolon, _⟩ := source c inToken
      refine ⟨by simp [isDataSeparator, notComma, notSemicolon], ?_⟩
      rintro rfl
      exact noQuote inToken
    · intro c inToken
      exact (source c inToken).2.2

theorem mem_readDataArgs {dataSuffix : Text} (member : token ∈ readDataArgs dataSuffix) :
    DataToken token ∧ ∀ c ∈ token, c ∈ dataSuffix := by
  obtain ⟨plain, source⟩ := mem_parseDataBindingText member
  exact ⟨plain, fun c inToken =>
    (displayLoop_isInfix _ _).subset (source c inToken)⟩

/-- Tokens that the reader gives back when they are written as a suffix: the
last one does not end like a nested call, and the whole is not bracketed. -/
structure Readable (tokens : List Text) : Prop where
  plain : ∀ token ∈ tokens, DataToken token
  notClosed : (join ';' tokens).getLast? ≠ some ')'
  notBracketed : ¬ ((join ';' tokens).head? = some '[' ∧ (join ';' tokens).getLast? = some ']')

def dataSuffixText (tokens : List Text) : Text :=
  if tokens.isEmpty then [')'] else ';' :: (join ';' tokens ++ [')'])

theorem join_trimmed (nonempty : tokens ≠ []) (plain : ∀ token ∈ tokens, DataToken token) :
    Trimmed isSpace (join ';' tokens) := by
  constructor
  · intro c head
    obtain ⟨first, rest, split⟩ := exists_cons_of_ne_nil nonempty
    have firstPlain := plain first (by simp [split])
    rw [join_head? split firstPlain.nonempty] at head
    exact firstPlain.trimmed.front c head
  · intro c last
    obtain ⟨front, final, split⟩ : ∃ front final, tokens = front ++ [final] :=
      ⟨tokens.dropLast, tokens.getLast nonempty, (dropLast_append_getLast nonempty).symm⟩
    have finalPlain := plain final (by simp [split])
    rw [split, join_getLast? finalPlain.nonempty] at last
    exact finalPlain.trimmed.back c last

theorem join_head_plain (plain : ∀ token ∈ tokens, DataToken token) :
    ∀ c, (join ';' tokens).head? = some c → isDataSeparator c = false := by
  intro c head
  by_cases empty : tokens = []
  · simp [empty] at head
  · obtain ⟨first, rest, split⟩ := exists_cons_of_ne_nil empty
    have firstPlain := plain first (by simp [split])
    rw [join_head? split firstPlain.nonempty] at head
    exact (firstPlain.plain c (mem_of_mem_head? head)).1

theorem parseDataBindingText_join (nonempty : tokens ≠ []) (readable : Readable tokens) :
    parseDataBindingText (join ';' tokens) = tokens := by
  have plain := readable.plain
  have bodyNonempty : join ';' tokens ≠ [] :=
    join_ne_nil nonempty fun token member => (plain token member).nonempty
  have unbracketed : unbracket (join ';' tokens) = join ';' tokens := by
    unfold unbracket
    rw [if_neg]
    simpa using readable.notBracketed
  have stripped : tokens.map strip = tokens := by
    rw [map_congr_left (g := id), map_id]
    intro token member
    exact strip_eq_self (plain token member).trimmed
  have pieces : (join ',' tokens).splitOn ',' = tokens :=
    splitOn_intercalate ',' (fun token member =>
      (plain token member).notSeparator.2) nonempty
  have keepNonempty : tokens.filter (fun part => !part.isEmpty) = tokens := by
    rw [filter_eq_self]
    intro token member
    simp [(plain token member).nonempty]
  have keepUnquoted : tokens.filter (fun part => !part.contains '"') = tokens := by
    rw [filter_eq_self]
    intro token member
    have absent : '"' ∉ token := fun inToken =>
      ((plain token member).plain _ inToken).2 rfl
    simp [absent]
  simp only [parseDataBindingText, strip_eq_self (join_trimmed nonempty plain), unbracketed]
  rw [if_neg (by simpa using bodyNonempty),
    replaceChar_join fun token member => (plain token member).notSeparator.1,
    pieces, stripped, keepNonempty, keepUnquoted]

/-- **Round trip.** A readable list of tokens written as a suffix is read
back unchanged. -/
theorem readDataArgs_dataSuffixText (readable : Readable tokens) :
    readDataArgs (dataSuffixText tokens) = tokens := by
  by_cases empty : tokens = []
  · subst empty
    decide
  · have plain := readable.plain
    have suffix : dataSuffixText tokens = ';' :: (join ';' tokens ++ [')']) := by
      simp [dataSuffixText, empty]
    have stripped := strip_eq_self (join_trimmed empty plain)
    have displayed := @formatDataBindingDisplay_closed ';' (join ';' tokens) (by decide)
    rw [stripped] at displayed
    rw [readDataArgs, suffix, displayed
      (join_ne_nil empty fun token member => (plain token member).nonempty)
      (join_head_plain plain) readable.notClosed,
      parseDataBindingText_join empty readable]

theorem countP_replaceChar (s : Text) :
    (replaceChar ';' ',' s).countP (· == ',') = s.countP isDataSeparator := by
  rw [replaceChar, countP_map]
  apply countP_congr
  intro c _
  by_cases semicolon : c = ';' <;> simp [semicolon, isDataSeparator]

theorem parseDataBindingText_length_le (text : Text) :
    (parseDataBindingText text).length ≤ text.countP isDataSeparator + 1 := by
  have bare : (unbracket (strip text)).countP isDataSeparator ≤ text.countP isDataSeparator := by
    exact ((unbracket_isInfix _).trans (strip_isInfix text)).sublist.countP_le
  unfold parseDataBindingText
  simp only
  split
  · simp
  · refine (length_filter_le _ _).trans ((length_filter_le _ _).trans ?_)
    rw [length_map, length_splitOn, countP_replaceChar]
    omega

theorem countP_join (plain : ∀ token ∈ tokens, DataToken token) :
    (join ';' tokens).countP isDataSeparator = tokens.length - 1 := by
  induction tokens with
  | nil => rfl
  | cons token rest ih =>
    have none : token.countP isDataSeparator = 0 := by
      rw [countP_eq_zero]
      intro c member
      simp [((plain token mem_cons_self).plain c member).1]
    have tail := ih fun later member =>
      plain later (mem_cons_of_mem _ member)
    cases rest with
    | nil => simpa using none
    | cons next rest =>
      have separator : isDataSeparator ';' = true := by decide
      rw [join_cons_cons, countP_append, none, countP_cons_of_pos separator, tail]
      simp

theorem readDataArgs_length_le (plain : ∀ token ∈ tokens, DataToken token) :
    (readDataArgs (dataSuffixText tokens)).length ≤ tokens.length := by
  by_cases empty : tokens = []
  · subst empty
    decide
  · have front := join_head_plain plain
    have bodyNonempty : join ';' tokens ≠ [] :=
      join_ne_nil empty fun token member => (plain token member).nonempty
    have suffix : dataSuffixText tokens = ';' :: (join ';' tokens ++ [')']) := by
      simp [dataSuffixText, empty]
    have round : displayRound (';' :: (join ';' tokens ++ [')'])) <:+: join ';' tokens := by
      rw [displayRound_closed (by decide) bodyNonempty front]
      exact (rstripBy_isPrefix _ _).isInfix
    have displayed : formatDataBindingDisplay (dataSuffixText tokens) <:+: join ';' tokens := by
      rw [suffix, formatDataBindingDisplay, displayLoop]
      split
      · rename_i fixed
        rw [fixed] at round
        exact round
      · exact (displayLoop_isInfix _ _).trans round
    have positive : 0 < tokens.length := length_pos_of_ne_nil empty
    have fewer := displayed.sublist.countP_le (p := isDataSeparator)
    rw [countP_join plain] at fewer
    have read := parseDataBindingText_length_le (formatDataBindingDisplay (dataSuffixText tokens))
    rw [readDataArgs]
    omega

end WriterAgent.Calc.Python
