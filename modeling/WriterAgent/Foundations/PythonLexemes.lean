import WriterAgent.Foundations.PythonLexer

/-!
# Lexemes

A text that has tokens is a chain of lexemes with blanks between them.  A
lexeme stays one when the text behind it is replaced by another text that
begins in the same way or with a parenthesis.
-/

namespace PyGrammar

open PyText List Option Bool

def isNumberChar (c : Char) : Bool :=
  isAsciiDigit c || c == '.' || c == 'e' || c == 'E' || c == '+' || c == '-'

def symbolTable : List (Text × Token) :=
  [(['*', '*'], .op .pow), (['*'], .op .mul), (['/', '/'], .op .floorDiv),
    (['/'], .op .div), (['%'], .op .mod), (['+'], .op .add), (['-'], .op .sub),
    (['=', '='], .op .eq), (['!', '='], .op .ne), (['<', '='], .op .le),
    (['<'], .op .lt), (['>', '='], .op .ge), (['>'], .op .gt),
    (['('], .lparen), ([')'], .rparen), (['['], .lbracket), ([']'], .rbracket),
    ([','], .comma)]

/-- The symbols that begin a longer one too, with its second character. -/
def longerSymbols : List (Char × Char × Token) :=
  [('*', '*', .op .mul), ('/', '/', .op .div), ('<', '=', .op .lt), ('>', '=', .op .gt)]

def isParen (c : Char) : Bool := c == '(' || c == ')'

/-- The text behind a lexeme may be replaced by the other text: they begin in
the same way, or the other one with a parenthesis, or it is empty. -/
def SameStart (later later' : Text) : Prop :=
  later'.head? = later.head? ∨ later'.head?.all isParen = true

variable {later s rest text word later' : Text} {token : Token} {c : Char} {tokens : List Token}

theorem isParen_cases (paren : isParen c = true) : c = '(' ∨ c = ')' := by
  simpa [isParen] using paren

theorem not_isWordChar_of_isParen (paren : isParen c = true) : isWordChar c = false := by
  rcases isParen_cases paren with rfl | rfl <;> rfl

theorem endsWord_of_paren (opening : rest.head?.all isParen = true) : EndsWord rest := by
  cases rest with
  | nil => rfl
  | cons c tail => exact not_isWordChar_of_isParen opening

theorem SameStart.endsWord (same : SameStart later later')
    (ends : EndsWord later) : EndsWord later' := by
  rcases same with same | opening
  · rw [EndsWord, same]
    exact ends
  · exact endsWord_of_paren opening

/-- The lexeme that makes up the token, before the text. -/
inductive Lexeme : Text → Token → Text → Prop where
  | word {c : Char} {word later : Text} {token : Token} :
      isNameStart c = true → (∀ d ∈ word, isWordChar d = true) →
      wordToken (c :: word) = some token → EndsWord later →
      Lexeme (c :: word) token later
  | number {text later : Text} : (∀ d ∈ text, isNumberChar d = true) → text ≠ [] → EndsWord later →
      (∀ later', EndsWord later' → lexOne (text ++ later') = some (.number text, later')) →
      Lexeme text (.number text) later
  | symbol {text later : Text} {token : Token} : (text, token) ∈ symbolTable →
      (∀ later', SameStart later later' → lexOne (text ++ later') = some (token, later')) →
      Lexeme text token later

theorem lexOne_word (starts : isNameStart c = true) (all : ∀ d ∈ word, isWordChar d = true)
    (known : wordToken (c :: word) = some token) (ends : EndsWord later) :
    lexOne (c :: word ++ later) = some (token, later) := by
  have whole : ∀ d ∈ c :: word, isWordChar d = true := by
    intro d member
    rcases mem_cons.mp member with rfl | within
    · simp [isWordChar, isNamePart, starts]
    · exact all d within
  obtain ⟨taken, dropped⟩ := takeWhile_append_of_all whole ends
  rw [lexOne, if_pos (by simpa using starts), lexWord, taken, dropped, known]
  rfl

/-- What may follow the mantissa of a number. -/
def EndsMantissa (rest : Text) : Prop :=
  rest.head?.any isAsciiDigit = false ∧ rest.head? ≠ some '.'

theorem EndsWord.endsMantissa (ends : EndsWord rest) : EndsMantissa rest := by
  refine ⟨not_isAsciiDigit_of_endsWord ends, ?_⟩
  rcases endsWord_cases ends with rfl | ⟨c, later, rfl, point, _⟩
  · exact nofun
  · simpa using point

theorem isNumberChar_of_digit (digit : isAsciiDigit c = true) : isNumberChar c = true := by
  simp [isNumberChar, digit]

theorem takeWhile_digits (s : Text) : ∀ c ∈ s.takeWhile isAsciiDigit, isAsciiDigit c = true :=
  fun _ member => mem_takeWhile_imp member

theorem head?_dropWhile (keep : Char → Bool) (s : Text) :
    (s.dropWhile keep).head?.any keep = false := by
  induction s with
  | nil => rfl
  | cons c rest ih =>
    by_cases kept : keep c = true
    · rw [dropWhile_cons_of_pos kept]
      exact ih
    · rw [dropWhile_cons_of_neg kept]
      simpa using kept

theorem takeMantissa_spec (s : Text) : s = (takeMantissa s).1 ++ (takeMantissa s).2 ∧
      (∀ c ∈ (takeMantissa s).1, isNumberChar c = true) ∧
      ∀ rest', EndsMantissa rest' → takeMantissa ((takeMantissa s).1 ++ rest') =
          ((takeMantissa s).1, rest') := by
  have digits := takeWhile_digits s
  by_cases point : ∃ rest, s.dropWhile isAsciiDigit = '.' :: rest
  · obtain ⟨rest, found⟩ := point
    have shape : takeMantissa s = (s.takeWhile isAsciiDigit ++ '.' :: rest.takeWhile isAsciiDigit,
          rest.dropWhile isAsciiDigit) := by
      simp only [takeMantissa, found]
    rw [shape]
    have fraction := takeWhile_digits rest
    refine ⟨?_, ?_, ?_⟩
    · rw [append_assoc, cons_append, takeWhile_append_dropWhile, ← found,
        takeWhile_append_dropWhile]
    · intro d member
      rcases mem_append.mp member with inWhole | later
      · exact isNumberChar_of_digit (digits d inWhole)
      · rcases mem_cons.mp later with rfl | inFraction
        · rfl
        · exact isNumberChar_of_digit (fraction d inFraction)
    · intro rest' ends
      have stops : ('.' :: (rest.takeWhile isAsciiDigit ++ rest')).head?.any
          isAsciiDigit = false := rfl
      obtain ⟨taken, dropped⟩ := takeWhile_append_of_all digits stops
      obtain ⟨taken', dropped'⟩ := takeWhile_append_of_all fraction ends.1
      simp only [append_assoc, cons_append, takeMantissa, taken, dropped, taken', dropped']
  · have shape : takeMantissa s = (s.takeWhile isAsciiDigit, s.dropWhile isAsciiDigit) := by
      unfold takeMantissa
      split
      · next found => exact absurd ⟨_, found⟩ point
      · rfl
    rw [shape]
    refine ⟨takeWhile_append_dropWhile.symm,
      fun c member => isNumberChar_of_digit (digits c member), ?_⟩
    intro rest' ends
    obtain ⟨taken, dropped⟩ := takeWhile_append_of_all digits ends.1
    simp only [takeMantissa, taken, dropped]
    split
    · exact absurd rfl ends.2
    · rfl

theorem takeExponent_of_endsWord (ends : EndsWord rest) : takeExponent rest = ([], rest) := by
  rcases endsWord_cases ends with rfl | ⟨c, later, rfl, _, small, large, _⟩
  · rfl
  · simp only [takeExponent]
    rw [if_neg]
    rintro (rfl | rfl)
    · exact small rfl
    · exact large rfl

theorem takeExponent_marked {sign : Text} (letter : c = 'e' ∨ c = 'E')
    (isSign : sign ∈ [[], ['+'], ['-']]) (digit : rest.head?.any isAsciiDigit = true) :
    takeExponent (c :: (sign ++ rest)) =
      (c :: (sign ++ rest.takeWhile isAsciiDigit), rest.dropWhile isAsciiDigit) := by
  simp at isSign
  rcases isSign with rfl | rfl | rfl
  · cases rest with
    | nil => cases digit
    | cons d more =>
      have isDigit : isAsciiDigit d = true := digit
      have unsigned : ¬ ((d = '+' ∨ d = '-') ∧ more.head?.any isAsciiDigit = true) := by
        rintro ⟨rfl | rfl, _⟩ <;> exact absurd isDigit (by decide)
      simp only [nil_append, takeExponent, if_pos letter, if_neg unsigned, if_pos isDigit]
  · simp [takeExponent, letter, digit]
  · simp [takeExponent, letter, digit]

theorem takeExponent_cases (s : Text) : takeExponent s = ([], s) ∨
    ∃ c sign rest, s = c :: (sign ++ rest) ∧ (c = 'e' ∨ c = 'E') ∧
      sign ∈ [[], ['+'], ['-']] ∧ rest.head?.any isAsciiDigit = true := by
  unfold takeExponent
  split
  · exact .inl rfl
  · split_ifs with letter
    · split
      · exact .inl rfl
      · next sign more =>
        split_ifs with signed digit
        · exact .inr ⟨_, [sign], more, rfl, letter, by simpa using signed.1, signed.2⟩
        · exact .inr ⟨_, [], sign :: more, rfl, letter, by simp, digit⟩
        · exact .inl rfl
    · exact .inl rfl

theorem takeExponent_spec {exponent : Text}
    (taken : takeExponent s = (exponent, later)) (ends : EndsWord later) :
    s = exponent ++ later ∧ (∀ c ∈ exponent, isNumberChar c = true) ∧
      ∀ later', EndsWord later' → takeExponent (exponent ++ later') = (exponent, later') ∧
          EndsMantissa (exponent ++ later') := by
  rcases takeExponent_cases s with none | ⟨c, sign, rest, rfl, letter, isSign, digit⟩
  · obtain ⟨rfl, rfl⟩ := Prod.mk.inj (none.symm.trans taken)
    exact ⟨rfl, fun c member => absurd member not_mem_nil,
      fun later' ends' => ⟨takeExponent_of_endsWord ends', ends'.endsMantissa⟩⟩
  · obtain ⟨rfl, rfl⟩ := Prod.mk.inj ((takeExponent_marked letter isSign digit).symm.trans taken)
    have digits := takeWhile_digits rest
    refine ⟨by simp [takeWhile_append_dropWhile], ?_, fun later' ends' => ⟨?_, ?_⟩⟩
    · intro d member
      rcases mem_cons.mp member with rfl | member
      · rcases letter with rfl | rfl <;> rfl
      · rcases mem_append.mp member with inSign | inDigits
        · simp at isSign
          rcases isSign with rfl | rfl | rfl
          · cases inSign
          · rw [mem_singleton.mp inSign]; rfl
          · rw [mem_singleton.mp inSign]; rfl
        · exact isNumberChar_of_digit (digits d inDigits)
    · obtain ⟨taken, dropped⟩ := takeWhile_append_of_all digits (not_isAsciiDigit_of_endsWord ends')
      have starts : (rest.takeWhile isAsciiDigit ++ later').head?.any isAsciiDigit = true := by
        cases rest with
        | nil => cases digit
        | cons d more =>
          rw [takeWhile_cons_of_pos (show isAsciiDigit d = true from digit)]
          exact digit
      rw [cons_append, append_assoc, takeExponent_marked letter isSign starts, taken, dropped]
    · rcases letter with rfl | rfl <;> exact ⟨rfl, nofun⟩

theorem startsNumber_of_digit (digit : isAsciiDigit c = true) (rest : Text) :
    startsNumber (c :: rest) = true := by
  unfold startsNumber
  split
  · rename_i heads
    obtain ⟨rfl, _⟩ := List.cons.inj heads
    exact absurd digit (by decide)
  · rename_i heads
    obtain ⟨rfl, _⟩ := List.cons.inj heads
    exact digit
  · next heads => exact absurd heads nofun

theorem startsNumber_mantissa (starts : startsNumber s = true) (rest : Text) :
    startsNumber ((takeMantissa s).1 ++ rest) = true := by
  cases s with
  | nil => exact absurd starts false_ne_true
  | cons c tail =>
    by_cases digit : isAsciiDigit c = true
    · have first : ∃ more, (takeMantissa (c :: tail)).1 = c :: more := by
        unfold takeMantissa
        simp only [takeWhile_cons_of_pos digit]
        split <;> exact ⟨_, rfl⟩
      obtain ⟨more, same⟩ := first
      rw [same]
      exact startsNumber_of_digit digit _
    · unfold startsNumber at starts
      split at starts
      · rename_i d later heads
        obtain ⟨rfl, rfl⟩ := List.cons.inj heads
        have shape : (takeMantissa ('.' :: d :: later)).1 =
            '.' :: d :: later.takeWhile isAsciiDigit := by
          unfold takeMantissa
          rw [dropWhile_cons_of_neg digit, takeWhile_cons_of_neg digit]
          simp only [nil_append, takeWhile_cons_of_pos starts]
        rw [shape]
        exact starts
      · rename_i heads
        obtain ⟨rfl, _⟩ := List.cons.inj heads
        exact absurd starts digit
      · next heads => exact absurd heads nofun

theorem lexNumber_lexeme (starts : s.head?.any isNameStart = false) (number : startsNumber s = true)
    (lexed : lexNumber s = some (token, later)) :
    ∃ text, s = text ++ later ∧ Lexeme text token later := by
  obtain ⟨split, chars, again⟩ := takeMantissa_spec s
  have begins := startsNumber_mantissa number
  unfold lexNumber at lexed
  cases found : takeMantissa s with
  | mk mantissa middle =>
    rw [found] at split chars again begins
    cases found' : takeExponent middle with
    | mk exponent tail =>
      simp only [found, found'] at lexed
      split at lexed
      · cases lexed
      · rename_i ends
        obtain ⟨rfl, rfl⟩ := Prod.mk.inj (some.inj lexed)
        have ends : EndsWord tail := by simpa [EndsWord] using ends
        obtain ⟨split', chars', again'⟩ := takeExponent_spec found' ends
        have nonempty : mantissa ≠ [] := by
          rintro rfl
          exact absurd (begins []) false_ne_true
        refine ⟨mantissa ++ exponent, ?_, ?_⟩
        · rw [append_assoc, ← split', ← split]
        · apply Lexeme.number
          · intro d member
            rcases mem_append.mp member with within | within
            · exact chars d within
            · exact chars' d within
          · exact append_ne_nil_of_left_ne_nil nonempty _
          · exact ends
          · intro later' ends'
            obtain ⟨taken, endsMantissa⟩ := again' later' ends'
            have noName : ((mantissa ++ exponent) ++ later').head?.any isNameStart = false := by
              cases mantissa with
              | nil => exact absurd rfl nonempty
              | cons c more =>
                rw [split] at starts
                exact starts
            rw [lexOne, if_neg (by rw [noName]; exact false_ne_true),
              append_assoc, if_pos (begins _), lexNumber]
            simp only [again _ endsMantissa, taken]
            rw [if_neg]
            rw [ends']
            exact false_ne_true

theorem SameStart.head?_ne (same : SameStart later later')
    (other : later.head? ≠ some c) (visible : isParen c = false) :
    later'.head? ≠ some c := by
  rcases same with same | opening
  · rw [same]
    exact other
  · intro equal
    rw [equal] at opening
    exact false_ne_true (visible.symm.trans opening)

theorem lexSymbol_alone {next : Char} (entry : (c, next, token) ∈ longerSymbols)
    (alone : later.head? ≠ some next) : lexSymbol (c :: later) = some (token, later) := by
  simp [longerSymbols] at entry
  cases later with
  | nil =>
    rcases entry with ⟨rfl, rfl, rfl⟩ | ⟨rfl, rfl, rfl⟩ | ⟨rfl, rfl, rfl⟩ | ⟨rfl, rfl, rfl⟩ <;> rfl
  | cons d tail =>
    have different : d ≠ next := by simpa using alone
    rcases entry with ⟨rfl, rfl, rfl⟩ | ⟨rfl, rfl, rfl⟩ | ⟨rfl, rfl, rfl⟩ | ⟨rfl, rfl, rfl⟩ <;>
      simp [lexSymbol, different]

theorem longerSymbols_facts : ∀ entry ∈ longerSymbols,
    ([entry.1], entry.2.2) ∈ symbolTable ∧ isParen entry.2.1 = false := by
  decide

theorem lexSymbol_lexeme (lexed : lexSymbol s = some (token, later)) :
    ∃ text, s = text ++ later ∧ (text, token) ∈ symbolTable ∧ ∀ later', SameStart later later' →
        lexSymbol (text ++ later') = some (token, later') := by
  have single : ∀ {c next : Char} {token : Token},
      (∀ tail, later = next :: tail → False) → (c, next, token) ∈ longerSymbols →
      ∃ text, c :: later = text ++ later ∧ (text, token) ∈ symbolTable ∧
        ∀ later', SameStart later later' → lexSymbol (text ++ later') = some (token, later') := by
    intro c next token no entry
    obtain ⟨known, visible⟩ := longerSymbols_facts _ entry
    have alone : later.head? ≠ some next := by
      cases later with
      | nil => exact nofun
      | cons d tail => simpa using fun same => no tail (by rw [same])
    exact ⟨[c], rfl, known, fun later' same =>
      lexSymbol_alone entry (same.head?_ne alone visible)⟩
  unfold lexSymbol at lexed
  split at lexed
  case h_19 => exact absurd lexed nofun
  all_goals cases lexed
  · exact ⟨['*', '*'], rfl, by decide, fun _ _ => rfl⟩
  · exact single ‹_› (by decide)
  · exact ⟨['/', '/'], rfl, by decide, fun _ _ => rfl⟩
  · exact single ‹_› (by decide)
  · exact ⟨['%'], rfl, by decide, fun _ _ => rfl⟩
  · exact ⟨['+'], rfl, by decide, fun _ _ => rfl⟩
  · exact ⟨['-'], rfl, by decide, fun _ _ => rfl⟩
  · exact ⟨['=', '='], rfl, by decide, fun _ _ => rfl⟩
  · exact ⟨['!', '='], rfl, by decide, fun _ _ => rfl⟩
  · exact ⟨['<', '='], rfl, by decide, fun _ _ => rfl⟩
  · exact single ‹_› (by decide)
  · exact ⟨['>', '='], rfl, by decide, fun _ _ => rfl⟩
  · exact single ‹_› (by decide)
  · exact ⟨['('], rfl, by decide, fun _ _ => rfl⟩
  · exact ⟨[')'], rfl, by decide, fun _ _ => rfl⟩
  · exact ⟨['['], rfl, by decide, fun _ _ => rfl⟩
  · exact ⟨[']'], rfl, by decide, fun _ _ => rfl⟩
  · exact ⟨[','], rfl, by decide, fun _ _ => rfl⟩

theorem symbolTable_facts : ∀ entry ∈ symbolTable, entry.1 ≠ [] ∧
    (∀ c ∈ entry.1, isWordChar c = false ∧ isBlank c = false ∧ isAsciiDigit c = false ∧ c ≠ '.') ∧
    (∀ c ∈ entry.1, isParen c = true → entry.1 = [c]) := by
  decide

theorem lexOne_symbol (entry : (text, token) ∈ symbolTable) (later : Text) :
    lexOne (text ++ later) = lexSymbol (text ++ later) := by
  obtain ⟨nonempty, chars, _⟩ := symbolTable_facts _ entry
  cases text with
  | nil => exact absurd rfl nonempty
  | cons c rest =>
    obtain ⟨noWord, _, noDigit, noPoint⟩ := chars c mem_cons_self
    have noName : isNameStart c = false := by
      simp only [isWordChar, isNamePart, or_eq_false_iff] at noWord
      exact noWord.1.1
    have noNumber : startsNumber (c :: rest ++ later) = false := by
      unfold startsNumber
      split
      · next heads => exact absurd (List.cons.inj heads).1 noPoint
      · rename_i heads
        obtain ⟨rfl, _⟩ := List.cons.inj heads
        exact noDigit
      · rfl
    rw [lexOne, noNumber]
    simp [noName]

theorem lexOne_lexeme (lexed : lexOne s = some (token, later)) :
    ∃ text, s = text ++ later ∧ Lexeme text token later := by
  unfold lexOne at lexed
  split_ifs at lexed
  · rename_i starts
    cases s with
    | nil => simp at starts
    | cons c rest =>
      have starts : isNameStart c = true := by simpa using starts
      have first : isWordChar c = true := by simp [isWordChar, isNamePart, starts]
      obtain ⟨found, known, same⟩ := map_eq_some_iff.mp lexed
      obtain ⟨rfl, rfl⟩ := Prod.mk.inj same
      rw [takeWhile_cons_of_pos first] at known
      refine ⟨c :: rest.takeWhile isWordChar, ?_, ?_⟩
      · rw [dropWhile_cons_of_pos first, cons_append, takeWhile_append_dropWhile]
      · exact .word starts (fun d member => mem_takeWhile_imp member)
          known (head?_dropWhile isWordChar (c :: rest))
  · rename_i starts number
    exact lexNumber_lexeme (by simpa using starts) number lexed
  · obtain ⟨text, split, entry, again⟩ := lexSymbol_lexeme lexed
    refine ⟨text, split, .symbol entry fun later' same => ?_⟩
    rw [lexOne_symbol entry]
    exact again later' same

namespace Lexeme

variable {text later later' : Text} {token : Token}

theorem lexOne_eq (lexeme : Lexeme text token later) (same : SameStart later later') :
    lexOne (text ++ later') = some (token, later') := by
  cases lexeme with
  | word starts all known ends => exact lexOne_word starts all known (same.endsWord ends)
  | number chars nonempty ends again => exact again later' (same.endsWord ends)
  | symbol entry again => exact again later' same

theorem ne_nil (lexeme : Lexeme text token later) : text ≠ [] := by
  cases lexeme with
  | word starts all known ends => exact cons_ne_nil _ _
  | number chars nonempty ends again => exact nonempty
  | symbol entry again => exact (symbolTable_facts _ entry).1

theorem not_isBlank_of_isNumberChar (number : isNumberChar c = true) : isBlank c = false := by
  by_contra blank
  rw [not_eq_false, isBlank, or_eq_true, beq_iff_eq, beq_iff_eq] at blank
  rcases blank with rfl | rfl <;> exact absurd number (by decide)

theorem visible (lexeme : Lexeme text token later) (first : text = c :: rest) :
    isBlank c = false := by
  cases lexeme with
  | word starts all known ends =>
    obtain ⟨rfl, _⟩ := List.cons.inj first
    exact isBlank_of_isNameStart starts
  | number chars nonempty ends again =>
    subst first
    exact not_isBlank_of_isNumberChar (chars c mem_cons_self)
  | symbol entry again =>
    subst first
    exact ((symbolTable_facts _ entry).2.1 c mem_cons_self).2.1

theorem tokenize_eq (lexeme : Lexeme text token later) (same : SameStart later later') :
    tokenize (text ++ later') = (tokenize later').map (token :: ·) := by
  cases first : text with
  | nil => exact absurd first lexeme.ne_nil
  | cons c rest =>
    have lexed := lexeme.lexOne_eq same
    rw [first] at lexed
    exact tokenize_lexOne (lexeme.visible first) lexed

theorem paren (lexeme : Lexeme text token later) {c : Char} (member : c ∈ text)
    (isParen : isParen c = true) : text = [c] := by
  have noWord := not_isWordChar_of_isParen isParen
  cases lexeme with
  | word starts all known ends =>
    rcases mem_cons.mp member with rfl | within
    · simp [isWordChar, isNamePart, starts] at noWord
    · rw [all c within] at noWord
      cases noWord
  | number chars nonempty ends again =>
    rcases isParen_cases isParen with rfl | rfl <;> exact absurd (chars _ member) (by decide)
  | symbol entry again => exact (symbolTable_facts _ entry).2.2 c member isParen

end Lexeme

theorem tokenize_blanks {blanks : Text} (all : ∀ c ∈ blanks, isBlank c = true)
    (rest : Text) : tokenize (blanks ++ rest) = tokenize rest := by
  induction blanks with
  | nil => rfl
  | cons c blanks ih =>
    rw [cons_append, tokenize_blank (all c mem_cons_self)]
    exact ih fun d member => all d (mem_cons_of_mem _ member)

theorem tokenize_cases (lexed : tokenize s = some tokens) :
    ∃ blanks rest, s = blanks ++ rest ∧ (∀ c ∈ blanks, isBlank c = true) ∧
      ((rest = [] ∧ tokens = []) ∨ ∃ text token later more, rest = text ++ later ∧
          Lexeme text token later ∧ tokens = token :: more ∧
          tokenize later = some more) := by
  induction s with
  | nil =>
    cases lexed
    exact ⟨[], [], rfl, by simp, Or.inl ⟨rfl, rfl⟩⟩
  | cons c s ih =>
    by_cases blank : isBlank c = true
    · rw [tokenize_blank blank] at lexed
      obtain ⟨blanks, rest, split, all, first⟩ := ih lexed
      refine ⟨c :: blanks, rest, by rw [split, cons_append], ?_, first⟩
      intro d member
      rcases mem_cons.mp member with rfl | within
      · exact blank
      · exact all d within
    · have visible : isBlank c = false := by simpa using blank
      refine ⟨[], c :: s, rfl, by simp, Or.inr ?_⟩
      cases found : lexOne (c :: s) with
      | none =>
        rw [tokenize_lexOne_none visible found] at lexed
        cases lexed
      | some result =>
        obtain ⟨token, later⟩ := result
        rw [tokenize_lexOne visible found] at lexed
        obtain ⟨more, rest, rfl⟩ := map_eq_some_iff.mp lexed
        obtain ⟨text, split, lexeme⟩ := lexOne_lexeme found
        exact ⟨text, token, later, more, split, lexeme, rfl, rest⟩

theorem blank_of_tokenize (lexed : tokenize s = some []) : ∀ c ∈ s, isBlank c = true := by
  obtain ⟨blanks, rest, rfl, all, ⟨rfl, _⟩ | ⟨_, _, _, _, _, _, no, _⟩⟩ :=
    tokenize_cases lexed
  · simpa using all
  · cases no

theorem lexeme_of_tokenize (lexed : tokenize s = some (token :: tokens)) :
    ∃ blanks text later, s = blanks ++ (text ++ later) ∧
      (∀ c ∈ blanks, isBlank c = true) ∧ Lexeme text token later ∧
      tokenize later = some tokens := by
  obtain ⟨blanks, rest, rfl, all, ⟨_, no⟩ |
    ⟨text, token, later, more, rfl, lexeme, same, next⟩⟩ :=
      tokenize_cases lexed
  · cases no
  · obtain ⟨rfl, rfl⟩ := List.cons.inj same
    exact ⟨blanks, text, later, rfl, all, lexeme, next⟩

theorem wordToken_cases (known : wordToken word = some token) :
    token = .name word ∨ token ∈ [Token.kwIf, .kwElse, .kwNot] ∧
        word ∈ ["if", "else", "not"].map String.toList := by
  unfold wordToken at known
  split_ifs at known with isIf isElse isNot
  all_goals cases known
  · exact Or.inr ⟨by decide, by rw [isIf]; decide⟩
  · exact Or.inr ⟨by decide, by rw [isElse]; decide⟩
  · exact Or.inr ⟨by decide, by rw [isNot]; decide⟩
  · exact Or.inl rfl

theorem isWord_of_wordToken (known : wordToken word = some token) :
    token.isWord := by
  have keywords : ∀ token ∈ [Token.kwIf, .kwElse, .kwNot], token.isWord := by decide
  rcases wordToken_cases known with rfl | ⟨keyword, _⟩
  · exact Token.isWord_name word
  · exact keywords token keyword

theorem Lexeme.rparen_text (lexeme : Lexeme text .rparen later) : text = [')'] := by
  cases lexeme with
  | word starts all known ends => cases isWord_of_wordToken known
  | symbol entry again => simpa [symbolTable] using entry

theorem Lexeme.lparen_text (lexeme : Lexeme text .lparen later) : text = ['('] := by
  cases lexeme with
  | word starts all known ends => cases isWord_of_wordToken known
  | symbol entry again => simpa [symbolTable] using entry

theorem Lexeme.noParen (lexeme : Lexeme text token later)
    (word : token.isWord) : ∀ c ∈ text, isParen c = false := by
  intro c member
  by_contra paren
  rw [not_eq_false] at paren
  obtain rfl := lexeme.paren member paren
  have lexed := lexeme.lexOne_eq (.inl rfl)
  rcases isParen_cases paren with rfl | rfl <;>
    · cases lexed
      cases word

theorem Lexeme.name_text {name : Text} (lexeme : Lexeme text (.name name) later) : text = name := by
  cases lexeme with
  | word starts all known ends =>
    rcases wordToken_cases known with same | ⟨keyword, _⟩
    · exact (Token.name.inj same).symm
    · simp at keyword
  | symbol entry again => simp [symbolTable] at entry

/-- No word starts where an operand has ended. -/
def FollowsOperand (rest : List Token) : Prop :=
  ∀ token ∈ rest.head?, (∃ op, token = .op op) ∨ token = .rparen

theorem FollowsOperand.nil : FollowsOperand [] := fun _ member => nomatch member

theorem FollowsOperand.op (op : BinOp) (rest : List Token) : FollowsOperand (.op op :: rest) := by
  intro token member
  exact Or.inl ⟨op, (some.inj member).symm⟩

theorem FollowsOperand.rparen (rest : List Token) : FollowsOperand (.rparen :: rest) := by
  intro token member
  exact Or.inr (some.inj member).symm

theorem FollowsOperand.head?_ne {rest : List Token}
    (follows : FollowsOperand rest) : rest.head? ≠ some .lparen := by
  intro opening
  rcases follows _ opening with ⟨op, no⟩ | no <;> exact absurd no nofun

theorem FollowsOperand.endsWord {rest : List Token}
    (follows : FollowsOperand rest) (lexed : tokenize s = some rest) :
    EndsWord s := by
  obtain ⟨blanks, tail, rfl, all, first⟩ := tokenize_cases lexed
  cases blanks with
  | cons c blanks =>
    have blank := all c mem_cons_self
    rw [isBlank, or_eq_true, beq_iff_eq, beq_iff_eq] at blank
    rcases blank with rfl | rfl <;> rfl
  | nil =>
    rcases first with ⟨rfl, _⟩ | ⟨text, token, later, more, rfl, lexeme,
      rfl, _⟩
    · rfl
    · cases lexeme with
      | word starts all known ends =>
        rcases follows _ rfl with ⟨op, rfl⟩ | rfl
        · rcases wordToken_cases known with no | ⟨keyword, _⟩
          · cases no
          · simp at keyword
        · cases isWord_of_wordToken known
      | number chars nonempty ends again =>
        rcases follows _ rfl with ⟨op, no⟩ | no <;> cases no
      | symbol entry again =>
        obtain ⟨nonempty, chars, _⟩ := symbolTable_facts _ entry
        cases text with
        | nil => exact absurd rfl nonempty
        | cons c rest => exact (chars c mem_cons_self).1

theorem tokenize_append (lexed : tokenize s = some tokens)
    (opening : rest.head?.all isParen = true) :
    tokenize (s ++ rest) = (tokenize rest).map (tokens ++ ·) := by
  induction tokens generalizing s with
  | nil =>
    rw [tokenize_blanks (blank_of_tokenize lexed)]
    simp
  | cons token tokens ih =>
    obtain ⟨blanks, text, later, rfl, all, lexeme, next⟩ :=
      lexeme_of_tokenize lexed
    have same : SameStart later (later ++ rest) := by
      cases later with
      | nil => exact Or.inr opening
      | cons c tail => exact Or.inl rfl
    rw [append_assoc, tokenize_blanks all, append_assoc,
      lexeme.tokenize_eq same, ih next, Option.map_map]
    rfl

theorem tokenize_rparen {front back : List Token}
    (lexed : tokenize s = some (front ++ .rparen :: back)) :
    ∃ before after, s = before ++ ')' :: after ∧
      tokenize before = some front ∧ tokenize after = some back := by
  induction front generalizing s with
  | nil =>
    obtain ⟨blanks, text, later, rfl, all, lexeme, next⟩ :=
      lexeme_of_tokenize lexed
    rw [lexeme.rparen_text]
    refine ⟨blanks, later, rfl, ?_, next⟩
    have whole := tokenize_blanks all []
    rwa [append_nil] at whole
  | cons token front ih =>
    obtain ⟨blanks, text, later, rfl, all, lexeme, next⟩ :=
      lexeme_of_tokenize lexed
    obtain ⟨before, after, rfl, inner, outer⟩ := ih next
    refine ⟨blanks ++ (text ++ before), after, by simp, ?_, outer⟩
    have same : SameStart (before ++ ')' :: after) before := by
      cases before with
      | nil => exact Or.inr rfl
      | cons c tail => exact Or.inl rfl
    rw [tokenize_blanks all, lexeme.tokenize_eq same, inner]
    rfl

end PyGrammar
