import WriterAgent.Calc.Python.SanitizeCode
import WriterAgent.Foundations.PythonLexemes

/-!
# Token calls in a text and in its tokens

`_rewrite_token_calls_body` works on characters.  On a text that has tokens,
and in which only the listed names are called, it replaces whole calls.
-/

namespace WriterAgent.Calc.Python

open PyText PyGrammar List Option

/-- The outermost calls of the function replaced. -/
inductive Rewrites (function : Text) (wrap : List Token → List Token) :
    List Token → List Token → Prop where
  | nil : Rewrites function wrap [] []
  | keep {token : Token} {rest rest' : List Token} :
      ¬ (token = .name function ∧ rest.head? = some .lparen) →
      Rewrites function wrap rest rest' →
      Rewrites function wrap (token :: rest) (token :: rest')
  | call {inner rest rest' : List Token} : Nested inner → FollowsOperand rest →
      Rewrites function wrap rest rest' →
      Rewrites function wrap (.name function :: .lparen :: (inner ++ .rparen :: rest))
        (wrap inner ++ rest')

def CallsOnly (names : List Text) (tokens : List Token) : Prop :=
  ∀ front name back, tokens = front ++ .name name :: .lparen :: back → name ∈ names

variable {s later rest text front back : Text} {tokens : List Token} {c : Char}
  {token : Token} {names : List Text} {before : Option Char} {length : Nat}

theorem CallsOnly.of_append (front : List Token) {back : List Token}
    (only : CallsOnly names (front ++ back)) : CallsOnly names back := by
  intro before name after split
  exact only (front ++ before) name after (by rw [split, append_assoc])

theorem CallsOnly.tail {names : List Text} {token : Token}
    {rest : List Token} (only : CallsOnly names (token :: rest)) :
    CallsOnly names rest :=
  CallsOnly.of_append [token] only

theorem closingOffset_skip {piece : Text}
    (none : ∀ c ∈ piece, isParen c = false) (depth : Nat) (rest : Text) :
    closingOffset depth (piece ++ rest) = (closingOffset depth rest).map (· + piece.length) := by
  induction piece with
  | nil => simp
  | cons c piece ih =>
    have noParen := none c mem_cons_self
    have notOpen : c ≠ '(' := by
      rintro rfl
      exact absurd noParen (by decide)
    have notClose : c ≠ ')' := by
      rintro rfl
      exact absurd noParen (by decide)
    have step : closingOffset depth (c :: (piece ++ rest)) =
        (closingOffset depth (piece ++ rest)).map (· + 1) := by
      cases depth with
      | zero | succ depth => simp [closingOffset, notClose]
    rw [cons_append, step, ih fun d member => none d (mem_cons_of_mem _ member), Option.map_map]
    congr 1

theorem isParen_of_isBlank (blank : isBlank c = true) : isParen c = false := by
  rw [isBlank, Bool.or_eq_true, beq_iff_eq, beq_iff_eq] at blank
  rcases blank with rfl | rfl <;> rfl

theorem closingOffset_append (lexed : tokenize s = some tokens) (depth : Nat)
    (within : ∀ front back, tokens = front ++ back →
      closes front ≤ depth + opens front) (rest : Text) :
    closingOffset depth (s ++ rest) =
      (closingOffset (depth + opens tokens - closes tokens) rest).map (· + s.length) := by
  induction tokens generalizing s depth with
  | nil =>
    have noParen : ∀ c ∈ s, isParen c = false := fun c member =>
      isParen_of_isBlank (blank_of_tokenize lexed c member)
    rw [closingOffset_skip noParen]
    simp
  | cons token tokens ih =>
    obtain ⟨blanks, text, later, rfl, all, lexeme, next⟩ :=
      lexeme_of_tokenize lexed
    have noParen : ∀ c ∈ blanks, isParen c = false := fun c member =>
      isParen_of_isBlank (all c member)
    have skip : closingOffset depth (blanks ++ (text ++ later) ++ rest) =
        (closingOffset depth (text ++ (later ++ rest))).map (· + blanks.length) := by
      rw [append_assoc, append_assoc, closingOffset_skip noParen]
    by_cases word : token.isWord
    · have inner := ih next depth fun front back split => by
        have bound := within (token :: front) back (by rw [split, cons_append])
        rwa [closes_cons_word word, opens_cons_word word] at bound
      rw [skip, closingOffset_skip (lexeme.noParen word), inner,
        opens_cons_word word, closes_cons_word word, Option.map_map,
        Option.map_map]
      congr 1
      funext n
      simp only [Function.comp_apply, length_append]
      omega
    · cases token with
      | lparen =>
        rw [lexeme.lparen_text] at skip ⊢
        have inner := ih next (depth + 1) fun front back split => by
          have bound := within (.lparen :: front) back (by rw [split, cons_append])
          rw [closes_lparen, opens_lparen] at bound
          omega
        have same : depth + 1 + opens tokens - closes tokens =
            depth + opens (Token.lparen :: tokens) - closes (Token.lparen :: tokens) := by
          rw [opens_lparen, closes_lparen]
          omega
        rw [skip, singleton_append, closingOffset, inner, same, Option.map_map, Option.map_map]
        congr 1
        funext n
        simp only [Function.comp_apply, length_append, length_singleton]
        omega
      | rparen =>
        rw [lexeme.rparen_text] at skip ⊢
        have first := within [.rparen] tokens rfl
        cases depth with
        | zero => simp at first
        | succ depth =>
          have inner := ih next depth fun front back split => by
            have bound := within (.rparen :: front) back (by rw [split, cons_append])
            rw [closes_rparen, opens_rparen] at bound
            omega
          have same : depth + opens tokens - closes tokens =
              depth + 1 + opens (Token.rparen :: tokens) - closes (Token.rparen :: tokens) := by
            rw [opens_rparen, closes_rparen]
            omega
          rw [skip, singleton_append, closingOffset, inner, same, Option.map_map, Option.map_map]
          congr 1
          funext n
          simp only [Function.comp_apply, length_append, length_singleton]
          omega
      | name text => exact absurd (Token.isWord_name text) word
      | number text => exact absurd (Token.isWord_number text) word
      | op op => exact absurd (Token.isWord_op op) word
      | lbracket | rbracket | comma | kwIf | kwElse | kwNot => exact absurd rfl word

theorem closingOffset_nested (lexed : tokenize s = some tokens) (nested : Nested tokens)
    (rest : Text) : closingOffset 0 (s ++ ')' :: rest) = some s.length := by
  have passed := closingOffset_append lexed 0 (by simpa using nested.front) (')' :: rest)
  rw [nested.balanced, Nat.zero_add] at passed
  simpa [closingOffset] using passed

/-- The names are written in letters, as `float` and `int` are. -/
def LetterNames (names : List Text) : Prop :=
  ∀ name ∈ names, ∀ c ∈ name, isAsciiLetter c = true

theorem not_isSpace_of_isAsciiLetter (letter : isAsciiLetter c = true) : isSpace c = false := by
  have range : (65 ≤ c.toNat ∧ c.toNat ≤ 90) ∨ (97 ≤ c.toNat ∧ c.toNat ≤ 122) := by
    simpa [isAsciiLetter, isAsciiUpper, isAsciiLower, Char.le_def,
      UInt32.le_iff_toNat_le] using letter
  simp only [isSpace, Bool.or_eq_false_iff, Bool.and_eq_false_iff,
    decide_eq_false_iff_not, beq_eq_false_iff_ne]
  omega

theorem isSpace_of_isBlank (blank : isBlank c = true) : isSpace c = true := by
  rw [isBlank, Bool.or_eq_true, beq_iff_eq, beq_iff_eq] at blank
  rcases blank with rfl | rfl <;> rfl

theorem keyword_letters : LetterNames (["if", "else", "not"].map String.toList) := by
  unfold LetterNames
  decide

theorem not_isSpace_of_isNumberChar (number : isNumberChar c = true) : isSpace c = false := by
  simp only [isNumberChar, Bool.or_eq_true, beq_iff_eq] at number
  rcases number with ((((digit | rfl) | rfl) | rfl) | rfl) | rfl
  · have range := isAsciiDigit_iff.mp digit
    simp only [isSpace, Bool.or_eq_false_iff, Bool.and_eq_false_iff,
      decide_eq_false_iff_not, beq_eq_false_iff_ne]
    omega
  · rfl
  · rfl
  · rfl
  · rfl
  · rfl

theorem not_isSpace_symbol : ∀ entry ∈ symbolTable, ∀ c ∈ entry.1, isSpace c = false := by
  decide

theorem name_of_isSpace (lexeme : Lexeme (c :: rest) token later) (space : isSpace c = true) :
    token = .name (c :: rest) ∧ (∀ d ∈ rest, isWordChar d = true) ∧ EndsWord later := by
  have contra : isSpace c = false → False := fun no =>
    Bool.false_ne_true (no.symm.trans space)
  cases lexeme with
  | word starts all known ends =>
    refine ⟨?_, all, ends⟩
    rcases wordToken_cases known with same | ⟨_, keyword⟩
    · exact same
    · exact (contra (not_isSpace_of_isAsciiLetter (keyword_letters _ keyword c mem_cons_self))).elim
  | number chars nonempty ends again =>
    exact (contra (not_isSpace_of_isNumberChar (chars c mem_cons_self))).elim
  | symbol entry again => exact (contra (not_isSpace_symbol _ entry c mem_cons_self)).elim

theorem word_prefix {word : Text} (back later : Text) (wordChars : ∀ c ∈ word, isWordChar c = true)
    (ends : EndsWord later) (starts : word <+: back ++ later) : word <+: back := by
  obtain ⟨tail, split⟩ := starts
  rcases append_eq_append_iff.mp split with
    ⟨middle, rfl, _⟩ | ⟨middle, rfl, rest⟩
  · exact prefix_append _ _
  · cases middle with
    | nil => simp
    | cons c middle =>
      have inWord := wordChars c (by simp)
      rw [rest] at ends
      cases inWord.symm.trans ends

theorem head?_of_openParen {names : List Text} (letters : LetterNames names)
    {spaces body : Text} (all : ∀ c ∈ spaces, isSpace c = true)
    {tokens : List Token}
    (lexed : tokenize (spaces ++ '(' :: body) = some tokens)
    (only : CallsOnly names tokens) : tokens.head? = some .lparen := by
  generalize bound : spaces.length = size
  induction size using Nat.strongRecOn generalizing spaces tokens with
  | ind size ih =>
    cases spaces with
    | nil =>
      have opening := lexesBefore_lparen body
      rw [nil_append] at lexed
      rw [singleton_append, lexed] at opening
      obtain ⟨more, _, rfl⟩ := map_eq_some_iff.mp opening.symm
      rfl
    | cons c spaces =>
      have space := all c mem_cons_self
      have later : ∀ d ∈ spaces, isSpace d = true := fun d member =>
        all d (mem_cons_of_mem _ member)
      rw [length_cons] at bound
      by_cases blank : isBlank c = true
      · rw [cons_append, tokenize_blank blank] at lexed
        exact ih spaces.length (by omega) later lexed only rfl
      · obtain ⟨blanks, rest, split, allBlank, first⟩ :=
          tokenize_cases lexed
        cases blanks with
        | cons d blanks =>
          obtain ⟨rfl, _⟩ := List.cons.inj split
          exact absurd (allBlank c mem_cons_self) blank
        | nil =>
          rcases first with ⟨rfl, _⟩ | ⟨text, token, tail, more, rfl, lexeme, rfl, next⟩
          · cases split
          · cases text with
            | nil => exact absurd rfl lexeme.ne_nil
            | cons d word =>
              obtain ⟨rfl, same⟩ := List.cons.inj split
              obtain ⟨rfl, wordChars, _⟩ :=
                name_of_isSpace lexeme space
              obtain ⟨spaces', rfl⟩ := word_prefix spaces ('(' :: body) wordChars rfl
                ⟨tail, same.symm⟩
              have rest : spaces' ++ '(' :: body = tail := by
                apply append_cancel_left
                rw [← append_assoc]
                exact same
              rw [← rest] at next
              rw [length_append] at bound
              have head := ih spaces'.length (by omega) (fun d member => later d
                  (mem_append_right _ member)) next only.tail rfl
              obtain ⟨after, rfl⟩ : ∃ after, more = .lparen :: after := by
                cases more with
                | nil => cases head
                | cons token after => exact ⟨after, by rw [some.inj head]⟩
              have named := only [] _ after rfl
              have letter := letters _ named c mem_cons_self
              rw [not_isSpace_of_isAsciiLetter letter] at space
              cases space

theorem openParen_split (opens : openParenLength s = some length) :
    ∃ spaces body, s = spaces ++ '(' :: body ∧
      (∀ c ∈ spaces, isSpace c = true) ∧ length = spaces.length + 1 := by
  unfold openParenLength at opens
  split at opens
  · rename_i body found
    refine ⟨s.takeWhile isSpace, body, ?_, fun c member => mem_takeWhile_imp member,
      (some.inj opens).symm⟩
    rw [← found, takeWhile_append_dropWhile]
  · cases opens

theorem called_of_openParen (letters : LetterNames names) (word : Text)
    (wordChars : ∀ c ∈ word, isWordChar c = true) (hasLetter : ∃ c ∈ word, isNumberChar c = false)
    (noKeyword : ∀ keyword ∈ ["if", "else", "not"].map String.toList,
      ¬ word <:+ keyword) (lexeme : Lexeme text token later) (next : tokenize later = some tokens)
    (only : CallsOnly names (token :: tokens)) (split : text = front ++ back) (nonempty : back ≠ [])
    (starts : word <+: back ++ later) (opens : openParenLength ((back ++ later).drop word.length) =
      some length) :
    back = word ∧ text ∈ names ∧ token = .name text ∧ tokens.head? = some .lparen := by
  obtain ⟨special, inWord, noNumber⟩ := hasLetter
  cases lexeme with
  | symbol entry again =>
    exfalso
    cases back with
    | nil => exact nonempty rfl
    | cons c back =>
      obtain ⟨_, chars, _⟩ := symbolTable_facts _ entry
      have noWord := (chars c (by rw [split]; simp)).1
      cases word with
      | nil => exact absurd inWord not_mem_nil
      | cons d word =>
        obtain ⟨tail, same⟩ := starts
        obtain ⟨rfl, _⟩ := List.cons.inj same
        rw [wordChars d mem_cons_self] at noWord
        cases noWord
  | number chars some ends again =>
    have within := word_prefix _ _ wordChars ends starts
    have member : special ∈ text := by
      rw [split]
      exact mem_append_right _ (within.subset inWord)
    rw [chars special member] at noNumber
    cases noNumber
  | word begins all known ends =>
    obtain ⟨extra, rfl⟩ := word_prefix _ _ wordChars ends starts
    rw [append_assoc, drop_left] at opens
    obtain ⟨spaces, body, tail, allSpace, _⟩ := openParen_split opens
    have extraChars : ∀ d ∈ extra, isWordChar d = true := by
      intro d member
      have inText : d ∈ front ++ (word ++ extra) := by simp [member]
      rw [← split] at inText
      rcases mem_cons.mp inText with rfl | within
      · simp [isWordChar, isNamePart, begins]
      · exact all d within
    obtain ⟨spaces', rfl⟩ := word_prefix spaces ('(' :: body)
      extraChars rfl ⟨later, tail⟩
    have rest : later = spaces' ++ '(' :: body := by
      apply append_cancel_left
      rw [← append_assoc]
      exact tail
    have head : tokens.head? = some .lparen := by
      rw [rest] at next
      exact head?_of_openParen letters (fun d member => allSpace d (mem_append_right _ member)) next
        only.tail
    have noExtra : (∀ d ∈ extra, isAsciiLetter d = true) → extra = [] := by
      intro letter
      cases extra with
      | nil => rfl
      | cons d extra =>
        have space := allSpace d (by simp)
        rw [not_isSpace_of_isAsciiLetter (letter d mem_cons_self)] at space
        cases space
    rcases wordToken_cases known with rfl | ⟨_, keyword⟩
    · obtain ⟨after, rfl⟩ : ∃ after, tokens = .lparen :: after := by
        cases tokens with
        | nil => cases head
        | cons token after => exact ⟨after, by rw [some.inj head]⟩
      have named := only [] _ after rfl
      have nothing := noExtra fun d member => letters _ named d (by
        rw [split]
        simp [member])
      exact ⟨by rw [nothing, append_nil], named, rfl, rfl⟩
    · exfalso
      have nothing := noExtra fun d member => keyword_letters _ keyword d (by
        rw [split]
        simp [member])
      apply noKeyword _ keyword
      rw [split, nothing, append_nil]
      exact suffix_append _ _

/-- A word whose calls a pass replaces, where only the names are called. -/
structure CallWord (names : List Text) (word : Text) : Prop where
  lettersNames : LetterNames names
  letters : ∀ c ∈ word, isAsciiLetter c = true
  hasLetter : ∃ c ∈ word, isNumberChar c = false
  noKeyword : ∀ keyword ∈ ["if", "else", "not"].map String.toList, ¬ word <:+ keyword
  whole : ∀ name ∈ names, word <:+ name → name = word

theorem isWordChar_of_isAsciiLetter (letter : isAsciiLetter c = true) : isWordChar c = true := by
  simp [isWordChar, isNamePart, isNameStart, letter]

theorem isWordChar_of_isRegexWord {isAlnum : Char → Bool} (word : isRegexWord isAlnum c = true) :
    isWordChar c = true := by
  simp only [isRegexWord, Bool.or_eq_true, Bool.and_eq_true] at word
  simp only [isWordChar, isNamePart, isNameStart, Bool.or_eq_true]
  tauto

section Pass

variable {isAlnum : Char → Bool} {names : List Text} {word : Text}
  {rewriteInner : Text → Text} {wrap : List Token → List Token}

theorem CallWord.ne_nil (callWord : CallWord names word) : word ≠ [] := by
  rintro rfl
  obtain ⟨c, member, _⟩ := callWord.hasLetter
  exact absurd member not_mem_nil

theorem tokenCall_none (callWord : CallWord names word) (lexeme : Lexeme text token later)
    (next : tokenize later = some tokens) (only : CallsOnly names (token :: tokens))
    (noCall : ¬ (token = .name word ∧ tokens.head? = some .lparen)) (split : text = front ++ back)
    (nonempty : back ≠ []) (before : Option Char) :
    tokenCall isAlnum word rewriteInner before (back ++ later) = none := by
  unfold tokenCall
  split
  · rfl
  · rename_i starts
    split
    · rfl
    · rename_i length opens
      exfalso
      have starts : word <+: back ++ later := by
        simp only [Bool.or_eq_true, Bool.not_eq_true', not_or, Bool.not_eq_false] at starts
        exact isPrefixOf_iff_prefix.mp starts.2
      obtain ⟨rfl, named, rfl, head⟩ := called_of_openParen callWord.lettersNames word
        (fun c member =>
          isWordChar_of_isAsciiLetter (callWord.letters c member))
        callWord.hasLetter callWord.noKeyword lexeme next only split
        nonempty starts opens
      have same : text = back := callWord.whole text named (split ▸ suffix_append _ _)
      exact noCall ⟨by rw [same], head⟩

theorem tokenCall_blank (callWord : CallWord names word) (blank : isBlank c = true)
    (before : Option Char) (rest : Text) :
    tokenCall isAlnum word rewriteInner before (c :: rest) = none := by
  unfold tokenCall
  cases word with
  | nil => exact absurd rfl callWord.ne_nil
  | cons d word =>
    have letter := callWord.letters d mem_cons_self
    have different : d ≠ c := by
      rintro rfl
      have space := isSpace_of_isBlank blank
      rw [not_isSpace_of_isAsciiLetter letter] at space
      cases space
    simp [List.isPrefixOf, different]

theorem openParenLength_blanks {blanks : Text}
    (all : ∀ c ∈ blanks, isBlank c = true) (body : Text) :
    openParenLength (blanks ++ '(' :: body) = some (blanks.length + 1) := by
  have ends : ('(' :: body).head?.any isSpace = false := rfl
  obtain ⟨taken, dropped⟩ := takeWhile_append_of_all
    (fun c member => isSpace_of_isBlank (all c member)) ends
  simp only [openParenLength, taken, dropped]

theorem tokenCall_call (word : Text) (rewriteInner : Text → Text)
    {before : Option Char} (free : before.any (isRegexWord isAlnum) = false)
    {blanks inner after : Text}
    (all : ∀ c ∈ blanks, isBlank c = true)
    (closing : closingOffset 0 (inner ++ ')' :: after) = some inner.length) :
    tokenCall isAlnum word rewriteInner before
        ((word ++ blanks ++ '(' :: (inner ++ [')'])) ++ after) =
      some ((word ++ blanks ++ '(' :: (inner ++ [')'])).length, rewriteInner inner) := by
  have shape : (word ++ blanks ++ '(' :: (inner ++ [')'])) ++ after =
      word ++ (blanks ++ '(' :: (inner ++ ')' :: after)) := by simp
  have opened : (word ++ (blanks ++ '(' :: (inner ++ ')' :: after))).drop
      (word.length + (blanks.length + 1) - 1 + 1) = inner ++ ')' :: after := by
    have front : word ++ (blanks ++ '(' :: (inner ++ ')' :: after)) =
        (word ++ blanks ++ ['(']) ++ (inner ++ ')' :: after) := by simp
    rw [front]
    apply drop_left'
    simp only [length_append, length_singleton]
    omega
  have closed : findMatchingParen (word ++ (blanks ++ '(' :: (inner ++ ')' :: after)))
      (word.length + (blanks.length + 1) - 1) =
        some (word.length + (blanks.length + 1) - 1 + 1 + inner.length) := by
    rw [findMatchingParen, opened, closing]
    rfl
  rw [shape]
  unfold tokenCall
  rw [if_neg (by simp [free]), drop_left, openParenLength_blanks all]
  simp only [closed]
  congr 1
  refine Prod.ext ?_ ?_
  · simp only [length_append, length_cons, length_nil]
    omega
  · rw [drop_take, opened, Nat.add_sub_cancel_left, take_left]

/-- What the pass writes for a call has the tokens of the wrapped call. -/
structure WritesTokens (rewriteInner : Text → Text) (wrap : List Token → List Token) : Prop where
  opens : ∀ inner, (rewriteInner inner).head? = some '('
  lexes : ∀ inner tokens, tokenize inner = some tokens → Lexes (rewriteInner inner) (wrap tokens)

/-- What the character before a place says about the text from there. -/
def StartsFree (isAlnum : Char → Bool) (before : Option Char) (s : Text) :
    Prop :=
  before.any (isRegexWord isAlnum) = true → EndsWord s

theorem startsFree_lexeme (lexeme : Lexeme text token later) (before : Option Char) :
    StartsFree isAlnum (lastChar before text) later := by
  intro isWord
  cases lexeme with
  | word starts all known ends => exact ends
  | number chars nonempty ends again => exact ends
  | symbol entry again =>
    obtain ⟨nonempty, chars, _⟩ := symbolTable_facts _ entry
    obtain ⟨c, member, last⟩ := lastChar_mem before nonempty
    rw [last] at isWord
    have noWord := (chars c member).1
    rw [isWordChar_of_isRegexWord isWord] at noWord
    cases noWord

theorem StartsFree.blanks {blanks : Text} (all : ∀ c ∈ blanks, isBlank c = true)
    (free : StartsFree isAlnum before (blanks ++ s)) :
    StartsFree isAlnum (lastChar before blanks) s := by
  by_cases nonempty : blanks = []
  · rw [nonempty] at free ⊢
    exact free
  · intro isWord
    obtain ⟨c, member, last⟩ := lastChar_mem before nonempty
    rw [last] at isWord
    have blank := all c member
    rw [isBlank, Bool.or_eq_true, beq_iff_eq, beq_iff_eq] at blank
    rcases blank with rfl | rfl <;> exact absurd (isWordChar_of_isRegexWord isWord) (by decide)

theorem StartsFree.rparen (s : Text) : StartsFree isAlnum (some ')') s := fun isWord =>
  absurd (isWordChar_of_isRegexWord isWord) (by decide)

theorem StartsFree.atCall (callWord : CallWord names word)
    (free : StartsFree isAlnum before (word ++ rest)) :
    before.any (isRegexWord isAlnum) = false := by
  by_contra isWord
  rw [Bool.not_eq_false] at isWord
  have ends := free isWord
  cases same : word with
  | nil => exact callWord.ne_nil same
  | cons c word =>
    have letter := isWordChar_of_isAsciiLetter
      (callWord.letters c (by rw [same]; exact mem_cons_self))
    rw [same, EndsWord, cons_append, List.head?_cons, any_some, letter] at ends
    cases ends

end Pass

section

variable {isAlnum : Char → Bool} {names : List Text} {word : Text}
  {rewriteInner : Text → Text} {wrap : List Token → List Token}

theorem sameStart_append {piece rest' : Text} (nonempty : piece ≠ []) :
    SameStart (piece ++ rest) (piece ++ rest') := by
  cases piece with
  | nil => exact absurd rfl nonempty
  | cons c piece => exact Or.inl rfl

theorem tokenize_rewriteTokenCalls (callWord : CallWord names word)
    (writes : WritesTokens rewriteInner wrap) {tokens' : List Token}
    (rewrites : Rewrites word wrap tokens tokens') (only : CallsOnly names tokens)
    (lexed : tokenize s = some tokens) (free : StartsFree isAlnum before s) :
    ∃ s', substitute (tokenCall isAlnum word rewriteInner) before 0 s = s' ∧
      tokenize s' = some tokens' ∧ SameStart s s' := by
  induction rewrites generalizing s before with
  | nil =>
    have blanks := blank_of_tokenize lexed
    refine ⟨s, ?_, lexed, Or.inl rfl⟩
    apply substitute_eq_self
    intro front c back split
    exact tokenCall_blank callWord (blanks c (by rw [split]; simp)) _ _
  | @keep token rest rest' noCall rewrites ih =>
    obtain ⟨blanks, text, later, rfl, all, lexeme, next⟩ :=
      lexeme_of_tokenize lexed
    obtain ⟨later', result, lexed', same⟩ := ih only.tail next
      (startsFree_lexeme lexeme (lastChar before blanks))
    refine ⟨blanks ++ (text ++ later'), ?_, ?_, ?_⟩
    · rw [substitute_copy, substitute_copy, result]
      · intro front c back split
        exact tokenCall_none callWord lexeme next only noCall split (cons_ne_nil _ _) _
      · intro front c back split
        exact tokenCall_blank callWord (all c (by rw [split]; simp)) _ _
    · rw [tokenize_blanks all, lexeme.tokenize_eq same, lexed']
      rfl
    · rw [← append_assoc, ← append_assoc]
      exact sameStart_append (append_ne_nil_of_right_ne_nil _ lexeme.ne_nil)
  | @call inner rest rest' nested follows rewrites ih =>
    obtain ⟨blanks, text, later, rfl, all, lexeme, next⟩ :=
      lexeme_of_tokenize lexed
    obtain ⟨gap, opening, body, rfl, allGap, lexeme', next'⟩ :=
      lexeme_of_tokenize next
    obtain ⟨inside, after, rfl, lexedInside, lexedAfter⟩ :=
      tokenize_rparen next'
    obtain rfl := lexeme.name_text
    rw [lexeme'.lparen_text] at free ⊢
    have closing := closingOffset_nested lexedInside nested after
    have freeWord := StartsFree.atCall callWord (StartsFree.blanks all free)
    have onlyRest : CallsOnly names rest :=
      (CallsOnly.of_append inner only.tail.tail).tail
    obtain ⟨after', result, lexed', same⟩ := ih onlyRest lexedAfter (StartsFree.rparen after)
    have found := tokenCall_call text rewriteInner freeWord allGap closing
    have matched := substitute_match (by simp) found
    have shape : blanks ++ (text ++ (gap ++ (['('] ++ (inside ++ ')' :: after)))) =
          blanks ++ ((text ++ gap ++ '(' :: (inside ++ [')'])) ++ after) := by
      simp
    have last : lastChar (lastChar before blanks)
        (text ++ gap ++ '(' :: (inside ++ [')'])) = some ')' := by
      rw [lastChar_append]
      exact lastChar_append _ ('(' :: inside) [')']
    refine ⟨blanks ++ (rewriteInner inside ++ after'), ?_, ?_, ?_⟩
    · rw [shape, substitute_copy, matched, last, result]
      intro front c back split
      exact tokenCall_blank callWord (all c (by rw [split]; simp)) _ _
    · have ends := same.endsWord (follows.endsWord lexedAfter)
      rw [tokenize_blanks all, writes.lexes inside inner lexedInside _ ends, lexed']
      rfl
    · cases blanks with
      | nil =>
        right
        have opens := writes.opens inside
        cases written : rewriteInner inside with
        | nil => rw [written] at opens; exact absurd opens nofun
        | cons c more =>
          rw [written] at opens
          obtain rfl := some.inj opens
          rfl
      | cons c blanks => exact Or.inl rfl

theorem substitute_eq_self_of_tokens {find : Option Char → Text → Option (Nat × Text)}
    (blankNone : ∀ before c rest, isBlank c = true → find before (c :: rest) = none)
    (lexemeNone : ∀ text token later tokens, Lexeme text token later →
      tokenize later = some tokens → CallsOnly names (token :: tokens) →
      ∀ front back, text = front ++ back → back ≠ [] →
      ∀ before, find before (back ++ later) = none) (only : CallsOnly names tokens)
    (lexed : tokenize s = some tokens) (before : Option Char) : substitute find before 0 s = s := by
  induction tokens generalizing s before with
  | nil =>
    have blanks := blank_of_tokenize lexed
    apply substitute_eq_self
    intro front c back split
    exact blankNone _ c back (blanks c (by rw [split]; simp))
  | cons token tokens ih =>
    obtain ⟨blanks, text, later, rfl, all, lexeme, next⟩ :=
      lexeme_of_tokenize lexed
    rw [substitute_copy, substitute_copy, ih only.tail next]
    · intro front c back split
      exact lexemeNone text token later tokens lexeme next only front
        (c :: back) split (cons_ne_nil _ _) _
    · intro front c back split
      exact blankNone _ c _ (all c (by rw [split]; simp))

theorem rewriteTokenCalls_eq_self (callWord : CallWord names word) (absent : word ∉ names)
    (isAlnum : Char → Bool) (rewriteInner : Text → Text) (only : CallsOnly names tokens)
    (lexed : tokenize s = some tokens) : rewriteTokenCalls isAlnum word rewriteInner s = s := by
  apply substitute_eq_self_of_tokens _ _ only lexed
  · intro before c rest blank
    exact tokenCall_blank callWord blank before rest
  · intro text token later tokens lexeme next only front back split nonempty before
    apply tokenCall_none callWord lexeme next only _ split nonempty
    rintro ⟨rfl, head⟩
    cases tokens with
    | nil => cases head
    | cons token tokens =>
      obtain rfl := some.inj head
      exact absent (only [] word tokens rfl)

end

theorem xlTextCall_eq_self (letters : LetterNames names) (only : CallsOnly names tokens)
    (lexed : tokenize s = some tokens) : substitute xlTextCall none 0 s = s := by
  apply substitute_eq_self_of_tokens _ _ only lexed
  · intro before c rest blank
    rw [isBlank, Bool.or_eq_true, beq_iff_eq, beq_iff_eq] at blank
    rcases blank with rfl | rfl <;> rfl
  · intro text token later tokens lexeme next only front back split nonempty before
    unfold xlTextCall
    split
    · rename_i starts
      cases opens : openParenLength ((back ++ later).drop 5) with
      | none => rfl
      | some length =>
        obtain ⟨rfl, named, _⟩ := called_of_openParen letters
          ".text".toList (by decide) (by decide) (by decide)
          lexeme next only split nonempty
          ( isPrefixOf_iff_prefix.mp starts) opens
        have point := letters text named '.' (by rw [split]; simp)
        exact absurd point (by decide)
    · rfl

theorem equals_of_symbol : ∀ entry ∈ symbolTable, '=' ∈ entry.1 →
    entry.2 ∈ [Token.op .eq, .op .ne, .op .le, .op .ge] := by
  decide

theorem no_equals (lexed : tokenize s = some tokens) (none : ∀ token ∈ tokens,
      token ∉ [Token.op .eq, .op .ne, .op .le, .op .ge]) : '=' ∉ s := by
  induction tokens generalizing s with
  | nil =>
    intro member
    exact absurd (blank_of_tokenize lexed _ member) (by decide)
  | cons token tokens ih =>
    obtain ⟨blanks, text, later, rfl, all, lexeme, next⟩ :=
      lexeme_of_tokenize lexed
    intro member
    rcases mem_append.mp member with inBlanks | member
    · exact absurd (all _ inBlanks) (by decide)
    rcases mem_append.mp member with inText | inLater
    · cases lexeme with
      | word starts allWord known ends =>
        rcases mem_cons.mp inText with rfl | within
        · exact absurd starts (by decide)
        · exact absurd (allWord _ within) (by decide)
      | number chars nonempty ends again => exact absurd (chars _ inText) (by decide)
      | symbol entry again => exact none token mem_cons_self (equals_of_symbol _ entry inText)
    · exact ih next (fun token within =>
        none token (mem_cons_of_mem _ within)) inLater

end WriterAgent.Calc.Python
