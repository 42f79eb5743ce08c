import WriterAgent.Foundations.PythonGrammar

/-!
# Tokens of a Python expression

The lexer takes the longest token at each place.  It reads names, numbers and
the symbols of `PyGrammar`; any other text has no tokens.
-/

namespace PyGrammar

open PyText List Option

def isBlank (c : Char) : Bool := c == ' ' || c == '\t'

def isNameStart (c : Char) : Bool :=
  isAsciiLetter c || c == '_' || 128 ≤ c.toNat

def isNamePart (c : Char) : Bool := isNameStart c || isAsciiDigit c

def otherKeywords : List Text :=
  ["False", "None", "True", "and", "as", "assert", "async", "await", "break",
    "class", "continue", "def", "del", "elif", "except", "finally", "for",
    "from", "global", "import", "in", "is", "lambda", "nonlocal", "or", "pass",
    "raise", "return", "try", "while", "with", "yield"].map String.toList

def isDottedName (text : Text) : Bool :=
  (text.splitOn '.').all fun part => part.head?.any isNameStart

def wordToken (text : Text) : Option Token :=
  if text = "if".toList then some .kwIf
  else if text = "else".toList then some .kwElse
  else if text = "not".toList then some .kwNot
  else if text ∈ otherKeywords then none
  else if isDottedName text then some (.name text)
  else none

def isWordChar (c : Char) : Bool := isNamePart c || c == '.'

def lexWord (s : Text) : Option (Token × Text) :=
  (wordToken (s.takeWhile isWordChar)).map (·, s.dropWhile isWordChar)

def takeMantissa (s : Text) : Text × Text :=
  let whole := s.takeWhile isAsciiDigit
  match s.dropWhile isAsciiDigit with
  | '.' :: rest => (whole ++ '.' :: rest.takeWhile isAsciiDigit, rest.dropWhile isAsciiDigit)
  | rest => (whole, rest)

def takeExponent : Text → Text × Text
  | [] => ([], [])
  | c :: rest =>
    if c = 'e' ∨ c = 'E' then
      match rest with
      | [] => ([], c :: rest)
      | sign :: more =>
        if (sign = '+' ∨ sign = '-') ∧ more.head?.any isAsciiDigit then
          (c :: sign :: more.takeWhile isAsciiDigit, more.dropWhile isAsciiDigit)
        else if isAsciiDigit sign then
          (c :: rest.takeWhile isAsciiDigit, rest.dropWhile isAsciiDigit)
        else ([], c :: rest)
    else ([], c :: rest)

def lexNumber (s : Text) : Option (Token × Text) :=
  let (mantissa, rest) := takeMantissa s
  let (exponent, rest) := takeExponent rest
  if rest.head?.any isWordChar then none
  else some (.number (mantissa ++ exponent), rest)

def lexSymbol : Text → Option (Token × Text)
  | '*' :: '*' :: rest => some (.op .pow, rest)
  | '*' :: rest => some (.op .mul, rest)
  | '/' :: '/' :: rest => some (.op .floorDiv, rest)
  | '/' :: rest => some (.op .div, rest)
  | '%' :: rest => some (.op .mod, rest)
  | '+' :: rest => some (.op .add, rest)
  | '-' :: rest => some (.op .sub, rest)
  | '=' :: '=' :: rest => some (.op .eq, rest)
  | '!' :: '=' :: rest => some (.op .ne, rest)
  | '<' :: '=' :: rest => some (.op .le, rest)
  | '<' :: rest => some (.op .lt, rest)
  | '>' :: '=' :: rest => some (.op .ge, rest)
  | '>' :: rest => some (.op .gt, rest)
  | '(' :: rest => some (.lparen, rest)
  | ')' :: rest => some (.rparen, rest)
  | '[' :: rest => some (.lbracket, rest)
  | ']' :: rest => some (.rbracket, rest)
  | ',' :: rest => some (.comma, rest)
  | _ => none

def startsNumber : Text → Bool
  | '.' :: c :: _ => isAsciiDigit c
  | c :: _ => isAsciiDigit c
  | [] => false

def lexOne (s : Text) : Option (Token × Text) :=
  if s.head?.any isNameStart then lexWord s
  else if startsNumber s then lexNumber s
  else lexSymbol s

def tokenizeWith : Nat → Text → Option (List Token)
  | _, [] => some []
  | 0, _ :: _ => none
  | fuel + 1, c :: rest =>
    if isBlank c then tokenizeWith fuel rest
    else
      match lexOne (c :: rest) with
      | some (token, later) => (tokenizeWith fuel later).map (token :: ·)
      | none => none

def tokenize (s : Text) : Option (List Token) := tokenizeWith s.length s

variable {rest s piece left right : Text} {c : Char} {token : Token}
  {tokens leftTokens rightTokens : List Token}

theorem length_dropWhile_le (keep : Char → Bool) (s : Text) :
    (s.dropWhile keep).length ≤ s.length :=
  (dropWhile_suffix keep).length_le

theorem length_takeMantissa_lt (starts : startsNumber s = true) :
    (takeMantissa s).2.length < s.length := by
  cases s with
  | nil => simp [startsNumber] at starts
  | cons c rest =>
    by_cases digit : isAsciiDigit c = true
    · have shorter := length_dropWhile_le isAsciiDigit rest
      unfold takeMantissa
      simp only [dropWhile_cons_of_pos digit]
      split
      · rename_i later found
        have fraction := length_dropWhile_le isAsciiDigit later
        rw [found, length_cons] at shorter
        exact Nat.lt_of_le_of_lt fraction (show later.length < rest.length + 1 by omega)
      · exact Nat.lt_succ_of_le shorter
    · have point : c = '.' := by
        unfold startsNumber at starts
        split at starts
        · next heads => exact (List.cons.inj heads).1
        · rename_i heads
          obtain ⟨rfl, _⟩ := List.cons.inj heads
          exact absurd starts digit
        · next heads => exact absurd heads nofun
      subst point
      have fraction := length_dropWhile_le isAsciiDigit rest
      exact Nat.lt_succ_of_le fraction

theorem length_takeExponent (s : Text) : (takeExponent s).2.length ≤ s.length := by
  unfold takeExponent
  split
  · exact Nat.le_refl _
  · rename_i c rest
    split
    · split
      · exact Nat.le_refl _
      · rename_i sign more
        have signed := length_dropWhile_le isAsciiDigit more
        have bare := length_dropWhile_le isAsciiDigit (sign :: more)
        simp only [length_cons] at bare
        split
        · simp only [length_cons]
          omega
        · split
          · simp only [length_cons]
            omega
          · exact Nat.le_refl _
    · exact Nat.le_refl _

theorem length_lexSymbol (lexed : lexSymbol s = some (token, rest)) : rest.length < s.length := by
  unfold lexSymbol at lexed
  split at lexed
  all_goals
    first
      | cases lexed
        simp only [length_cons]
        omega
      | cases lexed

theorem length_lexOne (lexed : lexOne s = some (token, rest)) : rest.length < s.length := by
  unfold lexOne at lexed
  split_ifs at lexed
  · rename_i starts
    cases s with
    | nil => simp at starts
    | cons c later =>
      have word : isWordChar c = true := by
        simp only [List.head?_cons, any_some] at starts
        simp [isWordChar, isNamePart, starts]
      unfold lexWord at lexed
      rw [map_eq_some_iff] at lexed
      obtain ⟨_, _, same⟩ := lexed
      obtain ⟨_, rfl⟩ := Prod.mk.inj same
      rw [dropWhile_cons_of_pos word]
      exact Nat.lt_succ_of_le (length_dropWhile_le _ _)
  · rename_i starts
    unfold lexNumber at lexed
    simp only at lexed
    split at lexed
    · cases lexed
    · obtain ⟨_, rfl⟩ := Prod.mk.inj (some.inj lexed)
      exact Nat.lt_of_le_of_lt (length_takeExponent _) (length_takeMantissa_lt starts)
  · exact length_lexSymbol lexed

theorem tokenizeWith_eq {fuel : Nat} (enough : s.length ≤ fuel) :
    tokenizeWith fuel s = tokenize s := by
  unfold tokenize
  generalize bound : s.length = size at enough
  induction size using Nat.strongRecOn generalizing fuel s with
  | ind size ih =>
    cases s with
    | nil =>
      subst bound
      cases fuel <;> rfl
    | cons c rest =>
      simp only [length_cons] at bound
      subst bound
      cases fuel with
      | zero => omega
      | succ fuel =>
        simp only [tokenizeWith]
        split
        · exact ih rest.length (Nat.lt_succ_self _) rfl (by omega)
        · split
          · rename_i token later lexed
            have shorter := length_lexOne lexed
            rw [length_cons] at shorter
            rw [ih later.length (by omega) rfl (by omega), ih later.length (by omega) rfl
                (show later.length ≤ rest.length by omega)]
          · rfl

@[simp] theorem tokenize_nil : tokenize [] = some [] := rfl

theorem tokenize_blank (blank : isBlank c = true) (rest : Text) :
    tokenize (c :: rest) = tokenize rest := by
  rw [tokenize, length_cons, tokenizeWith, if_pos blank]
  rfl

theorem tokenize_lexOne (visible : isBlank c = false)
    (lexed : lexOne (c :: s) = some (token, rest)) :
    tokenize (c :: s) = (tokenize rest).map (token :: ·) := by
  have shorter := length_lexOne lexed
  rw [length_cons] at shorter
  rw [tokenize, length_cons, tokenizeWith, if_neg (by simp [visible]), lexed]
  simp only
  rw [tokenizeWith_eq (by omega)]

theorem tokenize_lexOne_none (visible : isBlank c = false)
    (failed : lexOne (c :: s) = none) : tokenize (c :: s) = none := by
  rw [tokenize, length_cons, tokenizeWith, if_neg (by simp [visible]), failed]

/-- Nothing follows, or a character that ends names and numbers. -/
def EndsWord (rest : Text) : Prop := rest.head?.any isWordChar = false

/-- The piece has the tokens wherever a word may end after it. -/
def Lexes (piece : Text) (tokens : List Token) : Prop :=
  ∀ rest, EndsWord rest → tokenize (piece ++ rest) = (tokenize rest).map (tokens ++ ·)

/-- The piece has the tokens whatever follows. -/
def LexesBefore (piece : Text) (tokens : List Token) : Prop :=
  ∀ rest, tokenize (piece ++ rest) = (tokenize rest).map (tokens ++ ·)

theorem LexesBefore.lexes (before : LexesBefore piece tokens) : Lexes piece tokens :=
  fun rest _ => before rest

theorem LexesBefore.append (first : LexesBefore left leftTokens)
    (second : Lexes right rightTokens) :
    Lexes (left ++ right) (leftTokens ++ rightTokens) := by
  intro rest ends
  rw [append_assoc, first, second rest ends, Option.map_map]
  congr 1
  funext tokens
  exact (append_assoc _ _ _).symm

theorem LexesBefore.trans (first : LexesBefore left leftTokens)
    (second : LexesBefore right rightTokens) :
    LexesBefore (left ++ right) (leftTokens ++ rightTokens) := by
  intro rest
  rw [append_assoc, first, second rest, Option.map_map]
  congr 1
  funext tokens
  exact (append_assoc _ _ _).symm

theorem Lexes.append (first : Lexes left leftTokens) (second : LexesBefore right rightTokens)
    (ends : EndsWord right) (nonempty : right ≠ []) :
    LexesBefore (left ++ right) (leftTokens ++ rightTokens) := by
  intro rest
  have ends' : EndsWord (right ++ rest) := by
    rw [EndsWord, List.head?_append_of_ne_nil _ nonempty]
    exact ends
  rw [append_assoc, first _ ends', second rest, Option.map_map]
  congr 1
  funext tokens
  exact (append_assoc _ _ _).symm

theorem Lexes.tokenize_eq (lexes : Lexes piece tokens) : tokenize piece = some tokens := by
  have whole := lexes [] rfl
  rw [append_nil, tokenize_nil, map_some, append_nil] at whole
  exact whole

theorem lexesBefore_blank (blank : isBlank c = true) : LexesBefore [c] [] := by
  intro rest
  rw [cons_append, nil_append, tokenize_blank blank]
  cases tokenize rest with
  | none | some => rfl

theorem lexesBefore_token (visible : isBlank c = false)
    (lexed : ∀ rest, lexOne (c :: (piece ++ rest)) = some (token, rest)) :
    LexesBefore (c :: piece) [token] := by
  intro rest
  rw [cons_append, tokenize_lexOne visible (lexed rest)]
  rfl

theorem lexesBefore_spaced {c : Char} (piece : Text) {token : Token} (visible : isBlank c = false)
    (lexed : ∀ rest, lexOne (c :: (piece ++ ' ' :: rest)) = some (token, ' ' :: rest)) :
    LexesBefore (' ' :: c :: (piece ++ [' '])) [token] := by
  intro rest
  have blank : isBlank ' ' = true := rfl
  rw [cons_append, tokenize_blank blank, cons_append, append_assoc, singleton_append]
  rw [tokenize_lexOne visible (lexed rest)]
  rfl

theorem takeWhile_append_of_all {keep : Char → Bool} {word : Text}
    (all : ∀ c ∈ word, keep c = true) (ends : rest.head?.any keep = false) :
    (word ++ rest).takeWhile keep = word ∧ (word ++ rest).dropWhile keep = rest := by
  induction word with
  | nil =>
    cases rest with
    | nil => exact ⟨rfl, rfl⟩
    | cons c later =>
      simp only [List.head?_cons, any_some] at ends
      simp [ends]
  | cons c word ih =>
    have kept := all c mem_cons_self
    obtain ⟨taken, dropped⟩ := ih fun d member =>
      all d (mem_cons_of_mem _ member)
    simp only [cons_append, takeWhile_cons_of_pos kept,
      dropWhile_cons_of_pos kept, taken, dropped, and_self]

theorem isBlank_of_isNameStart (starts : isNameStart c = true) : isBlank c = false := by
  by_contra blank
  rw [Bool.not_eq_false, isBlank, Bool.or_eq_true, beq_iff_eq, beq_iff_eq] at blank
  rcases blank with rfl | rfl <;> exact absurd starts (by decide)

theorem lexes_word {c : Char} {word : Text} {token : Token} (starts : isNameStart c = true)
    (all : ∀ d ∈ word, isWordChar d = true) (known : wordToken (c :: word) = some token) :
    Lexes (c :: word) [token] := by
  intro rest ends
  have whole : ∀ d ∈ c :: word, isWordChar d = true := by
    intro d member
    rcases mem_cons.mp member with rfl | later
    · simp [isWordChar, isNamePart, starts]
    · exact all d later
  obtain ⟨taken, dropped⟩ := takeWhile_append_of_all whole ends
  have lexed : lexOne (c :: (word ++ rest)) = some (token, rest) := by
    rw [lexOne, if_pos (by simpa using starts), lexWord]
    rw [← cons_append, taken, dropped, known]
    rfl
  rw [cons_append, tokenize_lexOne (isBlank_of_isNameStart starts) lexed]
  rfl

theorem lexesBefore_word (word : Text) {after : Text} (starts : isNameStart c = true)
    (all : ∀ d ∈ word, isWordChar d = true) (known : wordToken (c :: word) = some token)
    (lexes : LexesBefore after tokens) (ends : EndsWord after) (nonempty : after ≠ []) :
    LexesBefore (c :: (word ++ after)) (token :: tokens) :=
  (lexes_word starts all known).append lexes ends nonempty

theorem lexesBefore_space : LexesBefore [' '] [] := lexesBefore_blank rfl

theorem lexesBefore_lparen : LexesBefore ['('] [.lparen] :=
  lexesBefore_token rfl fun _ => rfl

theorem lexesBefore_rparen : LexesBefore [')'] [.rparen] :=
  lexesBefore_token rfl fun _ => rfl

theorem lexesBefore_lbracket : LexesBefore ['['] [.lbracket] :=
  lexesBefore_token rfl fun _ => rfl

theorem lexesBefore_rbracket : LexesBefore [']'] [.rbracket] :=
  lexesBefore_token rfl fun _ => rfl

theorem lexesBefore_minus : LexesBefore ['-'] [.op .sub] :=
  lexesBefore_token rfl fun _ => rfl

theorem lexesBefore_comma : LexesBefore [',', ' '] [.comma] := by
  have comma : LexesBefore [','] [.comma] :=
    lexesBefore_token rfl fun _ => rfl
  exact comma.trans lexesBefore_space

theorem lexesBefore_call {c : Char} (word : Text)
    (starts : isNameStart c = true) (all : ∀ d ∈ word, isWordChar d = true)
    (known : wordToken (c :: word) = some (.name (c :: word))) :
    LexesBefore (c :: (word ++ ['('])) [.name (c :: word), .lparen] :=
  lexesBefore_word word starts all known lexesBefore_lparen rfl (cons_ne_nil _ _)

theorem lexesBefore_keyword (word : Text) (starts : isNameStart c = true)
    (all : ∀ d ∈ word, isWordChar d = true) (known : wordToken (c :: word) = some token) :
    LexesBefore (' ' :: c :: (word ++ [' '])) [token] :=
  lexesBefore_space.trans (lexesBefore_word word starts all known
    lexesBefore_space rfl (cons_ne_nil _ _))

theorem Lexes.parenthesised (lexes : Lexes piece tokens) {opening : Text}
    {first : List Token} (before : LexesBefore opening first) :
    Lexes (opening ++ (piece ++ [')'])) (first ++ (tokens ++ [.rparen])) :=
  before.append (lexes.append lexesBefore_rparen rfl (cons_ne_nil _ _)).lexes

theorem LexesBefore.bracketed {opening : Text} {first : List Token}
    (before : LexesBefore opening first) (lexes : Lexes piece tokens) :
    Lexes (opening ++ ['['] ++ (piece ++ ([']'] ++ [')'])))
      (first ++ [.lbracket] ++ (tokens ++ ([.rbracket] ++ [.rparen]))) :=
  (before.trans lexesBefore_lbracket).append (lexes.append
    (lexesBefore_rbracket.trans lexesBefore_rparen) rfl (cons_ne_nil _ _)).lexes

/-- A decimal number: digits, and perhaps a fraction and an exponent. -/
structure NumberText where
  whole : Text
  fraction : Option Text
  exponent : Option (Char × Text)
  wholeDigits : whole ≠ [] ∧ ∀ c ∈ whole, isAsciiDigit c = true
  fractionDigits : ∀ digits ∈ fraction, ∀ c ∈ digits, isAsciiDigit c = true
  exponentDigits : ∀ pair ∈ exponent, (pair.1 = '+' ∨ pair.1 = '-') ∧
    pair.2 ≠ [] ∧ ∀ c ∈ pair.2, isAsciiDigit c = true

def NumberText.mantissa (number : NumberText) : Text :=
  match number.fraction with
  | some digits => number.whole ++ '.' :: digits
  | none => number.whole

def NumberText.exponentText (number : NumberText) : Text :=
  match number.exponent with
  | some (sign, digits) => 'e' :: sign :: digits
  | none => []

def NumberText.text (number : NumberText) : Text :=
  number.mantissa ++ number.exponentText

theorem not_isAsciiDigit_of_endsWord (ends : EndsWord rest) :
    rest.head?.any isAsciiDigit = false := by
  cases rest with
  | nil => rfl
  | cons c later =>
    simp only [EndsWord, List.head?_cons, any_some, isWordChar,
      isNamePart, Bool.or_eq_false_iff] at ends
    simp [ends.1.2]

theorem endsWord_cases (ends : EndsWord rest) :
    rest = [] ∨ ∃ c later, rest = c :: later ∧ c ≠ '.' ∧ c ≠ 'e' ∧ c ≠ 'E' ∧
      isAsciiDigit c = false := by
  cases rest with
  | nil => exact Or.inl rfl
  | cons c later =>
    right
    have other : isWordChar c = false := ends
    refine ⟨c, later, rfl, ?_, ?_, ?_, ?_⟩
    · rintro rfl
      exact absurd other (by decide)
    · rintro rfl
      exact absurd other (by decide)
    · rintro rfl
      exact absurd other (by decide)
    · exact not_isAsciiDigit_of_endsWord ends

theorem takeExponent_text (number : NumberText) (ends : EndsWord rest) :
    takeExponent (number.exponentText ++ rest) = (number.exponentText, rest) := by
  unfold NumberText.exponentText
  cases found : number.exponent with
  | none =>
    rcases endsWord_cases ends with rfl | ⟨c, later, rfl, _, small, large, _⟩
    · rfl
    · simp only [nil_append, takeExponent]
      rw [if_neg]
      rintro (rfl | rfl)
      · exact small rfl
      · exact large rfl
  | some pair =>
    obtain ⟨sign, digits⟩ := pair
    obtain ⟨isSign, some, all⟩ := number.exponentDigits (sign, digits) found
    obtain ⟨taken, dropped⟩ := takeWhile_append_of_all all (not_isAsciiDigit_of_endsWord ends)
    have head : (digits ++ rest).head?.any isAsciiDigit = true := by
      cases digits with
      | nil => exact absurd rfl some
      | cons d later => simpa using all d mem_cons_self
    simp only [cons_append, takeExponent, true_or, if_true]
    rw [if_pos ⟨isSign, head⟩, taken, dropped]

theorem takeMantissa_text (number : NumberText) (ends : EndsWord rest) :
    takeMantissa (number.text ++ rest) = (number.mantissa, number.exponentText ++ rest) := by
  have tail : (number.exponentText ++ rest).head?.any isAsciiDigit = false ∧
      (number.exponentText ++ rest).head? ≠ some '.' := by
    unfold NumberText.exponentText
    cases number.exponent with
    | none =>
      refine ⟨not_isAsciiDigit_of_endsWord ends, ?_⟩
      rcases endsWord_cases ends with rfl | ⟨c, later, rfl, point, _⟩
      · exact nofun
      · simpa using point
    | some pair => exact ⟨rfl, by simp⟩
  obtain ⟨noDigit, noPoint⟩ := tail
  rw [NumberText.text, append_assoc]
  unfold NumberText.mantissa
  cases found : number.fraction with
  | none =>
    obtain ⟨taken, dropped⟩ :=
      takeWhile_append_of_all number.wholeDigits.2 noDigit
    simp only [takeMantissa, taken, dropped]
    split
    · next later heads => simp [heads] at noPoint
    · rfl
  | some digits =>
    have point : ('.' :: (digits ++ (number.exponentText ++ rest))).head?.any
        isAsciiDigit = false := rfl
    obtain ⟨taken, dropped⟩ :=
      takeWhile_append_of_all number.wholeDigits.2 point
    obtain ⟨taken', dropped'⟩ := takeWhile_append_of_all
      (number.fractionDigits digits found) noDigit
    simp only [append_assoc, cons_append, takeMantissa, taken, dropped, taken', dropped']

theorem lexes_number (number : NumberText) : Lexes number.text [.number number.text] := by
  intro rest ends
  obtain ⟨nonempty, digits⟩ := number.wholeDigits
  have starts : ∃ c later, number.text = c :: later ∧ isAsciiDigit c = true := by
    cases whole : number.whole with
    | nil => exact absurd whole nonempty
    | cons c later =>
      have digit := digits c (by simp [whole])
      unfold NumberText.text NumberText.mantissa
      cases number.fraction with
      | none => exact ⟨c, later ++ number.exponentText, by simp [whole], digit⟩
      | some fraction =>
        exact ⟨c, later ++ '.' :: fraction ++ number.exponentText, by simp [whole], digit⟩
  obtain ⟨c, later, split, digit⟩ := starts
  have range := isAsciiDigit_iff.mp digit
  have notName : isNameStart c = false := by
    simp only [isNameStart, isAsciiLetter, isAsciiUpper, isAsciiLower,
      Bool.or_eq_false_iff, Bool.and_eq_false_iff, decide_eq_false_iff_not,
      beq_eq_false_iff_ne, Char.le_def, UInt32.le_iff_toNat_le]
    refine ⟨⟨⟨Or.inl ?_, Or.inl ?_⟩, ?_⟩, ?_⟩
    · change ¬ 65 ≤ c.toNat
      omega
    · change ¬ 97 ≤ c.toNat
      omega
    · rintro rfl
      exact absurd digit (by decide)
    · omega
  have visible : isBlank c = false := by
    simp only [isBlank, Bool.or_eq_false_iff, beq_eq_false_iff_ne]
    constructor
    · rintro rfl
      exact absurd digit (by decide)
    · rintro rfl
      exact absurd digit (by decide)
  have lexed : lexOne (number.text ++ rest) = some (.number number.text, rest) := by
    have startsHere : startsNumber (number.text ++ rest) = true := by
      rw [split]
      unfold startsNumber
      split
      · rename_i heads
        obtain ⟨rfl, _⟩ := List.cons.inj heads
        exact absurd digit (by decide)
      · rename_i heads
        obtain ⟨rfl, _⟩ := List.cons.inj heads
        exact digit
      · next heads => exact absurd heads nofun
    have noName : (number.text ++ rest).head?.any isNameStart = false := by
      rw [split]
      simpa using notName
    rw [lexOne, if_neg (by rw [noName]; exact Bool.false_ne_true), if_pos startsHere, lexNumber]
    simp only [takeMantissa_text number ends, takeExponent_text number ends]
    rw [if_neg (by rw [ends]; exact Bool.false_ne_true)]
    rfl
  rw [split] at lexed ⊢
  rw [cons_append] at lexed ⊢
  rw [tokenize_lexOne visible lexed]
  rfl

/-- The text is the tree, by the precedence and associativity of Python. -/
def ReadsAs (text : Text) (tree : Tree) : Prop :=
  ∃ tokens, tokenize text = some tokens ∧ Parses tokens tree

theorem readsAs_iff {text : Text} {tree : Tree} (lexed : tokenize text = some tokens) :
    ReadsAs text tree ↔ Parses tokens tree := by
  constructor
  · rintro ⟨found, lexed', parses⟩
    obtain rfl := some.inj (lexed'.symm.trans lexed)
    exact parses
  · exact fun parses => ⟨tokens, lexed, parses⟩

end PyGrammar
