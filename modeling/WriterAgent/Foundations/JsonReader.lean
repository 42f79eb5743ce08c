import WriterAgent.Foundations.Json
import WriterAgent.Foundations.TextScan

/-!
# Reading JSON

`json.loads` in its strict mode: the characters make tokens, and a machine with a
stack of open arrays and objects makes a value of the tokens.  A `\u` escape may
be half of a surrogate pair; a half alone is no character, and stands for one
that a parameter gives.
-/

namespace WriterAgent

open PyText

/-- A character of a string, or the code unit of a `\u` escape. -/
inductive JsonUnit where
  | char (c : Char)
  | escape (code : ℕ)
  deriving DecidableEq, Repr

inductive JsonToken where
  | symbol (c : Char)
  | word (text : Text)
  | string (units : List JsonUnit)
  deriving DecidableEq, Repr

/-- Where the reader of characters is: in a word, which may be empty, in a
string, behind a backslash, or in the digits of a `\u` escape. -/
inductive JsonMode where
  | outside (word : Text)
  | string (units : List JsonUnit)
  | escape (units : List JsonUnit)
  | unicode (units : List JsonUnit) (digits : Text)
  deriving DecidableEq, Repr

structure JsonLexer where
  tokens : List JsonToken
  mode : JsonMode
  deriving DecidableEq, Repr

def isJsonSpace (c : Char) : Bool :=
  c == ' ' || c == '\t' || c == '\n' || c == '\r'

def isJsonSymbol (c : Char) : Bool :=
  c == '{' || c == '}' || c == '[' || c == ']' || c == ',' || c == ':'

def isJsonWord (c : Char) : Bool :=
  isAsciiLetter c || isAsciiDigit c || c == '-' || c == '+' || c == '.'

def isControl (c : Char) : Bool := c.toNat < 0x20

def jsonEscape : Char → Option Char
  | '"' => some '"'
  | '\\' => some '\\'
  | '/' => some '/'
  | 'b' => some (Char.ofNat 8)
  | 'f' => some (Char.ofNat 12)
  | 'n' => some '\n'
  | 'r' => some '\r'
  | 't' => some '\t'
  | _ => none

def hexDigit? (c : Char) : Option ℕ :=
  if isAsciiDigit c then some (c.toNat - '0'.toNat)
  else if 'a' ≤ c && c ≤ 'f' then some (c.toNat - 'a'.toNat + 10)
  else if 'A' ≤ c && c ≤ 'F' then some (c.toNat - 'A'.toNat + 10)
  else none

def hexValue (digits : Text) : ℕ :=
  digits.foldl (fun value c => 16 * value + (hexDigit? c).getD 0) 0

namespace JsonLexer

def start : JsonLexer := ⟨[], .outside []⟩

def flush (tokens : List JsonToken) (word : Text) : List JsonToken :=
  if word.isEmpty then tokens else tokens ++ [.word word]

def step (lexer : JsonLexer) (c : Char) : Option JsonLexer :=
  match lexer.mode with
  | .outside word =>
    if isJsonSpace c then some ⟨flush lexer.tokens word, .outside []⟩
    else if isJsonSymbol c then
      some ⟨flush lexer.tokens word ++ [.symbol c], .outside []⟩
    else if c = '"' then some ⟨flush lexer.tokens word, .string []⟩
    else if isJsonWord c then some ⟨lexer.tokens, .outside (word ++ [c])⟩
    else none
  | .string units =>
    if c = '"' then some ⟨lexer.tokens ++ [.string units], .outside []⟩
    else if c = '\\' then some ⟨lexer.tokens, .escape units⟩
    else if isControl c then none
    else some ⟨lexer.tokens, .string (units ++ [.char c])⟩
  | .escape units =>
    if c = 'u' then some ⟨lexer.tokens, .unicode units []⟩
    else (jsonEscape c).map fun escaped =>
      ⟨lexer.tokens, .string (units ++ [.char escaped])⟩
  | .unicode units digits =>
    if (hexDigit? c).isNone then none
    else if digits.length < 3 then
      some ⟨lexer.tokens, .unicode units (digits ++ [c])⟩
    else some ⟨lexer.tokens, .string (units ++ [.escape (hexValue (digits ++ [c]))])⟩

def run (lexer : JsonLexer) (s : Text) : Option JsonLexer :=
  s.foldlM step lexer

def finish (lexer : JsonLexer) : Option (List JsonToken) :=
  match lexer.mode with
  | .outside word => some (flush lexer.tokens word)
  | _ => none

end JsonLexer

def jsonTokens (s : Text) : Option (List JsonToken) :=
  (JsonLexer.start.run s).bind JsonLexer.finish

def isHighSurrogate (code : ℕ) : Bool := 0xD800 ≤ code && code < 0xDC00

def isLowSurrogate (code : ℕ) : Bool := 0xDC00 ≤ code && code < 0xE000

/-- The characters of a string; `halves` stands for a surrogate alone. -/
def unitsText (halves : ℕ → Char) : List JsonUnit → Text
  | [] => []
  | .char c :: rest => c :: unitsText halves rest
  | .escape high :: .escape low :: rest =>
    if isHighSurrogate high && isLowSurrogate low then
      Char.ofNat (0x10000 + (high - 0xD800) * 0x400 + (low - 0xDC00)) :: unitsText halves rest
    else
      (if isHighSurrogate high || isLowSurrogate high then halves high
        else Char.ofNat high) :: unitsText halves (.escape low :: rest)
  | .escape code :: rest =>
    (if isHighSurrogate code || isLowSurrogate code then halves code
      else Char.ofNat code) :: unitsText halves rest

def isNumberTail (s : Text) : Bool :=
  let exponent : Text → Bool
    | [] => true
    | e :: rest =>
      (e == 'e' || e == 'E') && (let digits := match rest with
          | '+' :: later => later
          | '-' :: later => later
          | other => other
        !digits.isEmpty && digits.all isAsciiDigit)
  match s with
  | '.' :: rest => !(rest.takeWhile isAsciiDigit).isEmpty && exponent (rest.dropWhile isAsciiDigit)
  | other => exponent other

def isJsonNumber (s : Text) : Bool :=
  match (match s with | '-' :: rest => rest | other => other) with
  | '0' :: rest => isNumberTail rest
  | d :: rest => isAsciiDigit d && isNumberTail (rest.dropWhile isAsciiDigit)
  | [] => false

/-- How numbers are made of their texts, and what stands for a surrogate
alone; Python reads three names as numbers too. -/
structure JsonParts (ν : Type) where
  number : Text → Option ν
  halves : ℕ → Char

section Values

variable {ν : Type} (parts : JsonParts ν)

def wordValue (word : Text) : Option (Json ν) :=
  if word = "null".toList then some .null
  else if word = "true".toList then some (.bool true)
  else if word = "false".toList then some (.bool false)
  else if isJsonNumber word ∨ word = "NaN".toList ∨
      word = "Infinity".toList ∨ word = "-Infinity".toList then
    (parts.number word).map .num
  else none

end Values

/-- An open array, an open object, or an object with a key whose value is to
come. -/
inductive JsonFrame (ν : Type) where
  | array (items : List (Json ν))
  | object (fields : Json.Fields ν)
  | member (fields : Json.Fields ν) (key : Text)

/-- What may come next: a value, a value or the end of an array, a key or the
end of an object, a key, a colon, or what stands behind a value; last, the whole
value. -/
inductive JsonExpect (ν : Type) where
  | value
  | firstItem
  | firstKey
  | key
  | colon
  | behind
  | whole (value : Json ν)

structure JsonParser (ν : Type) where
  stack : List (JsonFrame ν)
  expect : JsonExpect ν

namespace JsonParser

variable {ν : Type}

def start : JsonParser ν := ⟨[], .value⟩

def complete (value : Json ν) : List (JsonFrame ν) → Option (JsonParser ν)
  | [] => some ⟨[], .whole value⟩
  | .array items :: rest => some ⟨.array (items ++ [value]) :: rest, .behind⟩
  | .member fields key :: rest =>
    some ⟨.object (PyDict.insertEntry key value fields) :: rest, .behind⟩
  | .object _ :: _ => none

def stepValue (parts : JsonParts ν) (stack : List (JsonFrame ν)) : JsonToken → Option (JsonParser ν)
  | .symbol '[' => some ⟨.array [] :: stack, .firstItem⟩
  | .symbol '{' => some ⟨.object [] :: stack, .firstKey⟩
  | .symbol _ => none
  | .word word => (wordValue parts word).bind (complete · stack)
  | .string units => complete (.str (unitsText parts.halves units)) stack

def stepKey (parts : JsonParts ν) : List (JsonFrame ν) → JsonToken → Option (JsonParser ν)
  | .object fields :: rest, .string units =>
    some ⟨.member fields (unitsText parts.halves units) :: rest, .colon⟩
  | _, _ => none

def stepBehind : List (JsonFrame ν) → JsonToken → Option (JsonParser ν)
  | .array items :: rest, .symbol c =>
    if c = ',' then some ⟨.array items :: rest, .value⟩
    else if c = ']' then complete (.arr items) rest
    else none
  | .object fields :: rest, .symbol c =>
    if c = ',' then some ⟨.object fields :: rest, .key⟩
    else if c = '}' then complete (.obj fields) rest
    else none
  | _, _ => none

def step (parts : JsonParts ν) (parser : JsonParser ν) (token : JsonToken) :
    Option (JsonParser ν) :=
  match parser.expect with
  | .value => stepValue parts parser.stack token
  | .firstItem =>
    if token = .symbol ']' then stepBehind parser.stack token
    else stepValue parts parser.stack token
  | .firstKey =>
    if token = .symbol '}' then stepBehind parser.stack token
    else stepKey parts parser.stack token
  | .key => stepKey parts parser.stack token
  | .colon => if token = .symbol ':' then some ⟨parser.stack, .value⟩ else none
  | .behind => stepBehind parser.stack token
  | .whole _ => none

variable {c : Char}

def finish (parser : JsonParser ν) : Option (Json ν) :=
  match parser.expect with
  | .whole value => some value
  | _ => none

end JsonParser

def parseTokens {ν : Type} (parts : JsonParts ν) (tokens : List JsonToken) : Option (Json ν) :=
  (tokens.foldlM (JsonParser.step parts) .start).bind JsonParser.finish

/-- `json.loads`. -/
def jsonLoads {ν : Type} (parts : JsonParts ν) (s : Text) : Option (Json ν) :=
  (jsonTokens s).bind (parseTokens parts)

/-- White space and control characters have no meaning outside of strings. -/
def IsBlank (c : Char) : Prop := isSpace c = true ∨ isControl c = true

theorem IsBlank.toNat (blank : IsBlank c) : c.toNat ≤ 32 ∨ 127 < c.toNat := by
  rcases blank with space | control
  · simp only [isSpace, Bool.or_eq_true, Bool.and_eq_true, decide_eq_true_eq, beq_iff_eq] at space
    omega
  · simp only [isControl, decide_eq_true_eq] at control
    omega

theorem IsBlank.ne {d : Char} (blank : IsBlank c)
    (visible : 32 < d.toNat ∧ d.toNat ≤ 127) : c ≠ d := by
  rintro rfl
  have outer := blank.toNat
  omega

theorem isJsonWord_toNat (isWord : isJsonWord c = true) : 32 < c.toNat ∧ c.toNat ≤ 127 := by
  have ranges : ((65 ≤ c.toNat ∧ c.toNat ≤ 90 ∨ 97 ≤ c.toNat ∧ c.toNat ≤ 122) ∨
      48 ≤ c.toNat ∧ c.toNat ≤ 57) ∨ c = '-' ∨ c = '+' ∨ c = '.' := by
    simpa [isJsonWord, isAsciiLetter, isAsciiUpper, isAsciiLower, isAsciiDigit,
      Char.le_def, UInt32.le_iff_toNat_le, or_assoc] using isWord
  rcases ranges with letterOrDigit | rfl | rfl | rfl
  · omega
  · decide
  · decide
  · decide

theorem IsBlank.not_isJsonWord (blank : IsBlank c) : isJsonWord c = false := by
  by_contra isWord
  rw [Bool.not_eq_false] at isWord
  exact blank.ne (isJsonWord_toNat isWord) rfl

theorem IsBlank.not_isJsonSymbol (blank : IsBlank c) : isJsonSymbol c = false := by
  simp only [isJsonSymbol, Bool.or_eq_false_iff, beq_eq_false_iff_ne]
  exact ⟨⟨⟨⟨⟨blank.ne (by decide), blank.ne (by decide)⟩, blank.ne (by decide)⟩,
    blank.ne (by decide)⟩, blank.ne (by decide)⟩, blank.ne (by decide)⟩

theorem IsBlank.hexDigit? (blank : IsBlank c) : hexDigit? c = none := by
  have outer := blank.toNat
  rw [WriterAgent.hexDigit?, if_neg, if_neg, if_neg]
  · simp only [Char.le_def, UInt32.le_iff_toNat_le, Bool.and_eq_true,
      decide_eq_true_eq]
    exact fun bounds => by
      have low : 65 ≤ c.toNat := bounds.1
      have high : c.toNat ≤ 70 := bounds.2
      omega
  · simp only [Char.le_def, UInt32.le_iff_toNat_le, Bool.and_eq_true,
      decide_eq_true_eq]
    exact fun bounds => by
      have low : 97 ≤ c.toNat := bounds.1
      have high : c.toNat ≤ 102 := bounds.2
      omega
  · intro digit
    have word : isJsonWord c = true := by simp [isJsonWord, digit]
    rw [blank.not_isJsonWord] at word
    cases word

theorem IsBlank.jsonEscape (blank : IsBlank c) : jsonEscape c = none := by
  have outer := blank.toNat
  rw [jsonEscape.eq_def]
  split <;> first | rfl | exact absurd outer (by decide)

namespace JsonLexer

theorem step_blank {lexer next : JsonLexer} (blank : IsBlank c) (taken : lexer.step c = some next) :
    (isJsonSpace c = true ∧ ∃ word, lexer.mode = .outside word ∧
        next = ⟨flush lexer.tokens word, .outside []⟩) ∨
      isControl c = false ∧ ∃ units, lexer.mode = .string units ∧
        next.mode = .string (units ++ [.char c]) := by
  rw [step] at taken
  split at taken
  · rename_i word outside
    split at taken
    · rename_i space
      cases taken
      exact .inl ⟨space, word, outside, rfl⟩
    · rw [blank.not_isJsonSymbol, if_neg (blank.ne (by decide)), blank.not_isJsonWord] at taken
      cases taken
  · rename_i units inString
    rw [if_neg (blank.ne (by decide)), if_neg (blank.ne (by decide))] at taken
    split_ifs at taken with plain
    cases taken
    exact .inr ⟨Bool.not_eq_true _ ▸ plain, units, inString, rfl⟩
  · rw [if_neg (blank.ne (by decide)), blank.jsonEscape] at taken
    cases taken
  · rw [blank.hexDigit?] at taken
    cases taken

end JsonLexer

end WriterAgent
