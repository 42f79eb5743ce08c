import WriterAgent.Foundations.JsonTexts

/-!
# Writing JSON

`json.dumps` with its default `ensure_ascii` and the separators `,` and `:`:
every character outside of printable ASCII is written as an escape, above
the first plane as two.
-/

namespace WriterAgent

open PyText List

def hexDigit (value : ℕ) : Char :=
  if value < 10 then Char.ofNat ('0'.toNat + value) else Char.ofNat ('a'.toNat + value - 10)

/-- `'\\u{0:04x}'.format(code)`. -/
def unicodeEscape (code : ℕ) : Text :=
  '\\' :: 'u' :: [hexDigit (code / 4096 % 16), hexDigit (code / 256 % 16),
    hexDigit (code / 16 % 16), hexDigit (code % 16)]

def escapeLetter : Char → Option Char
  | '"' => some '"'
  | '\\' => some '\\'
  | '\n' => some 'n'
  | '\r' => some 'r'
  | '\t' => some 't'
  | c => if c = Char.ofNat 8 then some 'b' else if c = Char.ofNat 12 then some 'f' else none

/-- `py_encode_basestring_ascii`, one character. -/
def asciiEscape (c : Char) : Text :=
  match escapeLetter c with
  | some letter => ['\\', letter]
  | none =>
    if ' ' ≤ c ∧ c ≤ '~' then [c]
    else if c.toNat < 0x10000 then unicodeEscape c.toNat
    else
      unicodeEscape (0xD800 + (c.toNat - 0x10000) / 0x400) ++
        unicodeEscape (0xDC00 + (c.toNat - 0x10000) % 0x400)

def dumpsString (s : Text) : Text := '"' :: s.flatMap asciiEscape ++ ['"']

def escapeUnits (c : Char) : List JsonUnit :=
  if (escapeLetter c).isSome ∨ ' ' ≤ c ∧ c ≤ '~' then [.char c]
  else if c.toNat < 0x10000 then [.escape c.toNat]
  else [.escape (0xD800 + (c.toNat - 0x10000) / 0x400),
    .escape (0xDC00 + (c.toNat - 0x10000) % 0x400)]

theorem hexDigit?_hexDigit : ∀ value < 16, hexDigit? (hexDigit value) = some value := by
  decide

theorem escapeLetter_eq_some {c letter : Char} (found : escapeLetter c = some letter) :
    letter ≠ 'u' ∧ jsonEscape letter = some c := by
  rw [escapeLetter.eq_def] at found
  split at found
  · cases found; exact ⟨by decide, rfl⟩
  · cases found; exact ⟨by decide, rfl⟩
  · cases found; exact ⟨by decide, rfl⟩
  · cases found; exact ⟨by decide, rfl⟩
  · cases found; exact ⟨by decide, rfl⟩
  · split_ifs at found with backspace feed
    · cases found
      exact ⟨by decide, backspace ▸ rfl⟩
    · cases found
      exact ⟨by decide, feed ▸ rfl⟩

theorem escapeLetter_eq_none {c : Char} (plain : escapeLetter c = none) : c ≠ '"' ∧ c ≠ '\\' := by
  constructor
  · rintro rfl
    cases plain
  · rintro rfl
    cases plain

variable {tokens : List JsonToken} {units : List JsonUnit}

theorem run_unicodeEscape {code : ℕ} (small : code < 0x10000) :
    JsonLexer.run ⟨tokens, .string units⟩ (unicodeEscape code) =
      some ⟨tokens, .string (units ++ [.escape code])⟩ := by
  have first := hexDigit?_hexDigit (code / 4096 % 16) (Nat.mod_lt _ (by decide))
  have second := hexDigit?_hexDigit (code / 256 % 16) (Nat.mod_lt _ (by decide))
  have third := hexDigit?_hexDigit (code / 16 % 16) (Nat.mod_lt _ (by decide))
  have fourth := hexDigit?_hexDigit (code % 16) (Nat.mod_lt _ (by decide))
  have total : hexValue [hexDigit (code / 4096 % 16), hexDigit (code / 256 % 16),
      hexDigit (code / 16 % 16), hexDigit (code % 16)] = code := by
    simp only [hexValue, foldl_cons, foldl_nil, first, second, third, fourth, Option.getD_some]
    omega
  simp only [unicodeEscape, JsonLexer.run_cons, JsonLexer.step]
  simp [first, second, third, fourth, JsonLexer.run, total]

theorem run_asciiEscape (c : Char) : JsonLexer.run ⟨tokens, .string units⟩ (asciiEscape c) =
      some ⟨tokens, .string (units ++ escapeUnits c)⟩ := by
  rw [asciiEscape, escapeUnits]
  cases found : escapeLetter c with
  | some letter =>
    obtain ⟨notUnicode, reads⟩ := escapeLetter_eq_some found
    simp [JsonLexer.run, JsonLexer.step, notUnicode, reads]
  | none =>
    obtain ⟨noQuote, noBackslash⟩ := escapeLetter_eq_none found
    by_cases printable : ' ' ≤ c ∧ c ≤ '~'
    · have noControl : isControl c = false := by
        rw [isControl, decide_eq_false_iff_not]
        exact Nat.not_lt.mpr printable.1
      simp [printable, JsonLexer.run, JsonLexer.step, noQuote, noBackslash, noControl]
    · have special : ¬ ((none : Option Char).isSome = true ∨ ' ' ≤ c ∧ c ≤ '~') :=
        fun plain => plain.elim Bool.false_ne_true printable
      split_ifs with small
      · exact run_unicodeEscape small
      · have bound : c.toNat < 0x110000 := c.valid.elim (fun h => h.trans (by decide)) And.right
        rw [JsonLexer.run_append, run_unicodeEscape (by omega), Option.bind_some,
          run_unicodeEscape (by omega), append_assoc]
        rfl

theorem run_escapes (s : Text) : JsonLexer.run ⟨tokens, .string units⟩ (s.flatMap asciiEscape) =
      some ⟨tokens, .string (units ++ s.flatMap escapeUnits)⟩ := by
  induction s generalizing units with
  | nil => simp [JsonLexer.run]
  | cons c rest ih =>
    rw [flatMap_cons, JsonLexer.run_append, run_asciiEscape, Option.bind_some, ih,
      flatMap_cons, append_assoc]

theorem unitsText_escapeUnits (halves : ℕ → Char) (c : Char) (rest : List JsonUnit) :
    unitsText halves (escapeUnits c ++ rest) = c :: unitsText halves rest := by
  rw [escapeUnits]
  split_ifs with plain small
  · rfl
  · have noHigh : isHighSurrogate c.toNat = false := by
      rcases c.valid with low | ⟨high, -⟩
      · simp only [isHighSurrogate, Bool.and_eq_false_iff, decide_eq_false_iff_not]
        exact Or.inl (Nat.not_le.mpr low)
      · simp only [isHighSurrogate, Bool.and_eq_false_iff, decide_eq_false_iff_not]
        exact Or.inr (Nat.not_lt.mpr (Nat.le_of_lt (Nat.lt_of_le_of_lt (by decide) high)))
    have noLow : isLowSurrogate c.toNat = false := by
      rcases c.valid with low | ⟨high, -⟩
      · simp only [isLowSurrogate, Bool.and_eq_false_iff, decide_eq_false_iff_not]
        exact Or.inl (Nat.not_le.mpr (Nat.lt_of_lt_of_le low (by decide)))
      · simp only [isLowSurrogate, Bool.and_eq_false_iff, decide_eq_false_iff_not]
        exact Or.inr (Nat.not_lt.mpr high)
    cases rest with
    | nil => simp [unitsText, noHigh, noLow]
    | cons unit rest =>
      cases unit with
      | char d | escape low => simp [unitsText, noHigh, noLow]
  · have bound : c.toNat < 0x110000 := c.valid.elim (fun h => h.trans (by decide)) And.right
    have isHigh : isHighSurrogate (0xD800 + (c.toNat - 0x10000) / 0x400) = true := by
      simp only [isHighSurrogate, Bool.and_eq_true, decide_eq_true_iff]
      omega
    have isLow : isLowSurrogate (0xDC00 + (c.toNat - 0x10000) % 0x400) = true := by
      simp only [isLowSurrogate, Bool.and_eq_true, decide_eq_true_iff]
      omega
    have whole : 0x10000 + (0xD800 + (c.toNat - 0x10000) / 0x400 - 0xD800) * 0x400 +
        (0xDC00 + (c.toNat - 0x10000) % 0x400 - 0xDC00) = c.toNat := by
      omega
    simp only [cons_append, nil_append, unitsText, isHigh, isLow, Bool.and_self,
      if_true, whole, Char.ofNat_toNat]

theorem unitsText_flatMap_escapeUnits (halves : ℕ → Char) (s : Text) :
    unitsText halves (s.flatMap escapeUnits) = s := by
  induction s with
  | nil => rfl
  | cons c rest ih => rw [flatMap_cons, unitsText_escapeUnits, ih]

def Lexes (text : Text) (tokens : List JsonToken) : Prop :=
  ∀ before, JsonLexer.run ⟨before, .outside []⟩ text = some ⟨before ++ tokens, .outside []⟩

theorem Lexes.append {front back : Text} {first second : List JsonToken}
    (lexes : Lexes front first) (lexes' : Lexes back second) :
    Lexes (front ++ back) (first ++ second) := by
  intro before
  rw [JsonLexer.run_append, lexes, Option.bind_some, lexes', append_assoc]

theorem lexes_symbol {c : Char} (isSymbol : isJsonSymbol c = true) : Lexes [c] [.symbol c] := by
  have noSpace : isJsonSpace c = false := by
    simp only [isJsonSymbol, Bool.or_eq_true, beq_iff_eq] at isSymbol
    rcases isSymbol with ((((rfl | rfl) | rfl) | rfl) | rfl) | rfl <;> rfl
  intro before
  simp [JsonLexer.run, JsonLexer.step, noSpace, isSymbol, JsonLexer.flush]

def stringToken (s : Text) : JsonToken := .string (s.flatMap escapeUnits)

theorem lexes_dumpsString (s : Text) : Lexes (dumpsString s) [stringToken s] := by
  intro before
  have opened : JsonLexer.step ⟨before, .outside []⟩ '"' = some ⟨before, .string []⟩ := rfl
  rw [dumpsString, cons_append, JsonLexer.run_cons, opened, Option.bind_some, JsonLexer.run_append,
    run_escapes]
  rfl

def dumpsMember (field : Text × Text) : Text :=
  dumpsString field.1 ++ ':' :: dumpsString field.2

/-- `json.dumps` of a dictionary of strings. -/
def dumpsStringMap : List (Text × Text) → Text
  | [] => ['{', '}']
  | first :: rest =>
    '{' :: (dumpsMember first ++ rest.flatMap fun field => ',' :: dumpsMember field) ++ ['}']

def memberTokens (field : Text × Text) : List JsonToken :=
  [stringToken field.1, .symbol ':', stringToken field.2]

def stringMapTokens : List (Text × Text) → List JsonToken
  | [] => [.symbol '{', .symbol '}']
  | first :: rest => .symbol '{' ::
      (memberTokens first ++ rest.flatMap fun field => .symbol ',' :: memberTokens field) ++
      [.symbol '}']

theorem lexes_dumpsMember (field : Text × Text) : Lexes (dumpsMember field) (memberTokens field) :=
  (lexes_dumpsString field.1).append ((lexes_symbol rfl).append (lexes_dumpsString field.2))

theorem lexes_dumpsStringMap (fields : List (Text × Text)) :
    Lexes (dumpsStringMap fields) (stringMapTokens fields) := by
  have others : ∀ rest : List (Text × Text),
      Lexes (rest.flatMap fun field => ',' :: dumpsMember field)
        (rest.flatMap fun field => .symbol ',' :: memberTokens field) := by
    intro rest
    induction rest with
    | nil =>
      intro before
      simp [JsonLexer.run]
    | cons field rest ih => exact ((lexes_symbol rfl).append (lexes_dumpsMember field)).append ih
  cases fields with
  | nil => exact (lexes_symbol rfl).append (lexes_symbol rfl)
  | cons first rest =>
    exact ((lexes_symbol rfl).append ((lexes_dumpsMember first).append (others rest))).append
      (lexes_symbol rfl)

def ParsesTo {ν : Type} (parts : JsonParts ν) (tokens : List JsonToken) (value : Json ν) : Prop :=
  ∀ stack, tokens.foldlM (JsonParser.step parts) ⟨stack, .value⟩ = JsonParser.complete value stack

section Values

variable {ν : Type} (parts : JsonParts ν)

def textField (field : Text × Text) : Text × Json ν := (field.1, .str field.2)

theorem stepKey_stringToken (fields : Json.Fields ν) (stack : List (JsonFrame ν)) (key : Text) :
    JsonParser.stepKey parts (.object fields :: stack) (stringToken key) =
      some ⟨.member fields key :: stack, .colon⟩ := by
  rw [stringToken, JsonParser.stepKey, unitsText_flatMap_escapeUnits]

theorem stepValue_stringToken (stack : List (JsonFrame ν)) (s : Text) :
    JsonParser.stepValue parts stack (stringToken s) = JsonParser.complete (.str s) stack := by
  rw [stringToken, JsonParser.stepValue, unitsText_flatMap_escapeUnits]

theorem parse_member {read : Json.Fields ν} {field : Text × Text}
    (fresh : field.1 ∉ read.map Prod.fst) (stack : List (JsonFrame ν)) {expect : JsonExpect ν}
    (expected : expect = .firstKey ∨ expect = .key) :
    (memberTokens field).foldlM (JsonParser.step parts) ⟨.object read :: stack, expect⟩ =
      some ⟨.object (read ++ [textField field]) :: stack, .behind⟩ := by
  have isKey : JsonParser.step parts ⟨.object read :: stack, expect⟩ (stringToken field.1) =
      some ⟨.member read field.1 :: stack, .colon⟩ := by
    rw [← stepKey_stringToken parts]
    rcases expected with rfl | rfl
    · have noBrace : stringToken field.1 ≠ .symbol '}' := nofun
      rw [JsonParser.step, if_neg noBrace]
    · rfl
  have isColon : JsonParser.step parts ⟨.member read field.1 :: stack, .colon⟩ (.symbol ':') =
      some ⟨.member read field.1 :: stack, .value⟩ := rfl
  have isValue : JsonParser.step parts ⟨.member read field.1 :: stack, .value⟩
      (stringToken field.2) = some ⟨.object (read ++ [textField field]) :: stack, .behind⟩ := by
    rw [JsonParser.step, stepValue_stringToken, JsonParser.complete,
      PyDict.insertEntry_of_notMem fresh]
    rfl
  simp only [memberTokens, foldlM_cons, foldlM_nil, isKey, isColon, isValue,
    Option.bind_eq_bind, Option.bind_some, Option.pure_def]

theorem parse_members {read : Json.Fields ν} {rest : List (Text × Text)}
    (distinct : ((read ++ rest.map textField).map Prod.fst).Nodup) (stack : List (JsonFrame ν)) :
    (rest.flatMap (fun field => JsonToken.symbol ',' :: memberTokens field) ++
        [JsonToken.symbol '}']).foldlM (JsonParser.step parts) ⟨.object read :: stack, .behind⟩ =
      JsonParser.complete (.obj (read ++ rest.map textField)) stack := by
  induction rest generalizing read with
  | nil =>
    rw [map_nil, append_nil, flatMap_nil, nil_append]
    exact Option.bind_fun_some _
  | cons field rest ih =>
    have fresh : field.1 ∉ read.map Prod.fst := by
      intro member
      rw [map_append, nodup_append] at distinct
      exact distinct.2.2 _ member _ (by simp [textField]) rfl
    have isComma : JsonParser.step parts ⟨.object read :: stack, .behind⟩ (.symbol ',') =
        some ⟨.object read :: stack, .key⟩ := rfl
    have tail := @ih (read ++ [textField field]) (by simpa using distinct)
    rw [append_assoc, singleton_append] at tail
    rw [flatMap_cons, append_assoc, cons_append, foldlM_cons, isComma, Option.bind_eq_bind,
      Option.bind_some, foldlM_append, parse_member parts fresh stack (Or.inr rfl),
      Option.bind_eq_bind, Option.bind_some, tail, map_cons]

theorem parsesTo_stringMapTokens {fields : List (Text × Text)}
    (distinct : (fields.map Prod.fst).Nodup) :
    ParsesTo parts (stringMapTokens fields) (.obj (fields.map textField)) := by
  intro stack
  have isBrace : JsonParser.step parts ⟨stack, .value⟩ (.symbol '{') =
      some ⟨.object [] :: stack, .firstKey⟩ := rfl
  cases fields with
  | nil => exact Option.bind_fun_some _
  | cons first rest =>
    have names : ((([textField first] : Json.Fields ν) ++
        rest.map textField).map Prod.fst).Nodup := by
      simpa [textField, Function.comp_def] using distinct
    rw [stringMapTokens, cons_append, foldlM_cons, isBrace, Option.bind_eq_bind, Option.bind_some,
      append_assoc, foldlM_append, parse_member parts not_mem_nil stack (Or.inl rfl),
      Option.bind_eq_bind, Option.bind_some, nil_append, parse_members parts names stack]
    rfl

end Values

end WriterAgent
