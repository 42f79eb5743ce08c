import WriterAgent.Foundations.JsonShapes
import WriterAgent.Framework.JsonUtils

/-!
# What the repair does to JSON

In a text that is JSON, the repair puts a second backslash before a lone one that
starts a command word, and does nothing else.
-/

namespace WriterAgent.Framework

open PyText List Option

/-- `safe_json_loads(text, strict=True)` with the default `None`. -/
def safeJsonLoadsStrict {ν : Type} (readers : JsonReaders ν) (text : Text) : Json ν :=
  if (strip text).isEmpty then .null else (readers.loads text).getD .null

/-- The text with each backslash doubled that `_LATEX_CLASH_RE` matches. -/
def doubleClashes (isWord : Char → Bool) : Option Char → Text → Text
  | _, [] => []
  | before, c :: rest =>
    if (latexClash? isWord before (c :: rest)).isSome then
      '\\' :: c :: doubleClashes isWord (some c) rest
    else c :: doubleClashes isWord (some c) rest

variable {isWord : Char → Bool}

/-- A command word starts with a letter that is no `u`, and has no backslash. -/
def isCommandWord : Text → Bool
  | c :: rest => isAsciiLetter c && c != 'u' && !(c :: rest).contains '\\'
  | [] => false

theorem latexClashWords_isCommandWord :
    latexClashWords.all (fun word => isCommandWord word.toList) = true := by
  decide

variable {ν : Type} {s rest : Text} {c : Char} {before : Option Char}
  {next lexer : JsonLexer} {units : List JsonUnit} {tokens : List JsonToken}
  {parts : JsonParts ν} {value : Json ν}

theorem latexClash?_eq_some {length : ℕ} {replacement : Text}
    (found : latexClash? isWord before s = some (length, replacement)) :
    before ≠ some '\\' ∧ ∃ word tail, isCommandWord word = true ∧
      s = '\\' :: (word ++ tail) ∧ length = word.length + 1 ∧
        replacement = '\\' :: '\\' :: word := by
  rw [latexClash?.eq_def] at found
  split at found
  · rename_i rest
    split_ifs at found with lone
    refine ⟨lone, ?_⟩
    obtain ⟨word, isFound, same⟩ := map_eq_some_iff.mp found
    cases same
    have holds := List.find?_some isFound
    rw [Bool.and_eq_true, isPrefixOf_iff_prefix] at holds
    obtain ⟨⟨tail, rfl⟩, -⟩ := holds
    obtain ⟨name, member, rfl⟩ :=
      mem_map.mp (mem_of_find?_eq_some isFound)
    have isCommand :=
      all_eq_true.mp latexClashWords_isCommandWord name member
    exact ⟨name.toList, tail, isCommand, rfl, rfl, rfl⟩
  · cases found

theorem latexClash?_eq_none (other : c ≠ '\\') : latexClash? isWord before (c :: rest) = none := by
  rw [latexClash?.eq_def]
  split
  · rename_i same
    cases same
    exact absurd rfl other
  · rfl

theorem doubleClashes_append {piece : Text} (plain : '\\' ∉ piece) :
    doubleClashes isWord before (piece ++ rest) =
      piece ++ doubleClashes isWord (lastChar before piece) rest := by
  induction piece generalizing before with
  | nil => rfl
  | cons c piece ih =>
    rw [mem_cons, not_or] at plain
    rw [cons_append, doubleClashes, latexClash?_eq_none (Ne.symm plain.1), isSome_none,
      if_neg Bool.false_ne_true, ih plain.2, lastChar, cons_append]

theorem isCommandWord_spec {word : Text} (isCommand : isCommandWord word = true) :
    ∃ c rest, word = c :: rest ∧ isAsciiLetter c = true ∧ c ≠ 'u' ∧ '\\' ∉ word := by
  cases word with
  | nil => cases isCommand
  | cons c rest =>
    simp only [isCommandWord, Bool.and_eq_true, bne_iff_ne, ne_eq, Bool.not_eq_true',
      contains_eq_mem, decide_eq_false_iff_not] at isCommand
    exact ⟨c, rest, rfl, isCommand.1.1, isCommand.1.2, isCommand.2⟩

theorem substitute_latexClash (before : Option Char) (s : Text) :
    substitute (latexClash? isWord) before 0 s =
      doubleClashes isWord before s := by
  induction size : s.length using Nat.strong_induction_on generalizing s before with
  | _ size ih =>
    subst size
    cases s with
    | nil => rfl
    | cons c rest =>
      cases found : latexClash? isWord before (c :: rest) with
      | none =>
        rw [substitute_of_none found, doubleClashes, found, isSome_none, if_neg Bool.false_ne_true,
          ih rest.length (by simp) (some c) rest rfl]
      | some match_ =>
        obtain ⟨length, replacement⟩ := match_
        obtain ⟨-, word, tail, isCommand, split, rfl, rfl⟩ :=
          latexClash?_eq_some found
        obtain ⟨_, _, -, -, -, plain⟩ := isCommandWord_spec isCommand
        obtain ⟨rfl, rfl⟩ := List.cons.inj split
        rw [substitute_of_some found, doubleClashes, found, substitute_skip,
          ih tail.length (by simp only [length_cons, length_append]; omega)
            _ tail rfl,
          doubleClashes_append plain]
        rfl

theorem step_escape (taken : lexer.step c = some next) (escape : next.mode = .escape units) :
    c = '\\' := by
  rw [JsonLexer.step] at taken
  split at taken
  · split_ifs at taken
    · cases taken
      cases escape
    · cases taken
      cases escape
    · cases taken
      cases escape
    · cases taken
      cases escape
  · split_ifs at taken
    · cases taken
      cases escape
    · next backslash => exact backslash
    · cases taken
      cases escape
  · split at taken
    · cases taken
      cases escape
    · obtain ⟨escaped, -, rfl⟩ := map_eq_some_iff.mp taken
      cases escape
  · split_ifs at taken
    · cases taken
      cases escape
    · cases taken
      cases escape

theorem step_backslash (taken : lexer.step '\\' = some next) :
    (∃ units, lexer.mode = .escape units) ∨ ∃ units, lexer.mode = .string units ∧
        next = ⟨lexer.tokens, .escape units⟩ := by
  obtain ⟨tokens, mode⟩ := lexer
  cases mode with
  | outside | unicode => cases taken
  | string units =>
    cases taken
    exact .inr ⟨units, rfl, rfl⟩
  | escape units => exact .inl ⟨units, rfl⟩

theorem step_escaped_letter (other : c ≠ 'u')
    (taken : JsonLexer.step ⟨tokens, .escape units⟩ c = some next) :
    ∃ own, next = ⟨tokens, .string own⟩ := by
  simp only [JsonLexer.step, if_neg other] at taken
  obtain ⟨escaped, -, rfl⟩ := map_eq_some_iff.mp taken
  exact ⟨_, rfl⟩

theorem step_letter (letter : isAsciiLetter c = true) : JsonLexer.step ⟨tokens, .string units⟩ c =
      some ⟨tokens, .string (units ++ [.char c])⟩ := by
  have range : (65 ≤ c.toNat ∧ c.toNat ≤ 90) ∨ (97 ≤ c.toNat ∧ c.toNat ≤ 122) := by
    simpa [isAsciiLetter, isAsciiUpper, isAsciiLower, Char.le_def,
      UInt32.le_iff_toNat_le] using letter
  have notQuote : c ≠ '"' := by
    rintro rfl
    revert range
    decide
  have notBackslash : c ≠ '\\' := by
    rintro rfl
    revert range
    decide
  have plain : ¬ isControl c = true := by
    simp only [isControl, decide_eq_true_eq]
    omega
  simp only [JsonLexer.step, if_neg notQuote, if_neg notBackslash, if_neg plain]

/-- **Doubling.** The tokens keep their shapes. -/
theorem run_doubleClashes {lexer other final : JsonLexer}
    {before : Option Char} {s : Text} (same : lexer.SameShape other)
    (behind : ∀ units, lexer.mode = .escape units → before = some '\\')
    (ran : lexer.run s = some final) :
    ∃ otherFinal, other.run (doubleClashes isWord before s) = some otherFinal ∧
        final.SameShape otherFinal := by
  induction size : s.length using Nat.strong_induction_on generalizing s before lexer other with
  | _ size ih =>
    subst size
    cases s with
    | nil =>
      cases ran
      exact ⟨other, rfl, same⟩
    | cons c rest =>
      obtain ⟨next, taken, later⟩ := bind_eq_some_iff.mp ran
      cases found : latexClash? isWord before (c :: rest) with
      | none =>
        rw [doubleClashes, found, isSome_none, if_neg Bool.false_ne_true, JsonLexer.run_cons]
        obtain ⟨otherNext, otherTaken, sameNext⟩ :=
          JsonLexer.step_sameShape same taken
        rw [otherTaken]
        apply ih rest.length (by simp) sameNext _ later rfl
        intro units escape
        rw [step_escape taken escape]
      | some match_ =>
        obtain ⟨lone, word, tail, isCommand, split, -, -⟩ :=
          latexClash?_eq_some found
        obtain ⟨first, wordRest, rfl, letter, notU, plain⟩ :=
          isCommandWord_spec isCommand
        obtain ⟨rfl, rfl⟩ := List.cons.inj split
        have notBackslash : first ≠ '\\' := by
          rintro rfl
          exact plain mem_cons_self
        rw [doubleClashes, found, isSome_some, if_pos rfl]
        -- the backslash starts an escape, which the letter ends
        rcases step_backslash taken with ⟨units, escape⟩ | ⟨units, inString, rfl⟩
        · exact absurd (behind units escape) lone
        · obtain ⟨second, escaped, rest⟩ :=
            bind_eq_some_iff.mp later
          obtain ⟨own, rfl⟩ := step_escaped_letter notU escaped
          obtain ⟨otherTokens, otherMode⟩ := other
          obtain ⟨sameTokens, sameMode⟩ := same
          rw [inString] at sameMode
          cases sameMode with
          | string _ others =>
            have doubled : JsonLexer.run ⟨otherTokens, .string others⟩ ['\\', '\\'] =
                  some ⟨otherTokens, .string (others ++ [.char '\\'])⟩ :=
              rfl
            have read := @ih (wordRest ++ tail).length
              (by simp only [length_cons, cons_append]; omega)
              ⟨lexer.tokens, .string own⟩
              ⟨otherTokens, .string (others ++ [.char '\\'] ++ [.char first])⟩
              (some first) (wordRest ++ tail)
              ⟨sameTokens, .string _ _⟩ nofun rest rfl
            obtain ⟨otherFinal, otherRan, sameFinal⟩ := read
            refine ⟨otherFinal, ?_, sameFinal⟩
            have front : '\\' :: '\\' :: doubleClashes isWord (some '\\')
                (first :: wordRest ++ tail) = ['\\', '\\'] ++ first ::
                    doubleClashes isWord (some first) (wordRest ++ tail) := by
              rw [cons_append, doubleClashes, latexClash?_eq_none notBackslash, isSome_none]
              rfl
            rw [front, JsonLexer.run_append, doubled, bind_some,
              JsonLexer.run_cons, step_letter letter]
            exact otherRan

theorem jsonTokens_doubleClashes {s : Text} {tokens : List JsonToken}
    (accepted : jsonTokens s = some tokens) :
    ∃ others, jsonTokens (doubleClashes isWord none s) = some others ∧
      List.Forall₂ JsonToken.SameShape tokens others := by
  obtain ⟨final, ran, finished⟩ := bind_eq_some_iff.mp accepted
  obtain ⟨otherFinal, otherRan, sameFinal⟩ :=
    @run_doubleClashes isWord .start .start final none s ⟨.nil, .outside []⟩ nofun ran
  obtain ⟨others, otherFinished, sameTokens⟩ :=
    JsonLexer.finish_sameShape sameFinal finished
  refine ⟨others, ?_, sameTokens⟩
  rw [jsonTokens, otherRan]
  exact otherFinished

def jsonNames : List String := ["null", "true", "false", "NaN", "Infinity"]

/-- A control character with letters behind it; it is no white space, or the
letters start no name. -/
def isCorruption : Text → Bool
  | control :: first :: rest =>
    isControl control && isAsciiLetter first && (first :: rest).all isJsonWord &&
      (!isJsonSpace control || jsonNames.all fun name => !(first :: rest).isPrefixOf name.toList)
  | _ => false

theorem silentCorruptions_isCorruption :
    silentCorruptions.all (fun corruption => isCorruption corruption.1) =
      true := by
  decide

theorem wordValue_eq_none {first : Char} {whole : Text} (letter : isAsciiLetter first = true)
    (noName : ∀ name ∈ jsonNames, ¬ (first :: rest) <+: name.toList)
    (starts : (first :: rest) <+: whole) : wordValue parts whole = none := by
  have notName : ∀ name ∈ jsonNames, whole ≠ name.toList := by
    rintro name isName rfl
    exact noName name isName starts
  have range : (65 ≤ first.toNat ∧ first.toNat ≤ 90) ∨ (97 ≤ first.toNat ∧ first.toNat ≤ 122) := by
    simpa [isAsciiLetter, isAsciiUpper, isAsciiLower, Char.le_def,
      UInt32.le_iff_toNat_le] using letter
  have notDigit : isAsciiDigit first = false := by
    by_contra digit
    have bounds : 48 ≤ first.toNat ∧ first.toNat ≤ 57 := by
      simpa [isAsciiDigit, Char.le_def, UInt32.le_iff_toNat_le] using digit
    omega
  have notMinus : first ≠ '-' := by
    rintro rfl
    revert range
    decide
  obtain ⟨tail, rfl⟩ := starts
  have notNumber : isJsonNumber (first :: rest ++ tail) = false := by
    rw [cons_append, isJsonNumber, notDigit, Bool.false_and]
    · rintro rfl
      cases notDigit
    · intro digits minus
      exact notMinus (List.cons.inj minus).1
  rw [wordValue, if_neg (notName "null" (by simp [jsonNames])),
    if_neg (notName "true" (by simp [jsonNames])),
    if_neg (notName "false" (by simp [jsonNames])), if_neg]
  rintro (isNumber | isNaN | isInfinity | isNegative)
  · rw [notNumber] at isNumber
    cases isNumber
  · exact notName "NaN" (by simp [jsonNames]) isNaN
  · exact notName "Infinity" (by simp [jsonNames]) isInfinity
  · exact notMinus (List.cons.inj isNegative).1

theorem not_corruption_of_accepted (accepted : jsonLoads parts s = some value)
    {corruption : Text × Text} (member : corruption ∈ silentCorruptions) :
    ¬ corruption.1 <:+: s := by
  have isPattern :=
    all_eq_true.mp silentCorruptions_isCorruption corruption member
  obtain ⟨tokens, tokenized, parsed⟩ := bind_eq_some_iff.mp accepted
  rintro ⟨front, back, split⟩
  match pattern : corruption.1, isPattern with
  | control :: first :: rest, isPattern =>
    simp only [isCorruption, Bool.and_eq_true] at isPattern
    obtain ⟨⟨⟨isControl, letter⟩, isWord⟩, noName⟩ := isPattern
    rw [pattern] at split
    have shape : front ++ control :: ((first :: rest) ++ back) = s := by
      rw [← split]
      simp
    rw [← shape] at tokenized
    obtain ⟨space, whole, starts, token⟩ :=
      JsonLexer.exists_word_of_control isControl (cons_ne_nil _ _) (all_eq_true.mp isWord) tokenized
    rw [space, Bool.not_true] at noName
    have valued := wordValue_of_mem parsed token
    rw [wordValue_eq_none letter _ starts] at valued
    · cases valued
    · intro name isName isPrefix
      have absent := all_eq_true.mp noName name isName
      rw [ isPrefixOf_iff_prefix.mpr isPrefix] at absent
      cases absent

theorem replaceText_of_absent {old new : Text} (absent : ¬ old <:+: s) :
    replaceText old new s = s := by
  apply substitute_eq_self
  intro front c back split
  rw [if_neg]
  intro starts
  apply absent
  rw [split]
  exact ( isPrefixOf_iff_prefix.mp starts).isInfix.trans (suffix_append front _).isInfix

/-- **Repair.** In JSON the repair doubles backslashes, and nothing else. -/
theorem repairLatexClashes_eq {ν : Type} {parts : JsonParts ν} {s : Text}
    {value : Json ν} (accepted : jsonLoads parts s = some value) :
    ∃ other, jsonLoads parts (doubleClashes isWord none s) = some other ∧
      other.isNull = value.isNull ∧ repairLatexClashes isWord s = doubleClashes isWord none s := by
  obtain ⟨tokens, tokenized, parsed⟩ := bind_eq_some_iff.mp accepted
  obtain ⟨others, doubled, sameTokens⟩ :=
    @jsonTokens_doubleClashes isWord s tokens tokenized
  obtain ⟨other, otherParsed, sameNull⟩ :=
    parseTokens_sameShape sameTokens parsed
  have loaded : jsonLoads parts (doubleClashes isWord none s) = some other := by
    rw [jsonLoads, doubled]
    exact otherParsed
  refine ⟨other, loaded, sameNull, ?_⟩
  rw [repairLatexClashes, substitute_latexClash]
  have untouched : ∀ corruption ∈ silentCorruptions,
      replaceText corruption.1 corruption.2 (doubleClashes isWord none s) =
        doubleClashes isWord none s :=
    fun corruption member =>
      replaceText_of_absent (not_corruption_of_accepted loaded member)
  generalize silentCorruptions = corruptions at untouched
  induction corruptions with
  | nil => rfl
  | cons corruption rest ih =>
    rw [forall_mem_cons] at untouched
    rw [foldl_cons, untouched.1]
    exact ih untouched.2

theorem jsonLoads_strip (accepted : jsonLoads parts s = some value) :
    jsonLoads parts (strip s) = some value := by
  obtain ⟨tokens, tokenized, parsed⟩ := bind_eq_some_iff.mp accepted
  rw [jsonLoads, JsonLexer.tokens_strip tokenized]
  exact parsed

theorem strip_nonempty (accepted : jsonLoads parts s = some value) : (strip s).isEmpty = false := by
  have stripped := jsonLoads_strip accepted
  cases empty : strip s with
  | nil =>
    rw [empty] at stripped
    cases stripped
  | cons => rfl

/-- A lone backslash stands before a command word that ends there. -/
def HasLatexClash (isWord : Char → Bool) (s : Text) : Prop :=
  ∃ front c back, s = front ++ c :: back ∧
    latexClash? isWord (lastChar none front) (c :: back) ≠ none

variable {ν : Type} {parts : JsonParts ν} {readers : JsonReaders ν} {s : Text} {value : Json ν}

theorem loads_safeJsonLoads (standard : readers.loads = jsonLoads parts)
    (accepted : jsonLoads parts s = some value) :
    jsonLoads parts (doubleClashes readers.isWord none (strip s)) = some (safeJsonLoads readers s) ∧
    (safeJsonLoads readers s).isNull = value.isNull := by
  have stripped := jsonLoads_strip accepted
  obtain ⟨other, loaded, sameNull, repaired⟩ :=
    @repairLatexClashes_eq readers.isWord ν parts (strip s) value stripped
  have lenient : safeJsonLoads readers s = other := by
    rw [safeJsonLoads, strip_nonempty accepted, if_neg Bool.false_ne_true]
    simp only [standard, repaired, loaded, orElse_some, getD_some]
  exact ⟨by rw [lenient, loaded], by rw [lenient, sameNull]⟩

theorem safeJsonLoads_of_noClash (standard : readers.loads = jsonLoads parts)
    (accepted : jsonLoads parts s = some value)
    (noClash : ¬ HasLatexClash readers.isWord (strip s)) : safeJsonLoads readers s = value := by
  have loaded := (loads_safeJsonLoads standard accepted).1
  have undoubled : doubleClashes readers.isWord none (strip s) = strip s := by
    rw [← substitute_latexClash]
    apply substitute_eq_self
    intro front c back split
    by_contra clash
    exact noClash ⟨front, c, back, split, clash⟩
  rw [undoubled, jsonLoads_strip accepted] at loaded
  exact (some.inj loaded).symm

/-- **Lenient reading.** Of every text that standard JSON accepts, the strict
reading is the value.  The lenient reading is what standard JSON reads once the
lone backslashes of command words are doubled: the same value when there are
none, and `None` for `None` only. -/
theorem safeJsonLoads_of_accepted {ν : Type} (parts : JsonParts ν) (readers : JsonReaders ν)
    (s : Text) (value : Json ν) (accepted : jsonLoads parts s = some value) :
    let standard := { readers with loads := jsonLoads parts }
    safeJsonLoadsStrict standard s = value ∧
      jsonLoads parts (doubleClashes readers.isWord none (strip s)) =
        some (safeJsonLoads standard s) ∧
      (safeJsonLoads standard s).isNull = value.isNull ∧
      (¬ HasLatexClash readers.isWord (strip s) → safeJsonLoads standard s = value) := by
  intro standard
  obtain ⟨loaded, sameNull⟩ := @loads_safeJsonLoads ν parts standard s value rfl accepted
  refine ⟨?_, loaded, sameNull, ?_⟩
  · rw [safeJsonLoadsStrict, strip_nonempty accepted, if_neg Bool.false_ne_true]
    simp only [standard, accepted, getD_some]
  · intro noClash
    exact @safeJsonLoads_of_noClash ν parts standard s value rfl accepted noClash

/-- Readers that are not reached, and a string with a tab and four letters. -/
def unusedReaders : JsonReaders ℤ where
  isWord c := isAsciiLetter c || isAsciiDigit c || c == '_'
  loads _ := none
  loadsLenient _ := none
  literalEval _ := none
  repairJson _ := none

def wholeParts : JsonParts ℤ where
  number word := (String.ofList word).toInt?
  halves _ := Char.ofNat 0xFFFD

/-- `"\times"`, and the string of a tab and `imes` that it is. -/
def tabImes : Text := "\"\\times\"".toList

theorem jsonLoads_tabImes : jsonLoads wholeParts tabImes = some (.str "\times".toList) := rfl

theorem safeJsonLoads_of_accepted_tabImes : jsonLoads wholeParts
      (doubleClashes unusedReaders.isWord none (strip tabImes)) = some (safeJsonLoads
          { unusedReaders with loads := jsonLoads wholeParts } tabImes) :=
  (safeJsonLoads_of_accepted wholeParts unusedReaders tabImes _ jsonLoads_tabImes).2.1

theorem not_safeJsonLoads_tabImes : ¬ ∀ (parts : JsonParts ℤ) (readers : JsonReaders ℤ) (s : Text)
      (value : Json ℤ), jsonLoads parts s = some value → value ≠ .null →
        safeJsonLoads { readers with loads := jsonLoads parts } s = value := by
  intro same
  have tab := same wholeParts unusedReaders tabImes _ jsonLoads_tabImes nofun
  cases Json.str.inj tab

end WriterAgent.Framework
