import WriterAgent.Foundations.TextScan

/-!
# Rewriting code for a Calc formula

`sanitize_inline_py_code` of `plugin/calc/python/formula_edit.py` rewrites the
calls whose names are also spreadsheet functions, before the code is quoted.
-/

namespace WriterAgent.Calc.Python

open PyText List Option Bool

/-- The characters of `\w`; beyond ASCII they are those of `str.isalnum`. -/
def isRegexWord (isAlnum : Char → Bool) (c : Char) : Bool :=
  isAsciiLetter c || isAsciiDigit c || c == '_' || (128 ≤ c.toNat && isAlnum c)

/-- How many characters stand before the parenthesis that closes an already
open one, with `depth` further ones open. -/
def closingOffset : Nat → Text → Option Nat
  | _, [] => none
  | depth, '(' :: rest => (closingOffset (depth + 1) rest).map (· + 1)
  | 0, ')' :: _ => some 0
  | depth + 1, ')' :: rest => (closingOffset depth rest).map (· + 1)
  | depth, _ :: rest => (closingOffset depth rest).map (· + 1)

/-- `_find_matching_paren`, for an index of an opening parenthesis. -/
def findMatchingParen (s : Text) (openIdx : Nat) : Option Nat :=
  (closingOffset 0 (s.drop (openIdx + 1))).map (openIdx + 1 + ·)

/-- The characters of `\s*\(` after a word. -/
def openParenLength (tail : Text) : Option Nat :=
  match tail.dropWhile isSpace with
  | '(' :: _ => some ((tail.takeWhile isSpace).length + 1)
  | _ => none

/-- A call of the token at the start of the text.  Without a closing
parenthesis the rest of the text stays as it is. -/
def tokenCall (isAlnum : Char → Bool) (token : Text)
    (rewriteInner : Text → Text) (before : Option Char) (s : Text) :
    Option (Nat × Text) :=
  if before.any (isRegexWord isAlnum) || !token.isPrefixOf s then none
  else
    match openParenLength (s.drop token.length) with
    | none => none
    | some length =>
      let openParen := token.length + length - 1
      match findMatchingParen s openParen with
      | none => some (s.length, s)
      | some closeParen =>
        let inner := (s.take closeParen).drop (openParen + 1)
        some (closeParen + 1, rewriteInner inner)

/-- `_rewrite_token_calls_body`. -/
def rewriteTokenCalls (isAlnum : Char → Bool) (token : Text)
    (rewriteInner : Text → Text) (code : Text) : Text :=
  substitute (tokenCall isAlnum token rewriteInner) none 0 code

/-- `\.text\s*\(` at the start of the text, with its replacement. -/
def xlTextCall (_ : Option Char) (s : Text) : Option (Nat × Text) :=
  if ".text".toList.isPrefixOf s then
    (openParenLength (s.drop 5)).map fun length => (5 + length, ".fmt(".toList)
  else none

def rewriteFloat (inner : Text) : Text :=
  '(' :: (inner ++ ")+0.0".toList)

def rewriteInt (inner : Text) : Text :=
  '(' :: '(' :: (inner ++ ")//1)".toList)

def rewriteStr (inner : Text) : Text :=
  "calc.py_str(".toList ++ (inner ++ [')'])

def sanitizeInlinePyCode (isAlnum : Char → Bool) (code : Text) : Text :=
  let sanitized :=
    replaceText "dtype=float".toList "dtype=np.float64".toList code
  let sanitized := substitute xlTextCall none 0 sanitized
  let sanitized :=
    rewriteTokenCalls isAlnum "float".toList rewriteFloat sanitized
  let sanitized := rewriteTokenCalls isAlnum "int".toList rewriteInt sanitized
  rewriteTokenCalls isAlnum "str".toList rewriteStr sanitized

example : sanitizeInlinePyCode (fun _ => false) "2*float(int(x)-1)".toList =
    "2*(((x)//1)-1)+0.0".toList := by decide +kernel

variable {length : Nat} {s : Text}

theorem openParenLength_cases {tail : Text} (found : openParenLength tail = some length) :
    ∃ spaces rest, tail = spaces ++ '(' :: rest ∧ (∀ c ∈ spaces, isSpace c = true) ∧
        length = spaces.length + 1 := by
  unfold openParenLength at found
  split at found
  · rename_i rest opened
    refine ⟨tail.takeWhile isSpace, rest, ?_, ?_, (some.inj found).symm⟩
    · rw [← opened, takeWhile_append_dropWhile]
    · intro c member
      exact mem_takeWhile_imp member
  · simp at found

theorem closingOffset_split {depth offset : Nat} (found : closingOffset depth s = some offset) :
    ∃ inner rest, s = inner ++ ')' :: rest ∧ inner.length = offset := by
  induction depth, s using closingOffset.induct generalizing offset with
  | case1 depth => simp [closingOffset] at found
  | case2 depth rest ih =>
    simp only [closingOffset, map_eq_some_iff] at found
    obtain ⟨smaller, later, rfl⟩ := found
    obtain ⟨inner, after, rfl, rfl⟩ := ih later
    exact ⟨'(' :: inner, after, rfl, rfl⟩
  | case3 rest =>
    simp only [closingOffset, some.injEq] at found
    exact ⟨[], rest, rfl, found⟩
  | case4 depth rest ih =>
    simp only [closingOffset, map_eq_some_iff] at found
    obtain ⟨smaller, later, rfl⟩ := found
    obtain ⟨inner, after, rfl, rfl⟩ := ih later
    exact ⟨')' :: inner, after, rfl, rfl⟩
  | case5 depth c rest notOpen notClose notClose' ih =>
    rw [closingOffset] at found
    · rw [map_eq_some_iff] at found
      obtain ⟨smaller, later, rfl⟩ := found
      obtain ⟨inner, after, rfl, rfl⟩ := ih later
      exact ⟨c :: inner, after, rfl, rfl⟩
    all_goals assumption

theorem tokenCall_scan {isAlnum : Char → Bool} (token : Text) (rewriteInner : Text → Text)
    (before : Option Char) (s : Text) :
    (tokenCall isAlnum token rewriteInner before s = none ∧
      (before.any (isRegexWord isAlnum) = false → token <+: s →
        openParenLength (s.drop token.length) = none)) ∨
    before.any (isRegexWord isAlnum) = false ∧ ∃ spaces rest, s = token ++ (spaces ++ '(' :: rest) ∧
        (∀ c ∈ spaces, isSpace c = true) ∧
        (closingOffset 0 rest = none ∧
            tokenCall isAlnum token rewriteInner before s = some (s.length, s) ∨
          ∃ inner after, rest = inner ++ ')' :: after ∧ closingOffset 0 rest = some inner.length ∧
            tokenCall isAlnum token rewriteInner before s =
              some ((token ++ (spaces ++ '(' :: (inner ++ [')']))).length,
                rewriteInner inner)) := by
  by_cases starts : before.any (isRegexWord isAlnum) = false ∧ token <+: s
  · obtain ⟨free, tail, rfl⟩ := starts
    have begins : (before.any (isRegexWord isAlnum) || !token.isPrefixOf (token ++ tail)) =
        false := by
      rw [free, isPrefixOf_iff_prefix.mpr (prefix_append _ _)]
      rfl
    unfold tokenCall
    rw [begins, drop_left]
    cases opened : openParenLength tail with
    | none => exact .inl ⟨rfl, fun _ _ => rfl⟩
    | some opening =>
      obtain ⟨spaces, rest, rfl, blank, rfl⟩ := openParenLength_cases opened
      refine .inr ⟨free, spaces, rest, rfl, blank, ?_⟩
      have openIdx : token.length + (spaces.length + 1) - 1 + 1 =
          (token ++ (spaces ++ ['('])).length := by
        simp [Nat.add_assoc]
      have whole : token ++ (spaces ++ '(' :: rest) = token ++ (spaces ++ ['(']) ++ rest := by simp
      simp only [false_eq_true, if_false, findMatchingParen, openIdx]
      rw [whole, drop_left]
      cases closed : closingOffset 0 rest with
      | none => exact .inl ⟨rfl, rfl⟩
      | some offset =>
        obtain ⟨inner, after, rfl, rfl⟩ := closingOffset_split closed
        refine .inr ⟨inner, after, rfl, rfl, ?_⟩
        rw [map_some]
        dsimp only
        rw [take_length_add_append, take_left]
        simp
        omega
  · refine .inl ⟨?_, fun free begins => absurd ⟨free, begins⟩ starts⟩
    unfold tokenCall
    rw [if_pos]
    rw [or_eq_true, Bool.not_eq_true', ← not_eq_true, isPrefixOf_iff_prefix]
    by_cases free : before.any (isRegexWord isAlnum) = false
    · exact .inr fun begins => starts ⟨free, begins⟩
    · exact .inl (not_eq_false _ ▸ free)

theorem tokenCall_cases {isAlnum : Char → Bool} {token : Text} {rewriteInner : Text → Text}
    {before : Option Char} {replacement : Text}
    (found : tokenCall isAlnum token rewriteInner before s = some (length, replacement)) :
    ∃ spaces rest, s = token ++ (spaces ++ '(' :: rest) ∧ (∀ c ∈ spaces, isSpace c = true) ∧
      (length = s.length ∧ replacement = s ∨ ∃ inner after, rest = inner ++ ')' :: after ∧
          length = (token ++ (spaces ++ '(' :: (inner ++ [')']))).length ∧
          replacement = rewriteInner inner) := by
  rcases @tokenCall_scan isAlnum token rewriteInner before s with ⟨none, _⟩ | scanned
  · rw [none] at found
    cases found
  · obtain ⟨_, spaces, rest, split, blank, ⟨_, whole⟩ | ⟨inner, after, rfl, _, call⟩⟩ := scanned
    · rw [whole, some.injEq, Prod.mk.injEq] at found
      exact ⟨spaces, rest, split, blank, .inl ⟨found.1.symm, found.2.symm⟩⟩
    · rw [call, some.injEq, Prod.mk.injEq] at found
      exact ⟨spaces, _, split, blank, .inr ⟨inner, after, rfl, found.1.symm, found.2.symm⟩⟩

end WriterAgent.Calc.Python
