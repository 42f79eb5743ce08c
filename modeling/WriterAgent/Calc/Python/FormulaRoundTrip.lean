import WriterAgent.Calc.Python.CallPrefix
import WriterAgent.Calc.Python.GeometricRecalc

/-!
# Parsing a rebuilt formula

A formula rebuilt from parsed parts parses back to the same prefix and code
with the new suffix.
-/

namespace WriterAgent.Calc.Python

open PyText List

variable {code formula tail front body rest dataSuffix token ref s after : Text}
  {parts : PythonFormulaParts} {tokens : List Text} {c : Char} {depth : Nat}

theorem parseQuotedTail_cons (different : c ≠ '"') (rest : Text) : parseQuotedTail (c :: rest) =
      (parseQuotedTail rest).map fun (code, after) => (c :: code, after) := by
  conv_lhs => unfold parseQuotedTail
  split <;> simp_all

theorem parseQuotedTail_closing (head : rest.head? ≠ some '"') :
    parseQuotedTail ('"' :: rest) = some ([], rest) := by
  cases rest with
  | nil => rfl
  | cons c rest =>
    conv_lhs => unfold parseQuotedTail
    split <;> grind

theorem parseQuotedTail_escape (code : Text) (head : rest.head? ≠ some '"') :
    parseQuotedTail (escapeCodeForExcelFormula code ++ '"' :: rest) = some (code, rest) := by
  induction code with
  | nil => exact parseQuotedTail_closing head
  | cons c code ih =>
    rw [escapeCodeForExcelFormula, flatMap_cons, ← escapeCodeForExcelFormula]
    by_cases quote : c = '"'
    · subst quote
      simp [parseQuotedTail, ih]
    · simp [quote, parseQuotedTail_cons quote, ih]

theorem parseQuotedTail_subset (parsed : parseQuotedTail s = some (code, after)) :
    code ⊆ s ∧ after ⊆ s := by
  induction s using parseQuotedTail.induct generalizing code after with
  | case1 => simp [parseQuotedTail] at parsed
  | case2 rest ih =>
    simp only [parseQuotedTail, Option.map_eq_some_iff, Prod.mk.injEq] at parsed
    obtain ⟨⟨inner, remaining⟩, found, rfl, rfl⟩ := parsed
    have ⟨codeSubset, afterSubset⟩ := ih found
    exact ⟨cons_subset_cons _ (subset_cons_of_subset _ codeSubset),
      subset_cons_of_subset _ (subset_cons_of_subset _ afterSubset)⟩
  | case3 rest notDoubled =>
    have head : rest.head? ≠ some '"' := by
      cases rest with
      | nil => simp
      | cons c rest =>
        simp only [List.head?_cons, ne_eq, Option.some.injEq]
        rintro rfl
        exact notDoubled rest rfl
    rw [parseQuotedTail_closing head, Option.some.injEq] at parsed
    obtain ⟨rfl, rfl⟩ := parsed
    exact ⟨nil_subset _, subset_cons_of_subset _ (List.Subset.refl _)⟩
  | case4 c rest _ notQuote ih =>
    have different : c ≠ '"' := notQuote
    simp only [parseQuotedTail_cons different, Option.map_eq_some_iff, Prod.mk.injEq] at parsed
    obtain ⟨⟨inner, remaining⟩, found, rfl, rfl⟩ := parsed
    have ⟨codeSubset, afterSubset⟩ := ih found
    exact ⟨cons_subset_cons _ codeSubset, subset_cons_of_subset _ afterSubset⟩

/-- The parenthesis depth after a code text that meets no end of the code
argument, starting at the given depth. -/
def scanDepth : Nat → Text → Option Nat
  | depth, [] => some depth
  | depth, '(' :: rest => scanDepth (depth + 1) rest
  | 0, ')' :: _ => none
  | depth + 1, ')' :: rest => scanDepth depth rest
  | depth, c :: rest => if isDataSeparator c && depth == 0 then none else scanDepth depth rest

theorem unquotedCodeSpan_append {final : Nat}
    (scanned : scanDepth depth s = some final) (rest : Text) :
    unquotedCodeSpan depth (s ++ rest) = s ++ unquotedCodeSpan final rest := by
  induction depth, s using scanDepth.induct with
  | case1 depth =>
    simp only [scanDepth, Option.some.injEq] at scanned
    simp [scanned]
  | case2 depth tail ih | case4 depth tail ih => simp [unquotedCodeSpan, ih scanned]
  | case3 => simp [scanDepth] at scanned
  | case5 depth c tail notOpen notClose notClose' stops =>
    rw [scanDepth] at scanned
    · simp [stops] at scanned
    all_goals assumption
  | case6 depth c tail notOpen notClose notClose' goes ih =>
    rw [scanDepth] at scanned
    · rw [if_neg goes] at scanned
      rw [cons_append, unquotedCodeSpan]
      · rw [if_neg goes, ih scanned, cons_append]
      all_goals assumption
    all_goals assumption

theorem scanDepth_append (depth : Nat) (front back : Text) : scanDepth depth (front ++ back) =
      (scanDepth depth front).bind fun final => scanDepth final back := by
  induction depth, front using scanDepth.induct with
  | case1 | case3 => simp [scanDepth]
  | case2 depth tail ih => simp [scanDepth, ih]
  | case4 depth tail ih => simp [scanDepth, ih]
  | case5 depth c tail notOpen notClose notClose' stops =>
    rw [cons_append, scanDepth, scanDepth]
    · simp [stops]
    all_goals assumption
  | case6 depth c tail notOpen notClose notClose' goes ih =>
    rw [cons_append, scanDepth, scanDepth]
    · rw [if_neg goes, if_neg goes, ih]
    all_goals assumption

theorem scanDepth_cons_of_neutral (depth : Nat) (rest : Text)
    (notOpen : c ≠ '(') (notClose : c ≠ ')') (notSeparator : isDataSeparator c = false) :
    scanDepth depth (c :: rest) = scanDepth depth rest := by
  rw [scanDepth]
  · simp [notSeparator]
  · exact notOpen
  · intro _ closing
    exact absurd closing notClose
  · intro _ _ closing
    exact absurd closing notClose

theorem scanDepth_inside (inside : depth ≠ 0)
    (plain : ∀ c ∈ s, c ≠ '(' ∧ c ≠ ')') : scanDepth depth s = some depth := by
  induction s with
  | nil => simp [scanDepth]
  | cons c rest ih =>
    obtain ⟨notOpen, notClose⟩ := plain c mem_cons_self
    rw [scanDepth]
    · have goes : ¬ (isDataSeparator c && depth == 0) = true := by simp [inside]
      rw [if_neg goes]
      exact ih fun d member => plain d (mem_cons_of_mem _ member)
    · exact notOpen
    · intro _ closing
      exact absurd closing notClose
    · intro _ _ closing
      exact absurd closing notClose

theorem scanDepth_spaces (depth : Nat) {spaces : Text} (all : ∀ c ∈ spaces, isSpace c = true) :
    scanDepth depth spaces = some depth := by
  induction spaces with
  | nil => simp [scanDepth]
  | cons c rest ih =>
    have space := all c mem_cons_self
    have different : ∀ d, isSpace d = false → c ≠ d := by
      rintro d notSpace rfl
      simp [space] at notSpace
    have notSeparator : isDataSeparator c = false := by
      simp [isDataSeparator, different ';' (by decide), different ',' (by decide)]
    rw [scanDepth_cons_of_neutral depth rest (different '(' (by decide))
      (different ')' (by decide)) notSeparator]
    exact ih fun d member => all d (mem_cons_of_mem _ member)

theorem unquotedCodeSpan_spec (depth : Nat) (s : Text) : ∃ final rest,
      s = unquotedCodeSpan depth s ++ rest ∧
        scanDepth depth (unquotedCodeSpan depth s) = some final ∧
        (rest = [] ∨ final = 0) := by
  induction depth, s using unquotedCodeSpan.induct with
  | case1 depth => exact ⟨depth, [], by simp [unquotedCodeSpan, scanDepth]⟩
  | case2 depth tail ih | case4 depth tail ih =>
    obtain ⟨final, rest, split, scanned, stop⟩ := ih
    refine ⟨final, rest, ?_, ?_, stop⟩
    · conv_lhs => rw [split]
      simp [unquotedCodeSpan]
    · simpa [unquotedCodeSpan, scanDepth] using scanned
  | case3 tail => exact ⟨0, _, by simp [unquotedCodeSpan, scanDepth]; rfl⟩
  | case5 depth c tail notOpen notClose notClose' stops =>
    have outside : depth = 0 := by
      simp only [Bool.and_eq_true, beq_iff_eq] at stops
      exact stops.2
    refine ⟨0, c :: tail, ?_, ?_, Or.inr rfl⟩
    · rw [unquotedCodeSpan]
      · simp [stops]
      all_goals assumption
    · rw [unquotedCodeSpan]
      · rw [if_pos stops, scanDepth, outside]
      all_goals assumption
  | case6 depth c tail notOpen notClose notClose' goes ih =>
    obtain ⟨final, rest, split, scanned, stop⟩ := ih
    have span : unquotedCodeSpan depth (c :: tail) = c :: unquotedCodeSpan depth tail := by
      rw [unquotedCodeSpan]
      · rw [if_neg goes]
      all_goals assumption
    refine ⟨final, rest, ?_, ?_, stop⟩
    · conv_lhs => rw [split]
      rw [span, cons_append]
    · rw [span, scanDepth]
      · rw [if_neg goes, scanned]
      all_goals assumption

/-- What parsing tells about a code argument that is not a quoted string: an
open parenthesis is left behind only when the code takes the whole body. -/
structure UnquotedCode (code dataSuffix : Text) : Prop where
  trimmed : Trimmed isSpace code
  unquoted : code.head? ≠ some '"'
  scanned : ∃ depth, scanDepth 0 code = some depth ∧ (depth ≠ 0 → dataSuffix = [')'])

theorem rstripBy_split (drop : Char → Bool) (s : Text) :
    ∃ dropped, s = rstripBy drop s ++ dropped ∧ ∀ c ∈ dropped, drop c = true :=
  ⟨s.rtakeWhile drop, (rdropWhile_append_rtakeWhile ..).symm,
    fun _ member => mem_rtakeWhile_imp member⟩

theorem unquotedCode_of_parse (trimmed : Trimmed isSpace body)
    (parsed : parseUnquotedCodeArg body = some code)
    (suffix : dataSuffixOf (strip (body.drop code.length)) = some dataSuffix) :
    UnquotedCode code dataSuffix := by
  obtain ⟨final, rest, split, scanned, stop⟩ := unquotedCodeSpan_spec 0 body
  have code_eq : code = strip (unquotedCodeSpan 0 body) ∧ body.head? ≠ some '"' := by
    unfold parseUnquotedCodeArg at parsed
    rw [strip_eq_self trimmed] at parsed
    split at parsed
    · simp at parsed
    · simp at parsed
    · rename_i notEmpty notQuoted
      refine ⟨(Option.some.inj parsed).symm, ?_⟩
      intro head
      cases body with
      | nil => simp at head
      | cons c tail =>
        simp only [List.head?_cons, Option.some.injEq] at head
        subst head
        exact notQuoted tail rfl
  have spanFront : ∀ c, (unquotedCodeSpan 0 body).head? = some c → isSpace c = false := by
    intro c head
    apply trimmed.front c
    exact head?_of_isPrefix ⟨rest, split.symm⟩ head
  have code_rstrip : code = rstripBy isSpace (unquotedCodeSpan 0 body) := by
    rw [code_eq.1, strip, lstripBy_eq_self spanFront]
  obtain ⟨spaces, spanSplit, allSpaces⟩ :=
    rstripBy_split isSpace (unquotedCodeSpan 0 body)
  rw [← code_rstrip] at spanSplit
  have codeScanned : scanDepth 0 code = some final := by
    rw [spanSplit, scanDepth_append] at scanned
    rw [Option.bind_eq_some_iff] at scanned
    obtain ⟨depth, first, second⟩ := scanned
    rw [scanDepth_spaces depth allSpaces] at second
    rw [first, second]
  refine ⟨?_, ?_, final, codeScanned, ?_⟩
  · rw [code_eq.1]
    exact strip_trimmed _
  · intro head
    apply code_eq.2
    have prefixed : code <+: body := by
      rw [split, spanSplit, append_assoc]
      exact prefix_append _ _
    exact head?_of_isPrefix prefixed head
  · intro opened
    have wholeBody : rest = [] := stop.resolve_right opened
    rw [wholeBody] at split
    have noSpaces : spaces = [] := by
      rcases eq_nil_or_concat spaces with empty | ⟨front, c, spacesEq⟩
      · exact empty
      · have last : body.getLast? = some c := by
          rw [split, spanSplit, spacesEq]
          simp
        have space := allSpaces c (by simp [spacesEq])
        simp [trimmed.back c last] at space
    rw [noSpaces] at spanSplit
    have dropped : body.drop code.length = [] := by
      rw [split, spanSplit]
      simp
    rw [dropped, strip_nil, dataSuffixOf, Option.some.injEq] at suffix
    exact suffix.symm

theorem parsePythonFormula_cases (parsed : parsePythonFormula formula = some parts) :
    ∃ body, normalizeFormulaString formula = parts.callPrefix ++ (body ++ [')']) ∧
        IsCallPrefix parts.callPrefix ∧
        parts.callPrefix.head? = some '=' ∧
        ((∃ after, parseQuotedString (strip body) = some (parts.code, after) ∧
            dataSuffixOf (strip after) = some parts.dataSuffix) ∨
          ((strip body).head? ≠ some '"' ∧ parseUnquotedCodeArg (strip body) = some parts.code ∧
            dataSuffixOf (strip ((strip body).drop parts.code.length)) =
              some parts.dataSuffix)) := by
  unfold parsePythonFormula at parsed
  simp only at parsed
  split at parsed
  · simp at parsed
  · rename_i innerStart opened
    obtain ⟨_, prefixed, head⟩ := isCallPrefix_of_pyCallOpenEnd opened
    split at parsed
    · simp at parsed
    · rename_i closed
      simp only [bne_iff_ne, ne_eq, not_not] at closed
      refine ⟨((normalizeFormulaString formula).drop innerStart).dropLast, ?_⟩
      have whole : normalizeFormulaString formula =
          (normalizeFormulaString formula).take innerStart ++
            (((normalizeFormulaString formula).drop innerStart).dropLast ++ [')']) := by
        rw [dropLast_append_getLast? _ closed, take_append_drop]
      split at parsed
      · rename_i rest quoted
        split at parsed
        · simp at parsed
        · rename_i code after found
          rw [Option.map_eq_some_iff] at parsed
          obtain ⟨suffix, suffixEq, rfl⟩ := parsed
          exact ⟨whole, prefixed, head, Or.inl ⟨after, found, suffixEq⟩⟩
      · rename_i notQuoted
        split at parsed
        · simp at parsed
        · rename_i code found
          rw [Option.map_eq_some_iff] at parsed
          obtain ⟨suffix, suffixEq, rfl⟩ := parsed
          refine ⟨whole, prefixed, head, Or.inr ⟨?_, found, suffixEq⟩⟩
          intro quote
          obtain ⟨rest, restEq⟩ := List.head?_eq_some_iff.mp quote
          exact notQuoted rest restEq

structure OnPrefix (front body : Text) : Prop where
  isPrefix : IsCallPrefix front
  head : front.head? = some '='
  straightFront : StraightQuotes front
  straightBody : StraightQuotes body

theorem OnPrefix.normal (onPrefix : OnPrefix front body) :
    normalizeFormulaString (front ++ (body ++ [')'])) = front ++ (body ++ [')']) := by
  apply normalizeFormulaString_eq_self
  · exact head?_of_isPrefix (prefix_append _ _) onPrefix.head
  · simp
  · intro c member
    rcases mem_append.mp member with inFront | inBody
    · exact onPrefix.straightFront c inFront
    · rcases mem_append.mp inBody with inBody | closing
      · exact onPrefix.straightBody c inBody
      · rw [mem_singleton] at closing
        subst closing
        decide

theorem OnPrefix.parse_quoted (onPrefix : OnPrefix front body)
    (found : parseQuotedString (strip body) = some (code, after))
    (suffix : dataSuffixOf (strip after) = some dataSuffix) :
    parsePythonFormula (front ++ (body ++ [')'])) = some ⟨front, code, dataSuffix⟩ := by
  have quoted : ∃ rest, strip body = '"' :: rest := by
    unfold parseQuotedString at found
    split at found
    · next rest bodyEq => exact ⟨rest, bodyEq⟩
    · simp at found
  obtain ⟨rest, bodyEq⟩ := quoted
  have opened := onPrefix.isPrefix (body ++ [')'])
  rw [bodyEq] at found
  simp [parsePythonFormula, onPrefix.normal, opened, bodyEq, found, suffix]

theorem OnPrefix.parse_unquoted (onPrefix : OnPrefix front body)
    (unquoted : (strip body).head? ≠ some '"')
    (found : parseUnquotedCodeArg (strip body) = some code)
    (suffix : dataSuffixOf (strip ((strip body).drop code.length)) = some dataSuffix) :
    parsePythonFormula (front ++ (body ++ [')'])) = some ⟨front, code, dataSuffix⟩ := by
  have opened := onPrefix.isPrefix (body ++ [')'])
  unfold parsePythonFormula
  simp only [onPrefix.normal, opened, drop_left, take_left, List.getLast?_append,
    List.getLast?_singleton, Option.some_or, bne_self_eq_false, Bool.false_eq_true, if_false,
    dropLast_concat]
  split
  · rename_i rest bodyEq
    rw [bodyEq] at unquoted
    simp at unquoted
  · simp [found, suffix]

theorem hasUnquotedCodeRef_of_parse {formula body : Text}
    {parts : PythonFormulaParts}
    (parsed : parsePythonFormula formula = some parts)
    (normal : normalizeFormulaString formula = parts.callPrefix ++ (body ++ [')']))
    (isPrefix : IsCallPrefix parts.callPrefix) :
    pyFormulaHasUnquotedCodeRef formula =
      (pyCodeArgIsCellRef parts.code && (strip body).head? != some '"') := by
  cases ref : pyCodeArgIsCellRef parts.code with
  | false => simp [pyFormulaHasUnquotedCodeRef, parsed, ref]
  | true =>
    have opened := isPrefix (body ++ [')'])
    simp [pyFormulaHasUnquotedCodeRef, parsed, ref, normal, opened]

theorem dataSuffixOf_subset (found : dataSuffixOf rest = some dataSuffix) :
    dataSuffix = rest ++ [')'] := by
  unfold dataSuffixOf at found
  split at found
  · simpa using found.symm
  · split at found
    · exact (Option.some.inj found).symm
    · simp at found

theorem straightQuotes_of_parse (parsed : parsePythonFormula formula = some parts) :
    StraightQuotes parts.callPrefix ∧ StraightQuotes parts.code ∧
      StraightQuotes parts.dataSuffix := by
  obtain ⟨body, whole, _, _, shape⟩ := parsePythonFormula_cases parsed
  have straight := normalizeFormulaString_straightQuotes formula
  rw [whole] at straight
  have front := straightQuotes_of_subset straight
    (subset_append_left parts.callPrefix (body ++ [')']))
  have bodyStraight : StraightQuotes body :=
    straightQuotes_of_subset straight (List.Subset.trans (subset_append_left body [')'])
        (subset_append_right _ _))
  have stripped : StraightQuotes (strip body) :=
    straightQuotes_of_subset bodyStraight (strip_isInfix body).subset
  have suffixStraight : ∀ {rest : Text}, rest ⊆ strip body →
      dataSuffixOf (strip rest) = some parts.dataSuffix → StraightQuotes parts.dataSuffix := by
    intro rest subset found
    rw [dataSuffixOf_subset found]
    intro c member
    rcases mem_append.mp member with inRest | closing
    · exact stripped c (subset ((strip_isInfix rest).subset inRest))
    · rw [mem_singleton] at closing
      subst closing
      decide
  refine ⟨front, ?_⟩
  rcases shape with ⟨after, found, suffix⟩ | ⟨_, found, suffix⟩
  · unfold parseQuotedString at found
    split at found
    · rename_i rest bodyEq
      have ⟨codeSubset, afterSubset⟩ := parseQuotedTail_subset found
      have tail : rest ⊆ strip body := by
        rw [bodyEq]
        exact subset_cons_self _ _
      exact ⟨straightQuotes_of_subset stripped (List.Subset.trans codeSubset tail),
        suffixStraight (List.Subset.trans afterSubset tail) suffix⟩
    · simp at found
  · refine ⟨?_, suffixStraight (drop_subset _ _) suffix⟩
    unfold parseUnquotedCodeArg at found
    split at found
    · simp at found
    · simp at found
    · have codeEq := Option.some.inj found
      rw [← codeEq]
      obtain ⟨_, rest, split, _⟩ := unquotedCodeSpan_spec 0 (strip (strip body))
      have span : unquotedCodeSpan 0 (strip (strip body)) ⊆ strip body := by
        rw [strip_strip] at split ⊢
        conv_rhs => rw [split]
        exact subset_append_left _ _
      exact straightQuotes_of_subset stripped (List.Subset.trans (strip_isInfix _).subset span)

def argTail (tokens : List Text) : Text :=
  if tokens.isEmpty then [] else ';' :: join ';' tokens

theorem dataSuffixText_eq (tokens : List Text) :
    dataSuffixText tokens = argTail tokens ++ [')'] := by
  unfold dataSuffixText argTail
  split <;> simp

/-- Nothing, or arguments after a separator that end in no white space. -/
structure IsArgTail (tail : Text) : Prop where
  front : tail = [] ∨ tail.head? = some ';'
  back : ∀ c, tail.getLast? = some c → isSpace c = false

theorem IsArgTail.strip_eq (isTail : IsArgTail tail) : strip tail = tail := by
  apply strip_eq_self
  refine ⟨?_, isTail.back⟩
  intro c head
  rcases isTail.front with empty | separator
  · simp [empty] at head
  · rw [separator] at head
    cases head
    decide

theorem IsArgTail.dataSuffixOf_eq (isTail : IsArgTail tail) :
    dataSuffixOf tail = some (tail ++ [')']) := by
  cases tail with
  | nil => rfl
  | cons c rest =>
    have separator : c = ';' := by simpa using isTail.front
    subst separator
    simp [dataSuffixOf, isDataSeparator]

theorem isArgTail_of_dataTokens (plain : ∀ token ∈ tokens, DataToken token) :
    IsArgTail (argTail tokens) := by
  by_cases empty : tokens = []
  · subst empty
    exact ⟨Or.inl rfl, by simp [argTail]⟩
  · have tail : argTail tokens = ';' :: join ';' tokens := by simp [argTail, empty]
    have bodyNonempty : join ';' tokens ≠ [] :=
      join_ne_nil empty fun token member => (plain token member).nonempty
    rw [tail]
    refine ⟨Or.inr rfl, ?_⟩
    intro c last
    rw [List.getLast?_cons_of_ne_nil bodyNonempty] at last
    exact (join_trimmed empty plain).back c last

theorem quotedBody_strip {code tail : Text} (isTail : IsArgTail tail) :
    strip ('"' :: (escapeCodeForExcelFormula code ++ '"' :: tail)) =
      '"' :: (escapeCodeForExcelFormula code ++ '"' :: tail) := by
  apply strip_eq_self
  constructor
  · intro c head
    cases head
    decide
  · intro c last
    rw [List.getLast?_cons_of_ne_nil (by simp), List.getLast?_append_of_ne_nil _ (by simp)] at last
    by_cases empty : tail = []
    · subst empty
      cases last
      decide
    · rw [List.getLast?_cons_of_ne_nil empty] at last
      exact isTail.back c last

theorem parse_quotedFormula (onPrefix : OnPrefix front
      ('"' :: (escapeCodeForExcelFormula code ++ '"' :: tail)))
    (isTail : IsArgTail tail) :
    let formula := front ++ ('"' :: (escapeCodeForExcelFormula code ++ '"' :: tail) ++ [')'])
    parsePythonFormula formula = some ⟨front, code, tail ++ [')']⟩ ∧
      pyFormulaHasUnquotedCodeRef formula = false := by
  intro formula
  have stripped := @quotedBody_strip code tail isTail
  have notDoubled : tail.head? ≠ some '"' := by
    rcases isTail.front with empty | separator
    · simp [empty]
    · simp [separator]
  have found : parseQuotedString (strip ('"' :: (escapeCodeForExcelFormula code ++ '"' :: tail))) =
        some (code, tail) := by
    rw [stripped]
    exact parseQuotedTail_escape code notDoubled
  have parsed : parsePythonFormula formula = some ⟨front, code, tail ++ [')']⟩ := by
    apply onPrefix.parse_quoted found
    rw [isTail.strip_eq]
    exact isTail.dataSuffixOf_eq
  refine ⟨parsed, ?_⟩
  rw [hasUnquotedCodeRef_of_parse parsed onPrefix.normal onPrefix.isPrefix, stripped]
  simp

theorem unquotedBody_trimmed (trimmed : Trimmed isSpace code)
    (nonempty : code ≠ []) (isTail : IsArgTail tail) :
    Trimmed isSpace (code ++ tail) := by
  constructor
  · intro c head
    rw [List.head?_append_of_ne_nil _ nonempty] at head
    exact trimmed.front c head
  · intro c last
    by_cases empty : tail = []
    · rw [empty, append_nil] at last
      exact trimmed.back c last
    · rw [List.getLast?_append_of_ne_nil _ empty] at last
      exact isTail.back c last

theorem parseUnquotedCodeArg_of_trimmed (trimmed : Trimmed isSpace body)
    (nonempty : body ≠ []) (unquoted : body.head? ≠ some '"') :
    parseUnquotedCodeArg body = some (strip (unquotedCodeSpan 0 body)) := by
  unfold parseUnquotedCodeArg
  rw [strip_eq_self trimmed]
  split
  · exact absurd rfl nonempty
  · simp at unquoted
  · rfl

theorem parse_unquotedFormula {taken : Text} (onPrefix : OnPrefix front (code ++ tail))
    (trimmed : Trimmed isSpace code) (nonempty : code ≠ []) (unquoted : code.head? ≠ some '"')
    (isTail : IsArgTail tail) (split : tail = taken ++ rest)
    (span : unquotedCodeSpan 0 (code ++ tail) = code ++ taken) (takenTail : IsArgTail taken)
    (restTail : IsArgTail rest) :
    let formula := front ++ (code ++ tail ++ [')'])
    parsePythonFormula formula = some ⟨front, code ++ taken, rest ++ [')']⟩ ∧
      pyFormulaHasUnquotedCodeRef formula = pyCodeArgIsCellRef (code ++ taken) := by
  intro formula
  have bodyTrimmed := unquotedBody_trimmed trimmed nonempty isTail
  have codeTrimmed := unquotedBody_trimmed trimmed nonempty takenTail
  have head : (strip (code ++ tail)).head? ≠ some '"' := by
    rw [strip_eq_self bodyTrimmed, List.head?_append_of_ne_nil _ nonempty]
    exact unquoted
  have found : parseUnquotedCodeArg (strip (code ++ tail)) = some (code ++ taken) := by
    rw [strip_eq_self bodyTrimmed] at head ⊢
    rw [parseUnquotedCodeArg_of_trimmed bodyTrimmed (by simp [nonempty]) head,
      span, strip_eq_self codeTrimmed]
  have suffix : dataSuffixOf (strip ((strip (code ++ tail)).drop
      (code ++ taken).length)) = some (rest ++ [')']) := by
    rw [strip_eq_self bodyTrimmed, split, ← append_assoc, drop_left, restTail.strip_eq]
    exact restTail.dataSuffixOf_eq
  have parsed := onPrefix.parse_unquoted head found suffix
  refine ⟨parsed, ?_⟩
  rw [hasUnquotedCodeRef_of_parse parsed onPrefix.normal onPrefix.isPrefix]
  simp [head]

theorem dataToken_of_isA1 (plain : isA1 token = true) : DataToken token := by
  have chars := isA1_chars plain
  refine ⟨isA1_ne_nil plain, ⟨?_, ?_⟩, ?_⟩
  · intro c head
    exact isSpace_of_isA1Char (chars c (mem_of_mem_head? head))
  · intro c last
    exact isSpace_of_isA1Char (chars c (mem_of_mem_getLast? last))
  · intro c member
    have semicolon := ne_of_isA1Char (chars c member) (d := ';') rfl
    have comma := ne_of_isA1Char (chars c member) (d := ',') rfl
    have quote := ne_of_isA1Char (chars c member) (d := '"') rfl
    simp [isDataSeparator, semicolon, comma, quote]

theorem straightQuotes_of_isA1 (plain : isA1 token = true) : StraightQuotes token := by
  intro c member
  have range := isA1Char_toNat (isA1_chars plain c member)
  unfold normalizeQuote
  split <;> first | rfl | omega

theorem formatPyDataRange_of_isA1 (plain : isA1 token = true) :
    formatPyDataRange token = token := by
  have chars := isA1_chars plain
  have absent : ∀ d, isA1Char d = false → d ∉ token := by
    intro d other member
    simp [chars d member] at other
  have noDollar : removeChar '$' (strip token) = token := by
    rw [strip_of_forall_isA1Char chars, removeChar_of_notMem (absent '$' rfl)]
  simp [formatPyDataRange, noDollar, absent '!' rfl, absent '.' rfl]

theorem readable_append (plain : ∀ token ∈ tokens, DataToken token)
    (attached : isA1 ref = true) : Readable (tokens ++ [ref]) := by
  have lastDigit : ∀ c, (join ';' (tokens ++ [ref])).getLast? = some c → isAsciiDigit c = true := by
    intro c last
    rw [join_getLast? (isA1_ne_nil attached)] at last
    exact isA1_last attached last
  constructor
  · intro token member
    rcases mem_append.mp member with old | new
    · exact plain token old
    · rw [mem_singleton] at new
      subst new
      exact dataToken_of_isA1 attached
  · intro last
    exact absurd (lastDigit _ last) (by decide)
  · rintro ⟨_, last⟩
    exact absurd (lastDigit _ last) (by decide)

theorem sameCellRef_refl (nonempty : token ≠ []) : sameCellRef token token = true := by
  simp [sameCellRef, nonempty]

theorem sameCellRef_comm (left right : Text) : sameCellRef left right = sameCellRef right left := by
  rw [sameCellRef, sameCellRef, Bool.and_comm (!left.isEmpty), Bool.beq_comm (a := localA1 left)]

theorem emittedArgs_append_left (front rest new : List Text) :
    emittedArgs (front ++ rest) (front ++ new) = front ++ emittedArgs rest new := by
  induction front with
  | nil => rfl
  | cons token front ih => simp [emittedArgs, ih]

theorem emittedArgs_append {tokens : List Text} {ref : Text} (attached : isA1 ref = true) :
    emittedArgs tokens (tokens ++ [ref]) = tokens ++ [ref] := by
  have split := emittedArgs_append_left tokens [] [ref]
  rw [append_nil] at split
  rw [split]
  simp [emittedArgs, formatPyDataRange_of_isA1 attached]

theorem emittedArgs_replace {front : List Text} {last : Text}
    (attached : isA1 ref = true) (different : sameCellRef last ref = false) :
    emittedArgs (front ++ [last]) (front ++ [ref]) = front ++ [ref] := by
  have notSame : sameCellRef ref last = false := by rw [sameCellRef_comm, different]
  have notEqual : ref ≠ last := by
    rintro rfl
    rw [sameCellRef_refl (isA1_ne_nil attached)] at different
    simp at different
  rw [emittedArgs_append_left]
  simp [emittedArgs, notSame, notEqual, formatPyDataRange_of_isA1 attached]

theorem emittedArgs_dropLast (tokens : List Text) :
    emittedArgs tokens tokens.dropLast = tokens.dropLast := by
  rcases eq_nil_or_concat tokens with rfl | ⟨front, last, rfl⟩
  · rfl
  · rw [concat_eq_append, dropLast_concat]
    have split := emittedArgs_append_left front [last] []
    rw [append_nil] at split
    rw [split]
    simp [emittedArgs]

/-- The text a rebuilt formula has between its prefix and its last
parenthesis. -/
def rebuiltBody (codeRef : Bool) (code tail : Text) : Text :=
  if codeRef then code ++ tail
  else '"' :: (escapeCodeForExcelFormula code ++ '"' :: tail)

theorem rebuildFormulaWithDataArgs_eq
    (parsed : parsePythonFormula formula = some parts) (args : List Text) :
    rebuildFormulaWithDataArgs formula args = some (parts.callPrefix ++
        (rebuiltBody (pyFormulaHasUnquotedCodeRef formula) parts.code
          (argTail (emittedArgs (readDataArgs parts.dataSuffix) args)) ++ [')'])) := by
  simp only [rebuildFormulaWithDataArgs, parsed, formulaDataArgs, Option.map_some, Option.getD_some,
    geometricDataSuffix, dataSuffixText_eq, rebuiltBody]
  split <;> simp

theorem straightQuotes_append {back : Text} (frontStraight : StraightQuotes front)
    (backStraight : StraightQuotes back) : StraightQuotes (front ++ back) := by
  intro c member
  rcases mem_append.mp member with inFront | inBack
  · exact frontStraight c inFront
  · exact backStraight c inBack

theorem straightQuotes_join (straight : ∀ token ∈ tokens, StraightQuotes token) :
    StraightQuotes (join ';' tokens) := by
  induction tokens with
  | nil =>
    intro c member
    simp at member
  | cons token rest ih =>
    have first := straight token mem_cons_self
    have tail := ih fun later member =>
      straight later (mem_cons_of_mem _ member)
    cases rest with
    | nil => simpa using first
    | cons next rest =>
      apply straightQuotes_append first
      intro c member
      rcases mem_cons.mp member with rfl | later
      · decide
      · exact tail c later

theorem straightQuotes_argTail (straight : ∀ token ∈ tokens, StraightQuotes token) :
    StraightQuotes (argTail tokens) := by
  intro c member
  unfold argTail at member
  split at member
  · simp at member
  · rcases mem_cons.mp member with rfl | inJoin
    · decide
    · exact straightQuotes_join straight c inJoin

theorem straightQuotes_quotedBody (straight : StraightQuotes code)
    (tailStraight : StraightQuotes tail) :
    StraightQuotes ('"' :: (escapeCodeForExcelFormula code ++ '"' :: tail)) := by
  intro c member
  simp only [mem_cons, mem_append, escapeCodeForExcelFormula, mem_flatMap] at member
  rcases member with rfl | ⟨source, inCode, image⟩ | rfl | inTail
  · decide
  · split at image
    · simp only [mem_cons, not_mem_nil, or_false, or_self] at image
      subst image
      decide
    · rw [mem_singleton] at image
      subst image
      exact straight c inCode
  · decide
  · exact tailStraight c inTail

theorem onPrefix_rebuiltBody (parsed : parsePythonFormula formula = some parts)
    (codeRef : Bool) (tailStraight : StraightQuotes tail) :
    OnPrefix parts.callPrefix (rebuiltBody codeRef parts.code tail) := by
  obtain ⟨_, _, isPrefix, head, _⟩ := parsePythonFormula_cases parsed
  obtain ⟨front, code, _⟩ := straightQuotes_of_parse parsed
  refine ⟨isPrefix, head, front, ?_⟩
  unfold rebuiltBody
  split
  · exact straightQuotes_append code tailStraight
  · exact straightQuotes_quotedBody code tailStraight

theorem unquotedCode_of_hasRef (parsed : parsePythonFormula formula = some parts)
    (codeRef : pyFormulaHasUnquotedCodeRef formula = true) :
    UnquotedCode parts.code parts.dataSuffix ∧ pyCodeArgIsCellRef parts.code = true := by
  obtain ⟨body, whole, isPrefix, _, shape⟩ := parsePythonFormula_cases parsed
  rw [hasUnquotedCodeRef_of_parse parsed whole isPrefix, Bool.and_eq_true] at codeRef
  refine ⟨?_, codeRef.1⟩
  rcases shape with ⟨after, found, _⟩ | ⟨_, found, suffix⟩
  · unfold parseQuotedString at found
    split at found
    · next bodyEq => simp [bodyEq] at codeRef
    · simp at found
  · exact unquotedCode_of_parse (strip_trimmed body) found suffix

theorem pyCodeArgIsCellRef_ne_nil (codeRef : pyCodeArgIsCellRef code = true) : code ≠ [] := by
  rintro rfl
  simp [pyCodeArgIsCellRef] at codeRef

/-- No unquoted code reference leaves a parenthesis open. -/
def CodeBalanced (formula : Text) (parts : PythonFormulaParts) : Prop :=
  pyFormulaHasUnquotedCodeRef formula = true → scanDepth 0 parts.code = some 0

/-- **Rebuilding.** With balanced code, the rebuilt formula parses to the same
prefix and code, and its suffix is the written argument text. -/
theorem parse_rebuilt (parsed : parsePythonFormula formula = some parts)
    (balanced : CodeBalanced formula parts) (isTail : IsArgTail tail)
    (tailStraight : StraightQuotes tail) :
    let rebuilt := parts.callPrefix ++
      (rebuiltBody (pyFormulaHasUnquotedCodeRef formula) parts.code tail ++ [')'])
    parsePythonFormula rebuilt = some ⟨parts.callPrefix, parts.code, tail ++ [')']⟩ ∧
      pyFormulaHasUnquotedCodeRef rebuilt = pyFormulaHasUnquotedCodeRef formula := by
  intro rebuilt
  have onPrefix := onPrefix_rebuiltBody parsed (pyFormulaHasUnquotedCodeRef formula) tailStraight
  cases codeRef : pyFormulaHasUnquotedCodeRef formula with
  | false =>
    simp only [rebuilt, codeRef, rebuiltBody, Bool.false_eq_true, if_false] at onPrefix ⊢
    exact parse_quotedFormula onPrefix isTail
  | true =>
    obtain ⟨unquoted, isRef⟩ := unquotedCode_of_hasRef parsed codeRef
    simp only [rebuilt, codeRef, rebuiltBody, if_true] at onPrefix ⊢
    have span : unquotedCodeSpan 0 (parts.code ++ tail) = parts.code ++ [] := by
      rw [unquotedCodeSpan_append (balanced codeRef)]
      rcases isTail.front with empty | separator
      · simp [empty, unquotedCodeSpan]
      · obtain ⟨rest, rfl⟩ := List.head?_eq_some_iff.mp separator
        simp [unquotedCodeSpan, isDataSeparator]
    have noTail : IsArgTail [] := ⟨Or.inl rfl, by simp⟩
    have result := parse_unquotedFormula onPrefix unquoted.trimmed (pyCodeArgIsCellRef_ne_nil isRef)
      unquoted.unquoted isTail (nil_append tail).symm span noTail isTail
    simpa [isRef] using result

theorem formulaDataArgs_rebuild {formula : Text} {parts : PythonFormulaParts}
    (parsed : parsePythonFormula formula = some parts)
    (balanced : CodeBalanced formula parts) {args : List Text}
    (readable : Readable (emittedArgs (readDataArgs parts.dataSuffix) args))
    (straight : ∀ token ∈ emittedArgs (readDataArgs parts.dataSuffix) args, StraightQuotes token) :
    ∃ rebuilt, rebuildFormulaWithDataArgs formula args = some rebuilt ∧
        parsePythonFormula rebuilt = some ⟨parts.callPrefix, parts.code,
          dataSuffixText (emittedArgs (readDataArgs parts.dataSuffix) args)⟩ ∧
        pyFormulaHasUnquotedCodeRef rebuilt = pyFormulaHasUnquotedCodeRef formula ∧
        formulaDataArgs rebuilt = some (emittedArgs (readDataArgs parts.dataSuffix) args) := by
  obtain ⟨parsedAgain, refAgain⟩ := parse_rebuilt parsed balanced
    (isArgTail_of_dataTokens readable.plain) (straightQuotes_argTail straight)
  rw [← dataSuffixText_eq] at parsedAgain
  refine ⟨_, rebuildFormulaWithDataArgs_eq parsed args, parsedAgain, refAgain, ?_⟩
  simp only [formulaDataArgs, parsedAgain, Option.map_some, readDataArgs_dataSuffixText readable]

theorem straightQuotes_readDataArgs (parsed : parsePythonFormula formula = some parts) :
    ∀ token ∈ readDataArgs parts.dataSuffix, StraightQuotes token := by
  intro token member c inToken
  exact (straightQuotes_of_parse parsed).2.2 c ((mem_readDataArgs member).2 c inToken)

theorem foreign_semicolon : Foreign ';' := ⟨by decide, by decide, by decide⟩

theorem pyCodeArgIsCellRef_append_ref (trimmed : Trimmed isSpace code)
    (nonempty : code ≠ []) (attached : isA1 ref = true) :
    pyCodeArgIsCellRef (code ++ ';' :: ref) = false := by
  have refTail : IsArgTail (argTail [ref]) :=
    isArgTail_of_dataTokens (by simpa using dataToken_of_isA1 attached)
  have stripped : strip (code ++ ';' :: ref) = code ++ ';' :: ref := by
    apply strip_eq_self
    simpa [argTail] using unquotedBody_trimmed trimmed nonempty refTail
  have noSeparator : ∀ c ∈ ';' :: ref, isSheetSeparator c = false := by
    intro c member
    rcases mem_cons.mp member with rfl | inRef
    · decide
    · have plain := isA1_chars attached c inRef
      simp [isSheetSeparator, ne_of_isA1Char plain (d := '.') rfl,
        ne_of_isA1Char plain (d := '!') rfl]
  have inAddress : ';' ∈ (splitSheetPrefix (code ++ ';' :: ref)).2 := by
    rcases splitSheetPrefix_snd (code ++ ';' :: ref) with
      whole | ⟨c, rest, separator, suffix, after⟩
    · rw [whole, stripped]
      simp
    · rw [after]
      apply mem_strip _ (by decide)
      rcases suffix_or_suffix_of_suffix suffix
        (suffix_append code (';' :: ref)) with inside | around
      · have inRef : c ∈ ';' :: ref := inside.subset mem_cons_self
        simp [noSeparator c inRef] at separator
      · rcases mem_cons.mp (around.subset mem_cons_self) with
          first | later
        · rw [← first] at separator
          exact absurd separator (by decide)
        · exact later
  have inBare : ';' ∈ strip (removeChar '$' (splitSheetPrefix (code ++ ';' :: ref)).2) := by
    apply mem_strip _ (by decide)
    rw [removeChar, mem_filter]
    exact ⟨inAddress, by decide⟩
  have noPosition : parseAddress (strip (removeChar '$'
      (splitSheetPrefix (code ++ ';' :: ref)).2)) = none := by
    by_contra found
    obtain ⟨position, parsed⟩ := Option.ne_none_iff_exists'.mp found
    exact foreign_semicolon.notMem_of_parseAddress parsed inBare
  simp only [pyCodeArgIsCellRef, stripped, noPosition]
  split <;> simp

theorem rebuild_of_unbalanced (parsed : parsePythonFormula formula = some parts)
    (unbalanced : ¬ CodeBalanced formula parts) (attached : isA1 ref = true) :
    formulaDataArgs formula = some [] ∧ ∃ rebuilt,
        rebuildFormulaWithDataArgs formula [ref] = some rebuilt ∧ parsePythonFormula rebuilt =
            some ⟨parts.callPrefix, parts.code ++ ';' :: ref, [')']⟩ ∧
          pyFormulaHasUnquotedCodeRef rebuilt = false := by
  obtain ⟨codeRef, opened⟩ : pyFormulaHasUnquotedCodeRef formula = true ∧
      scanDepth 0 parts.code ≠ some 0 := by
    simpa [CodeBalanced] using unbalanced
  obtain ⟨unquoted, isRef⟩ := unquotedCode_of_hasRef parsed codeRef
  obtain ⟨depth, scanned, wholeBody⟩ := unquoted.scanned
  have deep : depth ≠ 0 := by
    rintro rfl
    exact opened scanned
  have noArgs : readDataArgs parts.dataSuffix = [] := by
    rw [wholeBody deep]
    decide
  have chars := isA1_chars attached
  have tailEq : argTail [ref] = ';' :: ref := by simp [argTail]
  have isTail : IsArgTail (argTail [ref]) :=
    isArgTail_of_dataTokens (by simpa using dataToken_of_isA1 attached)
  have straight : StraightQuotes (argTail [ref]) :=
    straightQuotes_argTail (by simpa using straightQuotes_of_isA1 attached)
  have onPrefix := onPrefix_rebuiltBody parsed true straight
  have emitted : emittedArgs (readDataArgs parts.dataSuffix) [ref] = [ref] := by
    rw [noArgs]
    exact @emittedArgs_append [] ref attached
  refine ⟨by simp [formulaDataArgs, parsed, noArgs], _,
    rebuildFormulaWithDataArgs_eq parsed [ref], ?_⟩
  rw [emitted, codeRef, tailEq]
  rw [tailEq] at isTail onPrefix
  simp only [rebuiltBody, if_true] at onPrefix ⊢
  have tailScanned : scanDepth depth (';' :: ref) = some depth := by
    apply scanDepth_inside deep
    intro c member
    rcases mem_cons.mp member with rfl | inRef
    · decide
    · exact ⟨ne_of_isA1Char (chars c inRef) rfl, ne_of_isA1Char (chars c inRef) rfl⟩
  have span : unquotedCodeSpan 0 (parts.code ++ ';' :: ref) = parts.code ++ ';' :: ref := by
    have wholeScanned : scanDepth 0 (parts.code ++ ';' :: ref) = some depth := by
      rw [scanDepth_append, scanned, Option.bind_some, tailScanned]
    simpa [unquotedCodeSpan] using unquotedCodeSpan_append wholeScanned []
  have noTail : IsArgTail [] := ⟨Or.inl rfl, by simp⟩
  have result := parse_unquotedFormula onPrefix unquoted.trimmed
    (pyCodeArgIsCellRef_ne_nil isRef) unquoted.unquoted isTail
    (append_nil _).symm span isTail noTail
  rw [pyCodeArgIsCellRef_append_ref unquoted.trimmed
    (pyCodeArgIsCellRef_ne_nil isRef) attached] at result
  simpa using result

end WriterAgent.Calc.Python
