import WriterAgent.Calc.Python.TopLevelArgs

/-!
# Attaching keeps the user's arguments

The pass reads the arguments of a formula, adds a predecessor and writes the
formula back.
-/

namespace WriterAgent.Calc.Python

open PyText List

/-- The formula rebuilt with one more reference has the old code, and its
arguments are the user's followed by that reference. -/
def KeepsArguments (formula ref : Text) (parts : PythonFormulaParts) (user : List Text) : Prop :=
  ∃ args rebuilt parts', formulaDataArgs formula = some args ∧
      rebuildFormulaWithDataArgs formula (args ++ [ref]) = some rebuilt ∧
      parsePythonFormula rebuilt = some parts' ∧
      parts'.code = parts.code ∧
      topLevelArgs parts'.dataSuffix = some (user ++ [ref])

variable {dataSuffix : Text} {tokens : List Text}

theorem dataSuffixOf_cases {rest : Text} (found : dataSuffixOf rest = some dataSuffix) :
    dataSuffix = [')'] ∨ ∃ sep body, isDataSeparator sep = true ∧
      dataSuffix = sep :: (body ++ [')']) := by
  cases rest with
  | nil =>
    left
    exact (Option.some.inj found).symm
  | cons sep body =>
    right
    simp only [dataSuffixOf] at found
    split at found
    · rename_i separator
      refine ⟨sep, body, separator, ?_⟩
      exact (Option.some.inj found).symm
    · simp at found

theorem dataSuffix_cases {formula : Text} {parts : PythonFormulaParts}
    (parsed : parsePythonFormula formula = some parts) :
    parts.dataSuffix = [')'] ∨ ∃ sep body, isDataSeparator sep = true ∧
      parts.dataSuffix = sep :: (body ++ [')']) := by
  obtain ⟨_, _, _, _, quoted | unquoted⟩ := parsePythonFormula_cases parsed
  · obtain ⟨_, _, suffix⟩ := quoted
    exact dataSuffixOf_cases suffix
  · exact dataSuffixOf_cases unquoted.2.2

theorem topLevelArgs_closed (sep : Char) (body : Text) : topLevelArgs (sep :: (body ++ [')'])) =
      (topLevelPieces topState body).map (List.map strip) := by
  rw [topLevelArgs, ← cons_append, dropLast_concat]

theorem topLevelArgs_dataSuffixText (nonempty : tokens ≠ []) :
    topLevelArgs (dataSuffixText tokens) =
      (topLevelPieces topState (join ';' tokens)).map (List.map strip) := by
  have written : dataSuffixText tokens = ';' :: (join ';' tokens ++ [')']) := by
    simp [dataSuffixText, nonempty]
  rw [written, topLevelArgs_closed]

theorem join_topLevelPieces {state : ScanState} {s : Text} {pieces : List Text} (noComma : ',' ∉ s)
    (found : topLevelPieces state s = some pieces) :
    join ';' pieces = s := by
  induction s generalizing state pieces with
  | nil =>
    rw [topLevelPieces] at found
    split at found
    · obtain rfl := Option.some.inj found
      rfl
    · simp at found
  | cons c rest ih =>
    have later : ',' ∉ rest := fun member =>
      noComma (mem_cons_of_mem c member)
    rw [topLevelPieces] at found
    split at found
    · rename_i stops
      simp only [Bool.and_eq_true, decide_eq_true_eq] at stops
      have semicolon : c = ';' := by
        have either : c = ';' ∨ c = ',' := by simpa [isDataSeparator] using stops.2
        rcases either with same | rfl
        · exact same
        · exact absurd mem_cons_self noComma
      rw [Option.map_eq_some_iff] at found
      obtain ⟨others, othersFound, rfl⟩ := found
      obtain ⟨first, tail, rfl, _⟩ := topLevelPieces_spec othersFound
      rw [join_cons_cons, ih later othersFound, semicolon, nil_append]
    · rw [Option.bind_eq_some_iff] at found
      obtain ⟨next, _, found⟩ := found
      rw [Option.map_eq_some_iff] at found
      obtain ⟨others, othersFound, rfl⟩ := found
      obtain ⟨first, tail, rfl, _⟩ := topLevelPieces_spec othersFound
      have whole := ih later othersFound
      cases tail with
      | nil => simpa using whole
      | cons second tail =>
        rw [modifyHead_cons, join_cons_cons, cons_append, ← join_cons_cons, whole]

theorem naiveSplit_topLevelArgs {args : List Text} (nonempty : tokens ≠ [])
    (plain : ∀ token ∈ tokens, DataToken token)
    (found : topLevelArgs (dataSuffixText tokens) = some args) :
    naiveSplit args = tokens := by
  rw [topLevelArgs_dataSuffixText nonempty, Option.map_eq_some_iff] at found
  obtain ⟨pieces, piecesFound, rfl⟩ := found
  have noComma : ',' ∉ join ';' tokens := by
    rw [← count_eq_zero, count_join (by decide), count_eq_zero, mem_flatten]
    intro inToken
    obtain ⟨token, member, comma⟩ := inToken
    exact (plain token member).notSeparator.2 comma
  have whole := join_topLevelPieces noComma piecesFound
  obtain ⟨first, rest, piecesEq, _⟩ := topLevelPieces_spec piecesFound
  have split : naiveSplit pieces = tokens := by
    have both := congrArg (List.splitOn ';') whole
    rw [splitOn_join ';' (by simp [piecesEq]), join, splitOn_intercalate
      ';' (fun token member => (plain token member).notSeparator.1) nonempty]
      at both
    exact both
  have trimmed : pieces.map strip = pieces := by
    rw [map_congr_left (g := id), map_id]
    intro piece member
    have tokensOf : ∀ token ∈ piece.splitOn ';', DataToken token := by
      intro token inPiece
      apply plain
      rw [← split]
      exact mem_flatMap.mpr ⟨piece, member, inPiece⟩
    have ends := join_trimmed (splitOn_ne_nil _ _) tokensOf
    rw [join_splitOn] at ends
    exact strip_eq_self ends
  rw [trimmed, split]

section Exact

variable {formula ref : Text} {parts : PythonFormulaParts} {user : List Text}

theorem closed_of_topLevelArgs (found : topLevelArgs dataSuffix = some user) :
    ∀ argument ∈ user, ClosesFrom topState argument ∧ strip argument = argument := by
  rw [topLevelArgs] at found
  intro argument member
  split at found
  · obtain rfl := Option.some.inj found
    simp at member
  · rw [Option.map_eq_some_iff] at found
    obtain ⟨pieces, piecesFound, rfl⟩ := found
    obtain ⟨piece, inPieces, rfl⟩ := mem_map.mp member
    obtain ⟨first, rest, rfl, firstCloses, restClose, _⟩ :=
      topLevelPieces_spec piecesFound
    refine ⟨closesFrom_strip ?_, strip_strip piece⟩
    rcases mem_cons.mp inPieces with rfl | later
    · exact firstCloses
    · exact restClose piece later

theorem naiveSplit_append_singleton (attached : isA1 ref = true) :
    naiveSplit (user ++ [ref]) = naiveSplit user ++ [ref] := by
  have alone : ref.splitOn ';' = [ref] :=
    splitOn_eq_singleton (dataToken_of_isA1 attached).notSeparator.1
  simp [naiveSplit, alone]

theorem readDataArgs_eq_naiveSplit (parsed : parsePythonFormula formula = some parts)
    (found : topLevelArgs parts.dataSuffix = some user) (readable : Readable (naiveSplit user)) :
    readDataArgs parts.dataSuffix = naiveSplit user := by
  rcases dataSuffix_cases parsed with empty | ⟨sep, body, separator, suffix⟩
  · rw [empty] at found ⊢
    obtain rfl : [] = user := Option.some.inj found
    decide
  · rw [suffix, topLevelArgs_closed, Option.map_eq_some_iff] at found
    obtain ⟨pieces, piecesFound, rfl⟩ := found
    rw [suffix]
    exact readDataArgs_of_readable separator piecesFound readable

theorem readable_of_eq_naiveSplit (parsed : parsePythonFormula formula = some parts)
    (found : topLevelArgs parts.dataSuffix = some user)
    (read : readDataArgs parts.dataSuffix = naiveSplit user) :
    Readable (naiveSplit user) := by
  have plain : ∀ token ∈ naiveSplit user, DataToken token := by
    intro token member
    rw [← read] at member
    exact (mem_readDataArgs member).1
  rcases dataSuffix_cases parsed with empty | ⟨sep, body, separator, suffix⟩
  · rw [empty] at found
    obtain rfl : [] = user := Option.some.inj found
    exact ⟨by simp [naiveSplit], by simp [naiveSplit], by simp [naiveSplit]⟩
  · rw [suffix, topLevelArgs_closed, Option.map_eq_some_iff] at found
    obtain ⟨pieces, piecesFound, rfl⟩ := found
    rw [suffix] at read
    exact readable_of_readDataArgs separator piecesFound plain read

theorem rebuild_append (parsed : parsePythonFormula formula = some parts)
    (balanced : CodeBalanced formula parts) (attached : isA1 ref = true) :
    ∃ rebuilt, rebuildFormulaWithDataArgs formula
          (readDataArgs parts.dataSuffix ++ [ref]) = some rebuilt ∧
        parsePythonFormula rebuilt = some ⟨parts.callPrefix, parts.code,
          dataSuffixText (readDataArgs parts.dataSuffix ++ [ref])⟩ := by
  have straight : ∀ token ∈ readDataArgs parts.dataSuffix ++ [ref], StraightQuotes token := by
    intro token member
    rcases mem_append.mp member with old | new
    · exact straightQuotes_readDataArgs parsed token old
    · rw [mem_singleton] at new
      exact new ▸ straightQuotes_of_isA1 attached
  have plain : ∀ token ∈ readDataArgs parts.dataSuffix ++ [ref], DataToken token := by
    intro token member
    rcases mem_append.mp member with old | new
    · exact (mem_readDataArgs old).1
    · rw [mem_singleton] at new
      exact new ▸ dataToken_of_isA1 attached
  have result := (parse_rebuilt parsed balanced (isArgTail_of_dataTokens plain)
    (straightQuotes_argTail straight)).1
  rw [← dataSuffixText_eq] at result
  refine ⟨_, ?_, result⟩
  rw [rebuildFormulaWithDataArgs_eq parsed, emittedArgs_append attached]

/-- **Attaching a predecessor keeps the user's arguments** exactly when the
plain split of the arguments is readable and the code is balanced. -/
theorem keepsArguments_iff (parsed : parsePythonFormula formula = some parts)
    (found : topLevelArgs parts.dataSuffix = some user) (attached : isA1 ref = true) :
    KeepsArguments formula ref parts user ↔
      CodeBalanced formula parts ∧ Readable (naiveSplit user) := by
  have read : formulaDataArgs formula = some (readDataArgs parts.dataSuffix) :=
    formulaDataArgs_eq_some.mpr ⟨parts, parsed, rfl⟩
  constructor
  · intro keeps
    obtain ⟨args, rebuilt, parts', readAs, written, parsedAgain, sameCode, foundAgain⟩ := keeps
    obtain rfl : readDataArgs parts.dataSuffix = args := by
      rw [read] at readAs
      exact Option.some.inj readAs
    have balanced : CodeBalanced formula parts := by
      by_contra unbalanced
      obtain ⟨noArgs, other, otherWritten, otherParsed, _⟩ :=
        rebuild_of_unbalanced parsed unbalanced attached
      have empty : readDataArgs parts.dataSuffix = [] := by
        rw [read] at noArgs
        exact Option.some.inj noArgs
      rw [empty, nil_append, otherWritten, Option.some.injEq] at written
      rw [← written, otherParsed, Option.some.injEq] at parsedAgain
      rw [← parsedAgain] at sameCode
      simp at sameCode
    refine ⟨balanced, readable_of_eq_naiveSplit parsed found ?_⟩
    obtain ⟨other, otherWritten, otherParsed⟩ :=
      rebuild_append parsed balanced attached
    rw [otherWritten, Option.some.injEq] at written
    rw [← written, otherParsed, Option.some.injEq] at parsedAgain
    rw [← parsedAgain] at foundAgain
    have split := naiveSplit_topLevelArgs (by simp) (by
      intro token member
      rcases mem_append.mp member with old | new
      · exact (mem_readDataArgs old).1
      · rw [mem_singleton] at new
        exact new ▸ dataToken_of_isA1 attached) foundAgain
    rw [naiveSplit_append_singleton attached] at split
    exact (append_cancel_right split).symm
  · intro condition
    obtain ⟨balanced, readable⟩ := condition
    obtain ⟨rebuilt, written, parsedAgain⟩ :=
      rebuild_append parsed balanced attached
    have split := readDataArgs_eq_naiveSplit parsed found readable
    refine ⟨_, rebuilt, _, read, written, parsedAgain, rfl, ?_⟩
    have joined : join ';' (readDataArgs parts.dataSuffix ++ [ref]) = join ';' (user ++ [ref]) := by
      rw [split, ← naiveSplit_append_singleton attached]
      exact join_flatMap_splitOn _ _
    have closed : ∀ argument ∈ user ++ [ref],
        ClosesFrom topState argument ∧ strip argument = argument := by
      intro argument member
      rcases mem_append.mp member with old | new
      · exact closed_of_topLevelArgs found argument old
      · rw [mem_singleton] at new
        subst new
        exact ⟨closesFrom_of_isA1 attached, strip_eq_self (dataToken_of_isA1 attached).trimmed⟩
    have trimmed : (user ++ [ref]).map strip = user ++ [ref] := by
      rw [map_congr_left (g := id), map_id]
      intro argument member
      exact (closed argument member).2
    rw [topLevelArgs_dataSuffixText (by simp), joined,
      topLevelPieces_join (by simp) fun argument member =>
        (closed argument member).1, Option.map_some, trimmed]

end Exact

/-- A nested call in the middle is taken apart and put together again. -/
def nestedCallInside : PythonFormulaParts :=
  ⟨"=PY(".toList, "x".toList, ";SUM(A1;B2)+1;$C$5)".toList⟩

theorem keepsArguments_nestedCallInside :
    KeepsArguments "=PY(\"x\";SUM(A1;B2)+1;$C$5)".toList "D1".toList
      nestedCallInside ["SUM(A1;B2)+1".toList, "$C$5".toList] := by
  refine (keepsArguments_iff (by decide) (by decide) (by decide)).mpr ⟨?_, ?_⟩
  · intro codeRef
    exact absurd codeRef (by decide)
  · have tokens : naiveSplit ["SUM(A1;B2)+1".toList, "$C$5".toList] =
        readDataArgs nestedCallInside.dataSuffix := by decide
    refine ⟨?_, by decide, by decide⟩
    intro token member
    rw [tokens] at member
    exact (mem_readDataArgs member).1

def nestedCallLast : PythonFormulaParts :=
  ⟨"=PY(".toList, "x".toList, ";OFFSET(A1;1;0))".toList⟩

/-- The parenthesis of the last nested call is taken for the formula's own, so
the reference ends up inside the call. -/
theorem not_keepsArguments_nestedCallLast :
    parsePythonFormula "=PY(\"x\";OFFSET(A1;1;0))".toList = some nestedCallLast ∧
      topLevelArgs nestedCallLast.dataSuffix = some ["OFFSET(A1;1;0)".toList] ∧
      ¬ KeepsArguments "=PY(\"x\";OFFSET(A1;1;0))".toList "A1".toList
        nestedCallLast ["OFFSET(A1;1;0)".toList] := by
  refine ⟨by decide, by decide, ?_⟩
  intro keeps
  obtain ⟨args, rebuilt, parts', read, written, parsed, _, found⟩ := keeps
  have readAs : formulaDataArgs "=PY(\"x\";OFFSET(A1;1;0))".toList =
      some ["OFFSET(A1".toList, "1".toList, "0".toList] := by decide
  rw [readAs, Option.some.injEq] at read
  subst read
  have writtenAs : rebuildFormulaWithDataArgs "=PY(\"x\";OFFSET(A1;1;0))".toList
        (["OFFSET(A1".toList, "1".toList, "0".toList] ++ ["A1".toList]) =
      some "=PY(\"x\";OFFSET(A1;1;0;A1)".toList := by decide
  rw [writtenAs, Option.some.injEq] at written
  subst written
  have parsedAs : parsePythonFormula "=PY(\"x\";OFFSET(A1;1;0;A1)".toList =
      some ⟨"=PY(".toList, "x".toList, ";OFFSET(A1;1;0;A1)".toList⟩ := by
    decide
  rw [parsedAs, Option.some.injEq] at parsed
  subst parsed
  exact absurd found (by decide)

end WriterAgent.Calc.Python
