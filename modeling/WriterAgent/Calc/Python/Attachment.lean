import WriterAgent.Calc.Python.FormulaRoundTrip

/-!
# Attaching and removing a reference

A Python formula refers to the cells its data arguments cover and to the cell
an unquoted code argument names.
-/

namespace WriterAgent.Calc.Python

open PyText List Option

variable {address formula ref : Text} {parts : PythonFormulaParts} {args : List Text}

theorem localA1_of_isA1 (plain : isA1 address = true) : localA1 address = address := by
  have chars := isA1_chars plain
  have noDollar : '$' ∉ address := by
    intro member
    exact absurd (chars _ member) (by decide)
  rw [localA1, splitSheetPrefix_of_forall_isA1Char chars]
  simp only [removeChar_of_notMem noDollar, strip_of_forall_isA1Char chars,
    upper_of_forall_isA1Char chars]

theorem formulaDataArgs_eq_some : formulaDataArgs formula = some args ↔
      ∃ parts, parsePythonFormula formula = some parts ∧ readDataArgs parts.dataSuffix = args := by
  simp [formulaDataArgs]

theorem formulaMentionsCell_iff (parsed : parsePythonFormula formula = some parts)
    (plain : isA1 address = true) :
    formulaMentionsCell formula address = true ↔ (∃ arg ∈ readDataArgs parts.dataSuffix,
        argCoversCell arg address = true) ∨
        (pyFormulaHasUnquotedCodeRef formula = true ∧ sameCellRef parts.code address = true) := by
  have noFormula : parsePythonFormula [] = none := by decide
  have nonempty : formula ≠ [] := by
    rintro rfl
    rw [noFormula] at parsed
    simp at parsed
  simp [formulaMentionsCell, localA1_of_isA1 plain, isA1_ne_nil plain,
    nonempty, formulaDataArgs, parsed]

theorem argCoversCell_of_isA1 (attached : isA1 ref = true)
    (plain : isA1 address = true) (covers : argCoversCell ref address = true) :
    a1Position ref = a1Position address := by
  have chars := isA1_chars attached
  have noDollar : '$' ∉ ref := by
    intro member
    exact absurd (chars _ member) (by decide)
  simp only [argCoversCell, splitSheetPrefix_of_forall_isA1Char chars,
    removeChar_of_notMem noDollar, strip_of_forall_isA1Char chars,
    parseRangeString_of_isA1 attached, parseAddress_of_isA1 plain,
    min_self, max_self] at covers
  split at covers
  · simp at covers
  · simp only [Bool.and_eq_true, decide_eq_true_eq] at covers
    apply Prod.ext <;> omega

/-- The formula written for an attached predecessor: some of the first
arguments, then the reference. -/
structure AttachedFormula (formula : Text) (args base : List Text) (ref post : Text) : Prop where
  read : formulaDataArgs formula = some args
  attached : isA1 ref = true
  kept : base <+: args
  emitted : emittedArgs args (base ++ [ref]) = base ++ [ref]
  rebuilt : rebuildFormulaWithDataArgs formula (base ++ [ref]) = some post

/-- The formula written when the last argument is taken off. -/
structure StrippedFormula (formula : Text) (args : List Text) (post : Text) : Prop where
  read : formulaDataArgs formula = some args
  nonempty : args ≠ []
  rebuilt : rebuildFormulaWithDataArgs formula args.dropLast = some post

theorem dataToken_of_formulaDataArgs (read : formulaDataArgs formula = some args) :
    ∀ token ∈ args, DataToken token := by
  obtain ⟨parts, _, rfl⟩ := formulaDataArgs_eq_some.mp read
  intro token member
  exact (mem_readDataArgs member).1

section Attached

variable {formula ref post : Text} {args base : List Text}

section

variable (written : AttachedFormula formula args base ref post)

include written

theorem AttachedFormula.readable : Readable (base ++ [ref]) := by
  apply readable_append _ written.attached
  intro token member
  exact dataToken_of_formulaDataArgs written.read token (written.kept.subset member)

theorem AttachedFormula.balanced (parsed : parsePythonFormula formula = some parts)
    (balanced : CodeBalanced formula parts) :
    parsePythonFormula post = some ⟨parts.callPrefix, parts.code, dataSuffixText (base ++ [ref])⟩ ∧
      pyFormulaHasUnquotedCodeRef post = pyFormulaHasUnquotedCodeRef formula ∧
      formulaDataArgs post = some (base ++ [ref]) := by
  obtain ⟨parts', parsed', argsEq⟩ := formulaDataArgs_eq_some.mp written.read
  obtain rfl : parts' = parts := by
    rw [parsed] at parsed'
    exact (some.inj parsed').symm
  have emitted := written.emitted
  rw [← argsEq] at emitted
  have straight : ∀ token ∈ base ++ [ref], StraightQuotes token := by
    intro token member
    rcases mem_append.mp member with old | new
    · apply straightQuotes_readDataArgs parsed
      rw [argsEq]
      exact written.kept.subset old
    · rw [mem_singleton] at new
      subst new
      exact straightQuotes_of_isA1 written.attached
  have result := @formulaDataArgs_rebuild formula parts' parsed balanced (base ++ [ref])
  rw [emitted] at result
  obtain ⟨rebuilt, found, parsedAgain, refAgain, argsAgain⟩ :=
    result written.readable straight
  obtain rfl : post = rebuilt := by
    rw [written.rebuilt] at found
    exact some.inj found
  exact ⟨parsedAgain, refAgain, argsAgain⟩

theorem AttachedFormula.unbalanced (parsed : parsePythonFormula formula = some parts)
    (unbalanced : ¬ CodeBalanced formula parts) :
    base = [] ∧ parsePythonFormula post = some ⟨parts.callPrefix, parts.code ++ ';' :: ref, [')']⟩ ∧
      pyFormulaHasUnquotedCodeRef post = false ∧
      formulaDataArgs post = some [] := by
  obtain ⟨noArgs, rebuilt, found, parsedAgain, noRef⟩ :=
    rebuild_of_unbalanced parsed unbalanced written.attached
  have argsEmpty : args = [] := by
    have read := written.read
    rw [noArgs] at read
    exact (some.inj read).symm
  have baseEmpty : base = [] := by
    have kept := written.kept
    rw [argsEmpty] at kept
    exact prefix_nil.mp kept
  obtain rfl : post = rebuilt := by
    have same := written.rebuilt
    rw [baseEmpty, nil_append, found] at same
    exact (some.inj same).symm
  have noTokens : readDataArgs [')'] = [] := by decide
  have noArgsAgain : formulaDataArgs post = some [] := by
    simp only [formulaDataArgs, parsedAgain, map_some, noTokens]
  exact ⟨baseEmpty, parsedAgain, noRef, noArgsAgain⟩

theorem AttachedFormula.mentions (plain : isA1 address = true)
    (mentioned : formulaMentionsCell post address = true) :
    formulaMentionsCell formula address = true ∨ a1Position ref = a1Position address := by
  obtain ⟨parts, parsed, argsEq⟩ := formulaDataArgs_eq_some.mp written.read
  by_cases balanced : CodeBalanced formula parts
  · obtain ⟨parsedAgain, refAgain, argsAgain⟩ :=
      written.balanced parsed balanced
    have readAgain : readDataArgs (dataSuffixText (base ++ [ref])) =
        base ++ [ref] := readDataArgs_dataSuffixText written.readable
    rw [formulaMentionsCell_iff parsedAgain plain, readAgain, refAgain] at mentioned
    rw [formulaMentionsCell_iff parsed plain, argsEq]
    rcases mentioned with ⟨arg, member, covers⟩ | code
    · rcases mem_append.mp member with old | new
      · exact Or.inl (Or.inl ⟨arg, written.kept.subset old, covers⟩)
      · rw [mem_singleton] at new
        subst new
        exact Or.inr (argCoversCell_of_isA1 written.attached plain covers)
    · exact Or.inl (Or.inr code)
  · obtain ⟨_, parsedAgain, noRef, argsAgain⟩ :=
      written.unbalanced parsed balanced
    rw [formulaMentionsCell_iff parsedAgain plain, noRef] at mentioned
    have noTokens : readDataArgs [')'] = [] := by decide
    simp [noTokens] at mentioned

theorem AttachedFormula.post_ne (different : base ++ [ref] ≠ args) : post ≠ formula := by
  rintro rfl
  obtain ⟨parts, parsed, _⟩ := formulaDataArgs_eq_some.mp written.read
  by_cases balanced : CodeBalanced post parts
  · obtain ⟨_, _, argsAgain⟩ := written.balanced parsed balanced
    rw [written.read] at argsAgain
    exact different (some.inj argsAgain).symm
  · obtain ⟨_, parsedAgain, _⟩ := written.unbalanced parsed balanced
    rw [parsed] at parsedAgain
    have codes := congrArg PythonFormulaParts.code (some.inj parsedAgain)
    simp at codes

end

end Attached

section Stripped

variable {formula post : Text} {args : List Text}

theorem codeBalanced_of_args (parsed : parsePythonFormula formula = some parts)
    (read : formulaDataArgs formula = some args) (nonempty : args ≠ []) :
    CodeBalanced formula parts := by
  by_contra unbalanced
  have plain : isA1 "A1".toList = true := by decide
  have noArgs := (rebuild_of_unbalanced parsed unbalanced plain).1
  rw [read, some.injEq] at noArgs
  exact nonempty noArgs

theorem StrippedFormula.readable (written : StrippedFormula formula args post)
    (readable : Readable args.dropLast) (parsed : parsePythonFormula formula = some parts) :
    parsePythonFormula post = some ⟨parts.callPrefix, parts.code, dataSuffixText args.dropLast⟩ ∧
      pyFormulaHasUnquotedCodeRef post = pyFormulaHasUnquotedCodeRef formula ∧
      formulaDataArgs post = some args.dropLast := by
  obtain ⟨parts', parsed', argsEq⟩ := formulaDataArgs_eq_some.mp written.read
  obtain rfl : parts' = parts := by
    rw [parsed] at parsed'
    exact (some.inj parsed').symm
  have balanced := codeBalanced_of_args parsed written.read written.nonempty
  have emitted := emittedArgs_dropLast args
  have straight : ∀ token ∈ args.dropLast, StraightQuotes token := by
    intro token member
    apply straightQuotes_readDataArgs parsed
    rw [argsEq]
    exact mem_of_mem_dropLast member
  have result := @formulaDataArgs_rebuild formula parts' parsed balanced args.dropLast
  rw [argsEq, emitted] at result
  obtain ⟨rebuilt, found, parsedAgain, refAgain, argsAgain⟩ :=
    result readable straight
  obtain rfl : post = rebuilt := by
    rw [written.rebuilt] at found
    exact some.inj found
  exact ⟨parsedAgain, refAgain, argsAgain⟩

theorem StrippedFormula.mentions (written : StrippedFormula formula args post)
    (readable : Readable args.dropLast) (plain : isA1 address = true)
    (mentioned : formulaMentionsCell post address = true) :
    formulaMentionsCell formula address = true := by
  obtain ⟨parts, parsed, argsEq⟩ := formulaDataArgs_eq_some.mp written.read
  obtain ⟨parsedAgain, refAgain, argsAgain⟩ := written.readable readable parsed
  rw [formulaMentionsCell_iff parsedAgain plain,
    readDataArgs_dataSuffixText readable, refAgain] at mentioned
  rw [formulaMentionsCell_iff parsed plain, argsEq]
  rcases mentioned with ⟨arg, member, covers⟩ | code
  · exact Or.inl ⟨arg, mem_of_mem_dropLast member, covers⟩
  · exact Or.inr code

theorem StrippedFormula.post_ne (written : StrippedFormula formula args post) : post ≠ formula := by
  rintro rfl
  obtain ⟨parts, parsed, argsEq⟩ := formulaDataArgs_eq_some.mp written.read
  have balanced := codeBalanced_of_args parsed written.read written.nonempty
  have plain : ∀ token ∈ args.dropLast, DataToken token :=
    fun token member => dataToken_of_formulaDataArgs written.read token (mem_of_mem_dropLast member)
  have straight : ∀ token ∈ args.dropLast, StraightQuotes token := by
    intro token member
    apply straightQuotes_readDataArgs parsed
    rw [argsEq]
    exact mem_of_mem_dropLast member
  have rebuilt := written.rebuilt
  rw [rebuildFormulaWithDataArgs_eq parsed, argsEq, emittedArgs_dropLast, some.injEq] at rebuilt
  have parsedAgain := (parse_rebuilt parsed balanced
    (isArgTail_of_dataTokens plain) (straightQuotes_argTail straight)).1
  rw [rebuilt, parsed, some.injEq, ← dataSuffixText_eq] at parsedAgain
  have sameSuffix : parts.dataSuffix = dataSuffixText args.dropLast :=
    congrArg PythonFormulaParts.dataSuffix parsedAgain
  have bound := readDataArgs_length_le plain
  rw [← sameSuffix, argsEq, length_dropLast] at bound
  have positive := length_pos_of_ne_nil written.nonempty
  omega

end Stripped

theorem exists_attachedFormula {base : List Text}
    (read : formulaDataArgs formula = some args) (attached : isA1 ref = true)
    (kept : base = args ∨ ∃ last, args = base ++ [last] ∧ sameCellRef last ref = false) :
    ∃ post, AttachedFormula formula args base ref post ∧ post ≠ formula := by
  obtain ⟨parts, parsed, _⟩ := formulaDataArgs_eq_some.mp read
  obtain ⟨post, rebuilt⟩ : ∃ post, rebuildFormulaWithDataArgs formula (base ++ [ref]) = some post :=
    ⟨_, rebuildFormulaWithDataArgs_eq parsed (base ++ [ref])⟩
  have written : AttachedFormula formula args base ref post := by
    refine ⟨read, attached, ?_, ?_, rebuilt⟩
    · rcases kept with rfl | ⟨last, rfl, _⟩
      · exact prefix_rfl
      · exact prefix_append _ _
    · rcases kept with rfl | ⟨last, rfl, different⟩
      · exact emittedArgs_append attached
      · exact emittedArgs_replace attached different
  refine ⟨post, written, written.post_ne ?_⟩
  rcases kept with rfl | ⟨last, rfl, different⟩
  · simp
  · intro same
    have lastEq : ref = last := by simpa using same
    rw [lastEq, sameCellRef_refl (by
      rw [← lastEq]
      exact isA1_ne_nil attached)] at different
    simp at different

theorem exists_strippedFormula (read : formulaDataArgs formula = some args)
    (nonempty : args ≠ []) : ∃ post, StrippedFormula formula args post := by
  obtain ⟨parts, parsed, _⟩ := formulaDataArgs_eq_some.mp read
  exact ⟨_, read, nonempty, rebuildFormulaWithDataArgs_eq parsed args.dropLast⟩

end WriterAgent.Calc.Python
