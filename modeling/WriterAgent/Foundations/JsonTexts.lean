import WriterAgent.Foundations.JsonReader

/-!
# The texts that are JSON

White space around a text that is JSON does not matter.  A control character in
such a text is white space, so that what stands behind it starts a token.
-/

namespace WriterAgent

open PyText List Option

variable {tokens : List JsonToken} {word s tail : Text} {final lexer : JsonLexer} {c : Char}

namespace JsonLexer

theorem run_cons (lexer : JsonLexer) (c : Char) (rest : Text) :
    lexer.run (c :: rest) = (lexer.step c).bind (·.run rest) := rfl

theorem run_append (lexer : JsonLexer) (front back : Text) :
    lexer.run (front ++ back) = (lexer.run front).bind (·.run back) :=
  foldlM_append

theorem flush_extends (tokens : List JsonToken) (word : Text) : tokens <+: flush tokens word := by
  rw [flush]
  split
  · exact prefix_rfl
  · exact prefix_append _ _

theorem step_extends {next : JsonLexer} (taken : lexer.step c = some next) :
    lexer.tokens <+: next.tokens := by
  rw [step] at taken
  split at taken
  · rename_i word _
    split_ifs at taken
    · cases taken
      exact flush_extends _ _
    · cases taken
      exact (flush_extends _ word).trans (prefix_append _ _)
    · cases taken
      exact flush_extends _ _
    · cases taken
      exact prefix_rfl
  · split_ifs at taken
    · cases taken
      exact prefix_append _ _
    · cases taken
      exact prefix_rfl
    · cases taken
      exact prefix_rfl
  · split at taken
    · cases taken
      exact prefix_rfl
    · obtain ⟨escaped, -, rfl⟩ := map_eq_some_iff.mp taken
      exact prefix_rfl
  · split_ifs at taken
    · cases taken
      exact prefix_rfl
    · cases taken
      exact prefix_rfl

theorem tokens_extend (ran : lexer.run s = some final)
    (finished : final.finish = some tokens) : lexer.tokens <+: tokens := by
  induction s generalizing lexer with
  | nil =>
    cases ran
    rw [finish] at finished
    split at finished
    · cases finished
      exact flush_extends _ _
    · cases finished
  | cons c rest ih =>
    obtain ⟨next, taken, later⟩ := bind_eq_some_iff.mp ran
    exact (step_extends taken).trans (ih later)

theorem run_lstrip (ran : start.run s = some final) :
    start.run (lstripBy isSpace s) = some final := by
  induction s with
  | nil => exact ran
  | cons c rest ih =>
    rw [lstripBy, dropWhile_cons]
    split
    · rename_i space
      obtain ⟨next, taken, later⟩ := bind_eq_some_iff.mp ran
      rcases step_blank (.inl space) taken with
        ⟨-, word, outside, rfl⟩ | ⟨-, units, inString, -⟩
      · cases outside
        exact ih later
      · cases inString
    · exact ran

theorem finish_of_spaces {spaces : Text} (isSpaces : ∀ c ∈ spaces, isSpace c = true)
    (ran : lexer.run spaces = some final)
    (finished : final.finish = some tokens) : lexer.finish = some tokens := by
  induction spaces generalizing lexer with
  | nil =>
    cases ran
    exact finished
  | cons c rest ih =>
    obtain ⟨next, taken, later⟩ := bind_eq_some_iff.mp ran
    have ends := ih (fun d member => isSpaces d (mem_cons_of_mem c member)) later
    rcases step_blank (.inl (isSpaces c List.mem_cons_self)) taken with
      ⟨-, word, outside, rfl⟩ | ⟨-, units, -, inString⟩
    · rw [finish, outside]
      exact ends
    · rw [finish, inString] at ends
      cases ends

theorem exists_spaces_rstrip (s : Text) : ∃ spaces, s = rstripBy isSpace s ++ spaces ∧
      ∀ c ∈ spaces, isSpace c = true := by
  refine ⟨(s.reverse.takeWhile isSpace).reverse, ?_, fun c member => ?_⟩
  · rw [rstripBy, List.rdropWhile, ← reverse_append, takeWhile_append_dropWhile, reverse_reverse]
  · rw [mem_reverse] at member
    exact mem_takeWhile_imp member

theorem tokens_strip (accepted : jsonTokens s = some tokens) :
    jsonTokens (strip s) = some tokens := by
  obtain ⟨final, ran, finished⟩ := bind_eq_some_iff.mp accepted
  have stripped := run_lstrip ran
  rw [jsonTokens, strip]
  generalize lstripBy isSpace s = front at stripped ⊢
  obtain ⟨spaces, split, isSpaces⟩ := exists_spaces_rstrip front
  rw [split, run_append] at stripped
  obtain ⟨middle, before, behind⟩ := bind_eq_some_iff.mp stripped
  rw [before]
  exact finish_of_spaces isSpaces behind finished

theorem not_isJsonSpace_of_isJsonWord (isWord : isJsonWord c = true) :
    isJsonSpace c = false ∧ isJsonSymbol c = false ∧ c ≠ '"' := by
  refine ⟨?_, ?_, ?_⟩
  · by_contra space
    simp only [isJsonSpace, Bool.not_eq_false, Bool.or_eq_true, beq_iff_eq] at space
    rcases space with ((rfl | rfl) | rfl) | rfl <;> revert isWord <;> decide
  · by_contra symbol
    simp only [isJsonSymbol, Bool.not_eq_false, Bool.or_eq_true, beq_iff_eq] at symbol
    rcases symbol with ((((rfl | rfl) | rfl) | rfl) | rfl) | rfl <;>
      revert isWord <;> decide
  · rintro rfl
    revert isWord
    decide

theorem step_word (isWord : isJsonWord c = true) :
    step ⟨tokens, .outside word⟩ c = some ⟨tokens, .outside (word ++ [c])⟩ := by
  obtain ⟨space, symbol, quote⟩ := not_isJsonSpace_of_isJsonWord isWord
  simp only [step, space, symbol, quote, isWord, if_false, if_true, Bool.false_eq_true]

theorem run_word (isWord : ∀ c ∈ tail, isJsonWord c = true) :
    run ⟨tokens, .outside word⟩ tail = some ⟨tokens, .outside (word ++ tail)⟩ := by
  induction tail generalizing word with
  | nil => rw [append_nil]; rfl
  | cons c rest ih =>
    rw [run_cons, step_word (isWord c List.mem_cons_self), bind_some,
      ih fun d member => isWord d (mem_cons_of_mem c member),
      append_assoc, singleton_append]

theorem exists_word {later : List JsonToken} {rest : Text} (nonempty : word ≠ [])
    (ran : run ⟨tokens, .outside word⟩ rest = some final) (finished : final.finish = some later) :
    ∃ whole, word <+: whole ∧ .word whole ∈ later := by
  have flushed : .word word ∈ flush tokens word := by
    rw [flush, if_neg (by rwa [List.isEmpty_iff])]
    exact List.mem_append_right _ List.mem_cons_self
  induction rest generalizing word with
  | nil =>
    cases ran
    cases finished
    exact ⟨word, prefix_rfl, flushed⟩
  | cons c rest ih =>
    obtain ⟨next, taken, behind⟩ := bind_eq_some_iff.mp ran
    have kept := tokens_extend behind finished
    simp only [step] at taken
    split_ifs at taken
    · cases taken
      exact ⟨word, prefix_rfl, kept.subset flushed⟩
    · cases taken
      exact ⟨word, prefix_rfl, kept.subset (mem_append_left _ flushed)⟩
    · cases taken
      exact ⟨word, prefix_rfl, kept.subset flushed⟩
    · cases taken
      have longer : word ++ [c] ≠ [] := by simp
      obtain ⟨whole, starts, member⟩ := ih longer behind (by
        rw [flush, if_neg (by simp)]
        exact List.mem_append_right _ List.mem_cons_self)
      exact ⟨whole, (prefix_append _ _).trans starts, member⟩

theorem exists_word_of_control {front back : Text} {control : Char}
    (isControl : isControl control = true) (nonempty : tail ≠ [])
    (isWord : ∀ c ∈ tail, isJsonWord c = true)
    (accepted : jsonTokens (front ++ control :: (tail ++ back)) = some tokens) :
    isJsonSpace control = true ∧ ∃ whole, tail <+: whole ∧ .word whole ∈ tokens := by
  obtain ⟨final, ran, finished⟩ := bind_eq_some_iff.mp accepted
  rw [run_append] at ran
  obtain ⟨before, -, behind⟩ := bind_eq_some_iff.mp ran
  rw [run_cons] at behind
  obtain ⟨next, taken, later⟩ := bind_eq_some_iff.mp behind
  rcases step_blank (.inr isControl) taken with
    ⟨space, word, -, rfl⟩ | ⟨noControl, -⟩
  · rw [run_append, run_word isWord, nil_append] at later
    exact ⟨space, exists_word nonempty later finished⟩
  · rw [isControl] at noControl
    cases noControl

end JsonLexer

variable {ν : Type} {parts : JsonParts ν}

theorem JsonParser.step_word {parser next : JsonParser ν}
    (taken : parser.step parts (.word word) = some next) :
    (wordValue parts word).isSome = true := by
  have ofValue : ∀ {stack : List (JsonFrame ν)}, stepValue parts stack (.word word) = some next →
        (wordValue parts word).isSome = true := by
    intro stack value
    obtain ⟨own, found, -⟩ := bind_eq_some_iff.mp value
    rw [found, isSome_some]
  have notKey : ∀ stack : List (JsonFrame ν), stepKey parts stack (.word word) = none := by
    intro stack
    cases stack with
    | nil => rfl
    | cons frame rest => cases frame <;> rfl
  have notBehind : ∀ stack : List (JsonFrame ν), stepBehind stack (.word word) = none := by
    intro stack
    cases stack with
    | nil => rfl
    | cons frame rest => cases frame <;> rfl
  rw [step] at taken
  split at taken
  · exact ofValue taken
  · exact ofValue taken
  · rw [notKey] at taken
    cases taken
  · rw [notKey] at taken
    cases taken
  · cases taken
  · rw [notBehind] at taken
    cases taken
  · cases taken

theorem wordValue_of_mem {value : Json ν} (parsed : parseTokens parts tokens = some value)
    (member : .word word ∈ tokens) : (wordValue parts word).isSome = true := by
  obtain ⟨final, ran, -⟩ := bind_eq_some_iff.mp parsed
  clear parsed
  generalize (JsonParser.start : JsonParser ν) = parser at ran
  induction tokens generalizing parser with
  | nil => cases member
  | cons token rest ih =>
    obtain ⟨next, taken, later⟩ := bind_eq_some_iff.mp ran
    rcases mem_cons.mp member with rfl | behind
    · exact JsonParser.step_word taken
    · exact ih behind next later

end WriterAgent
