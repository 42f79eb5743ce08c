import WriterAgent.Foundations.JsonTexts

/-!
# JSON up to its strings

Whether a text is JSON, and whether its value is `null`, does not depend on what
its strings hold.
-/

namespace WriterAgent

open PyText

/-- Tokens are equal up to what a string holds. -/
inductive JsonToken.SameShape : JsonToken → JsonToken → Prop where
  | symbol (c : Char) : SameShape (.symbol c) (.symbol c)
  | word (text : Text) : SameShape (.word text) (.word text)
  | string (units others : List JsonUnit) : SameShape (.string units) (.string others)

inductive JsonMode.SameShape : JsonMode → JsonMode → Prop where
  | outside (word : Text) : SameShape (.outside word) (.outside word)
  | string (units others : List JsonUnit) : SameShape (.string units) (.string others)
  | escape (units others : List JsonUnit) : SameShape (.escape units) (.escape others)
  | unicode (units others : List JsonUnit) (digits : Text) :
      SameShape (.unicode units digits) (.unicode others digits)

structure JsonLexer.SameShape (lexer other : JsonLexer) : Prop where
  tokens : List.Forall₂ JsonToken.SameShape lexer.tokens other.tokens
  mode : lexer.mode.SameShape other.mode

variable {token otherToken : JsonToken} {tokens : List JsonToken} {lexer other : JsonLexer}

namespace JsonLexer

theorem flush_sameShape {others : List JsonToken}
    (same : List.Forall₂ JsonToken.SameShape tokens others) (word : Text) :
    List.Forall₂ JsonToken.SameShape (flush tokens word) (flush others word) := by
  rw [flush, flush]
  split
  · exact same
  · exact List.rel_append same (.cons (.word word) .nil)

theorem step_sameShape {next : JsonLexer} {c : Char}
    (same : lexer.SameShape other) (taken : lexer.step c = some next) :
    ∃ otherNext, other.step c = some otherNext ∧ next.SameShape otherNext := by
  obtain ⟨tokens, mode⟩ := lexer
  obtain ⟨otherTokens, otherMode⟩ := other
  obtain ⟨sameTokens, sameMode⟩ := same
  cases sameMode with
  | outside word =>
    simp only [step] at taken ⊢
    split_ifs at taken ⊢
    · cases taken
      exact ⟨_, rfl, flush_sameShape sameTokens word, .outside []⟩
    · cases taken
      exact ⟨_, rfl, List.rel_append (flush_sameShape sameTokens word)
        (.cons (.symbol c) .nil), .outside []⟩
    · cases taken
      exact ⟨_, rfl, flush_sameShape sameTokens word, .string [] []⟩
    · cases taken
      exact ⟨_, rfl, sameTokens, .outside _⟩
  | string units others =>
    simp only [step] at taken ⊢
    split_ifs at taken ⊢
    · cases taken
      exact ⟨_, rfl, List.rel_append sameTokens (.cons (.string units others) .nil), .outside []⟩
    · cases taken
      exact ⟨_, rfl, sameTokens, .escape units others⟩
    · cases taken
      exact ⟨_, rfl, sameTokens, .string _ _⟩
  | escape units others =>
    simp only [step] at taken ⊢
    split_ifs at taken ⊢
    · cases taken
      exact ⟨_, rfl, sameTokens, .unicode units others []⟩
    · obtain ⟨escaped, found, rfl⟩ := Option.map_eq_some_iff.mp taken
      rw [found]
      exact ⟨_, rfl, sameTokens, .string _ _⟩
  | unicode units others digits =>
    simp only [step] at taken ⊢
    split_ifs at taken ⊢
    · cases taken
      exact ⟨_, rfl, sameTokens, .unicode units others _⟩
    · cases taken
      exact ⟨_, rfl, sameTokens, .string _ _⟩

theorem finish_sameShape (same : lexer.SameShape other) (finished : lexer.finish = some tokens) :
    ∃ others, other.finish = some others ∧ List.Forall₂ JsonToken.SameShape tokens others := by
  obtain ⟨tokens, mode⟩ := lexer
  obtain ⟨otherTokens, otherMode⟩ := other
  obtain ⟨sameTokens, sameMode⟩ := same
  cases sameMode with
  | outside word =>
    cases finished
    exact ⟨_, rfl, flush_sameShape sameTokens word⟩
  | string | escape | unicode => cases finished

end JsonLexer

section Values

variable {ν : Type} {parts : JsonParts ν}

inductive JsonFrame.SameShape : JsonFrame ν → JsonFrame ν → Prop where
  | array (items others : List (Json ν)) : SameShape (.array items) (.array others)
  | object (fields others : Json.Fields ν) : SameShape (.object fields) (.object others)
  | member (fields others : Json.Fields ν) (key otherKey : Text) :
      SameShape (.member fields key) (.member others otherKey)

inductive JsonExpect.SameShape : JsonExpect ν → JsonExpect ν → Prop where
  | refl (expect : JsonExpect ν) : SameShape expect expect
  | whole {value other : Json ν} : value.isNull = other.isNull →
      SameShape (.whole value) (.whole other)

structure JsonParser.SameShape (parser other : JsonParser ν) : Prop where
  stack : List.Forall₂ JsonFrame.SameShape parser.stack other.stack
  expect : parser.expect.SameShape other.expect

namespace JsonParser

variable {stack others : List (JsonFrame ν)} {next : JsonParser ν}

theorem complete_sameShape {value otherValue : Json ν} (sameNull : value.isNull = otherValue.isNull)
    (same : List.Forall₂ JsonFrame.SameShape stack others)
    (taken : complete value stack = some next) :
    ∃ otherNext, complete otherValue others = some otherNext ∧ next.SameShape otherNext := by
  cases same with
  | nil =>
    cases taken
    exact ⟨_, rfl, .nil, .whole sameNull⟩
  | cons frame rest =>
    cases frame with
    | array items otherItems =>
      cases taken
      exact ⟨_, rfl, .cons (.array _ _) rest, .refl _⟩
    | object => cases taken
    | member fields otherFields key otherKey =>
      cases taken
      exact ⟨_, rfl, .cons (.object _ _) rest, .refl _⟩

theorem stepValue_sameShape (same : List.Forall₂ JsonFrame.SameShape stack others)
    (sameToken : token.SameShape otherToken) (taken : stepValue parts stack token = some next) :
    ∃ otherNext, stepValue parts others otherToken = some otherNext ∧ next.SameShape otherNext := by
  cases sameToken with
  | symbol c =>
    rw [stepValue.eq_def] at taken
    split at taken
    · rename_i isOpen
      cases isOpen
      cases taken
      exact ⟨_, rfl, .cons (.array _ _) same, .refl _⟩
    · rename_i isOpen
      cases isOpen
      cases taken
      exact ⟨_, rfl, .cons (.object _ _) same, .refl _⟩
    · cases taken
    · next isWord => cases isWord
    · next isString => cases isString
  | word text =>
    obtain ⟨value, found, completed⟩ := Option.bind_eq_some_iff.mp taken
    obtain ⟨otherNext, otherCompleted, sameNext⟩ :=
      complete_sameShape rfl same completed
    refine ⟨otherNext, ?_, sameNext⟩
    rw [stepValue, found]
    exact otherCompleted
  | string units otherUnits =>
    have sameNull : (.str (unitsText parts.halves units) : Json ν).isNull =
        Json.isNull (.str (unitsText parts.halves otherUnits) : Json ν) := rfl
    exact complete_sameShape sameNull same taken

theorem stepKey_sameShape (same : List.Forall₂ JsonFrame.SameShape stack others)
    (sameToken : token.SameShape otherToken) (taken : stepKey parts stack token = some next) :
    ∃ otherNext, stepKey parts others otherToken = some otherNext ∧ next.SameShape otherNext := by
  cases same with
  | nil => cases taken
  | cons frame rest =>
    cases frame with
    | array | member => cases taken
    | object fields otherFields =>
      cases sameToken with
      | symbol | word => cases taken
      | string units otherUnits =>
        cases taken
        exact ⟨_, rfl, .cons (.member _ _ _ _) rest, .refl _⟩

theorem stepBehind_sameShape (same : List.Forall₂ JsonFrame.SameShape stack others)
    (sameToken : token.SameShape otherToken) (taken : stepBehind stack token = some next) :
    ∃ otherNext, stepBehind others otherToken = some otherNext ∧ next.SameShape otherNext := by
  cases same with
  | nil => cases taken
  | cons frame rest =>
    cases frame with
    | member => cases taken
    | array items otherItems =>
      cases sameToken with
      | word | string => cases taken
      | symbol c =>
        simp only [stepBehind] at taken ⊢
        split_ifs at taken ⊢
        · cases taken
          exact ⟨_, rfl, .cons (.array _ _) rest, .refl _⟩
        · have sameNull : (.arr items : Json ν).isNull =
              Json.isNull (.arr otherItems : Json ν) := rfl
          exact complete_sameShape sameNull rest taken
    | object fields otherFields =>
      cases sameToken with
      | word | string => cases taken
      | symbol c =>
        simp only [stepBehind] at taken ⊢
        split_ifs at taken ⊢
        · cases taken
          exact ⟨_, rfl, .cons (.object _ _) rest, .refl _⟩
        · have sameNull : (.obj fields : Json ν).isNull =
              Json.isNull (.obj otherFields : Json ν) := rfl
          exact complete_sameShape sameNull rest taken

theorem sameShape_symbol_iff {other : JsonToken} (same : token.SameShape other)
    (c : Char) : token = .symbol c ↔ other = .symbol c := by
  cases same with
  | symbol => rfl
  | word => rfl
  | string => exact ⟨nofun, nofun⟩

theorem step_sameShape {parser other next : JsonParser ν} (same : parser.SameShape other)
    (sameToken : token.SameShape otherToken) (taken : parser.step parts token = some next) :
    ∃ otherNext, other.step parts otherToken = some otherNext ∧ next.SameShape otherNext := by
  obtain ⟨stack, expect⟩ := parser
  obtain ⟨otherStack, otherExpect⟩ := other
  obtain ⟨sameStack, sameExpect⟩ := same
  cases sameExpect with
  | whole => cases taken
  | refl =>
    cases expect with
    | value => exact stepValue_sameShape sameStack sameToken taken
    | firstItem =>
      simp only [step, sameShape_symbol_iff sameToken] at taken ⊢
      split_ifs at taken ⊢
      · exact stepBehind_sameShape sameStack sameToken taken
      · exact stepValue_sameShape sameStack sameToken taken
    | firstKey =>
      simp only [step, sameShape_symbol_iff sameToken] at taken ⊢
      split_ifs at taken ⊢
      · exact stepBehind_sameShape sameStack sameToken taken
      · exact stepKey_sameShape sameStack sameToken taken
    | key => exact stepKey_sameShape sameStack sameToken taken
    | colon =>
      simp only [step, sameShape_symbol_iff sameToken] at taken ⊢
      split_ifs at taken ⊢
      cases taken
      exact ⟨_, rfl, sameStack, .refl _⟩
    | behind => exact stepBehind_sameShape sameStack sameToken taken
    | whole value => cases taken

end JsonParser

/-- **Shapes.** Tokens of the same shape have values alike. -/
theorem parseTokens_sameShape {others : List JsonToken} {value : Json ν}
    (same : List.Forall₂ JsonToken.SameShape tokens others)
    (parsed : parseTokens parts tokens = some value) :
    ∃ other, parseTokens parts others = some other ∧ other.isNull = value.isNull := by
  obtain ⟨final, ran, finished⟩ := Option.bind_eq_some_iff.mp parsed
  have runs : ∀ {parser other : JsonParser ν}, parser.SameShape other →
      tokens.foldlM (JsonParser.step parts) parser = some final → ∃ otherFinal,
          others.foldlM (JsonParser.step parts) other = some otherFinal ∧
            final.SameShape otherFinal := by
    clear parsed ran
    induction same with
    | nil =>
      intro parser other sameParser run
      cases run
      exact ⟨other, rfl, sameParser⟩
    | cons sameToken _ ih =>
      intro parser other sameParser run
      obtain ⟨next, taken, later⟩ := Option.bind_eq_some_iff.mp run
      obtain ⟨otherNext, otherTaken, sameNext⟩ :=
        JsonParser.step_sameShape sameParser sameToken taken
      rw [List.foldlM_cons, otherTaken]
      exact ih sameNext later
  obtain ⟨otherFinal, otherRan, sameStack, sameExpect⟩ :=
    runs ⟨.nil, .refl _⟩ ran
  obtain ⟨stack, expect⟩ := final
  obtain ⟨otherStack, otherExpect⟩ := otherFinal
  have isWhole : expect = .whole value := by
    rw [JsonParser.finish] at finished
    split at finished
    · rename_i whole
      cases finished
      exact whole
    · cases finished
  subst isWhole
  cases sameExpect with
  | refl => exact ⟨value, by rw [parseTokens, otherRan]; rfl, rfl⟩
  | @whole _ other sameNull => exact ⟨other, by rw [parseTokens, otherRan]; rfl, sameNull.symm⟩

end Values

end WriterAgent
