import WriterAgent.Calc.AddressText
import WriterAgent.Calc.SpreadsheetImport.Graph

/-!
# The references of a formula

A formula without text literals is a row of operators, words and references.
The pattern finds the cells and the corners of the ranges, and nothing else.
-/

namespace WriterAgent.Calc.SpreadsheetImport

open PyText List

/-- A reference to a cell, either part of it absolute or relative. -/
structure CellRef where
  colAbs : Bool
  rowAbs : Bool
  position : Position
deriving DecidableEq

def dollar (isAbs : Bool) : Text := if isAbs then ['$'] else []

def CellRef.text (ref : CellRef) : Text :=
  dollar ref.colAbs ++ indexToColumn ref.position.1 ++
    (dollar ref.rowAbs ++ (toString (ref.position.2 + 1)).toList)

/-- The pieces of a formula; a word is a name or a number. -/
inductive Lexeme where
  | op (c : Char)
  | word (name : Text)
  | cell (ref : CellRef)
  | range (start stop : CellRef)
deriving DecidableEq

def Lexeme.text : Lexeme → Text
  | .op c => [c]
  | .word name => name
  | .cell ref => ref.text
  | .range start stop => start.text ++ ':' :: stop.text

def isOperator (c : Char) : Bool := c ∈ "=+-*/^&<>()[]\x7b\x7d;,%~|@ \n\t".toList

def isNameChar (c : Char) : Bool := !isOperator c && c != '$' && c != '"' && c != ':'

/-- No digit stands right behind a letter. -/
def Apart (c d : Char) : Prop := ¬ (isAsciiUpper c = true ∧ isDecimal d = true)

def Lexeme.IsWellFormed : Lexeme → Prop
  | .op c => isOperator c = true
  | .word name => name ≠ [] ∧ (∀ c ∈ name, isNameChar c = true) ∧ name.IsChain Apart
  | _ => True

/-- Two pieces are kept apart by operators; a reference is not called. -/
def MayFollow : Lexeme → Lexeme → Prop
  | .op _, _ => True
  | .word _, .op _ => True
  | _, .op c => c ≠ '('
  | _, _ => False

/-- The formula, its letters in upper case, is written so. -/
structure Reads (formula : Text) (lexemes : List Lexeme) : Prop where
  text : upper formula = lexemes.flatMap Lexeme.text
  wellFormed : ∀ lexeme ∈ lexemes, lexeme.IsWellFormed
  apart : lexemes.IsChain MayFollow

def Lexeme.mentions : Lexeme → List Position
  | .cell ref => [ref.position]
  | .range start stop => [start.position, stop.position]
  | _ => []

/-- A cell that a piece refers to, directly or as a cell of a range. -/
def Lexeme.Covers (lexeme : Lexeme) (p : Position) : Prop :=
  match lexeme with
  | .cell ref => p = ref.position
  | .range start stop =>
    min start.position.1 stop.position.1 ≤ p.1 ∧ p.1 ≤ max start.position.1 stop.position.1 ∧
    min start.position.2 stop.position.2 ≤ p.2 ∧ p.2 ≤ max start.position.2 stop.position.2
  | _ => False

variable {rest s : Text} {c : Char} {lexeme : Lexeme} {lexemes : List Lexeme}

theorem covers_of_mem_mentions {p : Position} (mentioned : p ∈ lexeme.mentions) :
    lexeme.Covers p := by
  cases lexeme with
  | op | word => cases mentioned
  | cell ref => exact mem_singleton.1 mentioned
  | range start stop =>
    rcases mem_cons.1 mentioned with rfl | second
    · exact ⟨min_le_left _ _, le_max_left _ _, min_le_left _ _, le_max_left _ _⟩
    · obtain rfl := mem_singleton.1 second
      exact ⟨min_le_right _ _, le_max_right _ _, min_le_right _ _, le_max_right _ _⟩

theorem operator_facts (operator : isOperator c = true) :
    isAsciiUpper c = false ∧ isDecimal c = false ∧ c ≠ '$' := by
  have table : ∀ c ∈ "=+-*/^&<>()[]\x7b\x7d;,%~|@ \n\t".toList,
      isAsciiUpper c = false ∧ isDecimal c = false ∧ c ≠ '$' := by decide
  exact table c (of_decide_eq_true operator)

theorem dropDollar_of_ne (noDollar : c ≠ '$') : dropDollar (c :: rest) = c :: rest := by
  rw [dropDollar, if_neg (by simpa using noDollar)]

theorem dropDollar_dollar {isAbs : Bool} (noDollar : c ≠ '$') :
    dropDollar (dollar isAbs ++ c :: rest) = c :: rest := by
  cases isAbs with
  | true => rfl
  | false => exact dropDollar_of_ne noDollar

theorem matchCellRef_other (noLetter : isAsciiUpper c = false) (noDollar : c ≠ '$') :
    matchCellRef (c :: rest) = none := by
  rw [matchCellRef, dropDollar_of_ne noDollar, takeWhile_cons_of_neg (by simp [noLetter]),
    if_pos (Or.inl rfl)]

theorem head_after_letters {s rest : Text} (nonempty : s ≠ [])
    (chars : ∀ c ∈ s, isNameChar c = true) (apart : s.IsChain Apart)
    (stops : ∀ c, rest.head? = some c → isOperator c = true)
    (letter : ∀ c, s.head? = some c → isAsciiUpper c = true) {d : Char}
    (next : ((s ++ rest).dropWhile isAsciiUpper).head? = some d) :
    d ≠ '$' ∧ isDecimal d = false := by
  induction s with
  | nil => exact absurd rfl nonempty
  | cons c more induction =>
    rw [cons_append, dropWhile_cons_of_pos (letter c rfl)] at next
    cases more with
    | nil =>
      rw [nil_append] at next
      cases rest with
      | nil => cases next
      | cons op rest =>
        obtain ⟨noLetter, noDigit, noDollar⟩ := operator_facts (stops op rfl)
        rw [dropWhile_cons_of_neg (by simp [noLetter])] at next
        obtain rfl := Option.some.inj next
        exact ⟨noDollar, noDigit⟩
    | cons second more =>
      obtain ⟨first, apart⟩ := isChain_cons_cons.1 apart
      by_cases isLetter : isAsciiUpper second = true
      · refine induction (cons_ne_nil _ _)
          (fun c member => chars c (mem_cons_of_mem _ member)) apart ?_ next
        rintro _ ⟨⟩
        exact isLetter
      · rw [cons_append, dropWhile_cons_of_neg isLetter] at next
        obtain rfl := Option.some.inj next
        have nameChar := chars second (mem_cons_of_mem _ mem_cons_self)
        simp only [isNameChar, Bool.and_eq_true, bne_iff_ne] at nameChar
        refine ⟨nameChar.1.1.2, ?_⟩
        by_contra digit
        exact first ⟨letter c rfl, by simpa using digit⟩

theorem matchCellRef_word (nonempty : s ≠ []) (chars : ∀ c ∈ s, isNameChar c = true)
    (apart : s.IsChain Apart) (stops : ∀ c, rest.head? = some c → isOperator c = true) :
    matchCellRef (s ++ rest) = none := by
  obtain ⟨c, more, rfl⟩ := exists_cons_of_ne_nil nonempty
  have nameChar := chars c mem_cons_self
  simp only [isNameChar, Bool.and_eq_true, bne_iff_ne] at nameChar
  have noDollar : c ≠ '$' := nameChar.1.1.2
  by_cases isLetter : isAsciiUpper c = true
  · have after := @head_after_letters (c :: more) rest nonempty chars apart stops
      (by rintro _ ⟨⟩; exact isLetter)
    rw [cons_append] at after ⊢
    rw [matchCellRef, dropDollar_of_ne noDollar, if_pos]
    right
    generalize (c :: (more ++ rest)).dropWhile isAsciiUpper = behind at after
    cases behind with
    | nil => rfl
    | cons d behind =>
      obtain ⟨noDollar, noDigit⟩ := after rfl
      rw [dropDollar_of_ne noDollar, takeWhile_cons_of_neg (by simp [noDigit])]
  · exact matchCellRef_other (by simpa using isLetter) noDollar

theorem matchCellRef_cell (ref : CellRef) (stops : ∀ c, rest.head? = some c → isDecimal c = false) :
    matchCellRef (ref.text ++ rest) = some (ref.text.length, indexToColumn ref.position.1,
        (toString (ref.position.2 + 1)).toList) := by
  obtain ⟨colAbs, rowAbs, col, row⟩ := ref
  have letters := fun c => @isAsciiUpper_of_mem_indexToColumn col c
  have digits : ∀ c ∈ (toString (row + 1)).toList, isDecimal c = true := fun c member =>
    (isDecimal_of_isAsciiDigit (isAsciiDigit_of_mem_rowText member)).1
  obtain ⟨l, ls, isColumn⟩ := exists_cons_of_ne_nil (indexToColumn_ne_nil col)
  obtain ⟨d, ds, isRow⟩ := exists_cons_of_ne_nil (rowText_ne_nil (row + 1))
  have letter : l ≠ '$' := by
    rintro rfl
    exact absurd (letters '$' (isColumn ▸ mem_cons_self)) (by decide)
  have digit : d ≠ '$' := by
    rintro rfl
    exact absurd (digits '$' (isRow ▸ mem_cons_self)) (by decide)
  have digitNoLetter : isAsciiUpper d = false :=
    not_isAsciiUpper_of_isAsciiDigit (isAsciiDigit_of_mem_rowText (isRow ▸ mem_cons_self))
  have start : dropDollar ((CellRef.mk colAbs rowAbs (col, row)).text ++ rest) =
      indexToColumn col ++ (dollar rowAbs ++ ((toString (row + 1)).toList ++ rest)) := by
    rw [CellRef.text, isColumn, append_assoc, append_assoc, cons_append,
      dropDollar_dollar letter, append_assoc, cons_append]
  have stop : (dollar rowAbs ++ ((toString (row + 1)).toList ++ rest)).takeWhile isAsciiUpper =
      [] ∧ (dollar rowAbs ++ ((toString (row + 1)).toList ++ rest)).dropWhile isAsciiUpper =
        dollar rowAbs ++ ((toString (row + 1)).toList ++ rest) := by
    rw [isRow]
    cases rowAbs with
    | true => exact ⟨rfl, rfl⟩
    | false =>
      rw [dollar, if_neg (by decide), nil_append, cons_append,
        takeWhile_cons_of_neg (by simp [digitNoLetter]),
        dropWhile_cons_of_neg (by simp [digitNoLetter])]
      exact ⟨rfl, rfl⟩
  have endsDigits : rest.takeWhile isDecimal = [] ∧ rest.dropWhile isDecimal = rest := by
    cases rest with
    | nil => exact ⟨rfl, rfl⟩
    | cons c rest =>
      have no := stops c rfl
      rw [takeWhile_cons_of_neg (by simp [no]), dropWhile_cons_of_neg (by simp [no])]
      exact ⟨rfl, rfl⟩
  have tail : dropDollar (dollar rowAbs ++ ((toString (row + 1)).toList ++ rest)) =
      (toString (row + 1)).toList ++ rest := by
    rw [isRow, cons_append, dropDollar_dollar digit]
  rw [matchCellRef, start, takeWhile_append_of_pos letters, stop.1, append_nil,
    dropWhile_append_of_pos letters, stop.2, tail, takeWhile_append_of_pos digits,
    endsDigits.1, append_nil, dropWhile_append_of_pos digits, endsDigits.2,
    if_neg (by simp [isColumn]), length_append, Nat.add_sub_cancel]


theorem findCellRefs_other (noMatch : matchCellRef (c :: rest) = none) :
    findCellRefs 0 (c :: rest) = findCellRefs 0 rest := by
  rw [findCellRefs, noMatch]

theorem findCellRefs_skip (front rest : Text) :
    findCellRefs front.length (front ++ rest) = findCellRefs 0 rest := by
  induction front with
  | nil => rfl
  | cons c front induction => exact induction

theorem findCellRefs_cell (ref : CellRef) (stops : ∀ c, rest.head? = some c → isDecimal c = false) :
    findCellRefs 0 (ref.text ++ rest) =
      (indexToColumn ref.position.1, (toString (ref.position.2 + 1)).toList) ::
        findCellRefs 0 rest := by
  have found := matchCellRef_cell ref stops
  obtain ⟨c, more, isText⟩ : ∃ c more, ref.text = c :: more := by
    apply exists_cons_of_ne_nil
    simp [CellRef.text, indexToColumn_ne_nil]
  rw [isText, cons_append] at found ⊢
  rw [findCellRefs, found]
  dsimp only
  rw [length_cons, Nat.add_sub_cancel, findCellRefs_skip]

theorem findCellRefs_word (chars : ∀ c ∈ s, isNameChar c = true) (apart : s.IsChain Apart)
    (stops : ∀ c, rest.head? = some c → isOperator c = true) :
    findCellRefs 0 (s ++ rest) = findCellRefs 0 rest := by
  induction s with
  | nil => rfl
  | cons c more induction =>
    have noMatch := matchCellRef_word (cons_ne_nil c more) chars apart stops
    rw [cons_append] at noMatch ⊢
    rw [findCellRefs_other noMatch]
    exact induction (fun d member => chars d (mem_cons_of_mem _ member)) apart.tail

theorem head_after {rest : List Lexeme} (wellFormed : ∀ next ∈ rest, next.IsWellFormed)
    (apart : (lexeme :: rest).IsChain MayFollow) (noOperator : ∀ c, lexeme ≠ .op c) :
    ∀ c, (rest.flatMap Lexeme.text).head? = some c → isOperator c = true := by
  cases rest with
  | nil => rintro c ⟨⟩
  | cons next rest =>
    have follows := (isChain_cons_cons.1 apart).1
    cases next with
    | op d =>
      rintro c ⟨⟩
      exact wellFormed (.op d) mem_cons_self
    | word name | cell ref | range start stop =>
      cases lexeme with
      | op c => exact absurd rfl (noOperator c)
      | _ => exact absurd follows id

theorem findCellRefs_lexemes (wellFormed : ∀ lexeme ∈ lexemes, lexeme.IsWellFormed)
    (apart : lexemes.IsChain MayFollow) :
    findCellRefs 0 (lexemes.flatMap Lexeme.text) = (lexemes.flatMap Lexeme.mentions).map fun p =>
        (indexToColumn p.1, (toString (p.2 + 1)).toList) := by
  induction lexemes with
  | nil => rfl
  | cons lexeme rest induction =>
    have later := fun next member => wellFormed next (mem_cons_of_mem lexeme member)
    have restRefs := induction later apart.tail
    have stops := head_after later apart
    rw [flatMap_cons, flatMap_cons, map_append, ← restRefs]
    have noDigit : (∀ c, lexeme ≠ .op c) → ∀ c,
        (rest.flatMap Lexeme.text).head? = some c → isDecimal c = false :=
      fun noOperator c head => (operator_facts (stops noOperator c head)).2.1
    cases lexeme with
    | op c =>
      obtain ⟨noLetter, _, noDollar⟩ := operator_facts (wellFormed (.op c) mem_cons_self)
      exact findCellRefs_other (matchCellRef_other noLetter noDollar)
    | word name =>
      obtain ⟨_, chars, apartChars⟩ := wellFormed (.word name) mem_cons_self
      exact findCellRefs_word chars apartChars (stops nofun)
    | cell ref => exact findCellRefs_cell ref (noDigit nofun)
    | range start stop =>
      rw [Lexeme.text, append_assoc, findCellRefs_cell start (by rintro c ⟨⟩; decide),
        cons_append, findCellRefs_other (matchCellRef_other (by decide) (by decide)),
        findCellRefs_cell stop (noDigit nofun)]
      rfl

theorem extractCellRefs_of_reads {formula : Text} (reads : Reads formula lexemes) :
    extractCellRefs formula =
      (lexemes.flatMap Lexeme.mentions).map fun p => formatAddress p.1 p.2 := by
  rw [extractCellRefs, reads.text, findCellRefs_lexemes reads.wellFormed reads.apart, map_map]
  rfl

end WriterAgent.Calc.SpreadsheetImport
