import WriterAgent.Calc.ExcelPyConvert.XlCalls

/-!
# Places of the syntax tree in the source

The lines that `ast` counts end at a line feed, a carriage return or the two
together.  `ast_source_offset` looks a line up in `str.splitlines`, which also
ends lines at vertical tabs, form feeds and the separators of Unicode.
-/

namespace WriterAgent.Calc.ExcelPyConvert

open PyText List Option

/-- The character ends a line for Python's grammar, the text behind it being
`rest`. -/
def endsAstLine (c : Char) (rest : Text) : Bool :=
  c == '\n' || (c == '\r' && rest.head? != some '\n')

/-- The line a position stands in, counted from one, and the part of the line
before it. -/
def astLine : Text → ℕ → ℕ × Text
  | [], _ => (1, [])
  | _ :: _, 0 => (1, [])
  | c :: rest, p + 1 =>
    let (lineno, before) := astLine rest p
    if endsAstLine c rest then (lineno + 1, before)
    else if lineno = 1 then (1, c :: before)
    else (lineno, before)

/-- `lineno` and `col_offset` of a position as `ast` reports them. -/
def astPosition (src : Text) (p : ℕ) : ℕ × ℕ :=
  ((astLine src p).1, utf8Length (astLine src p).2)

/-- A character that ends a line for `str.splitlines` only. -/
def isExtraBoundary (c : Char) : Bool :=
  isLineBoundary c && c != '\n' && c != '\r'

/-- The character ends a line of `str.splitlines`. -/
def endsLine (c : Char) (rest : Text) : Bool :=
  isLineBoundary c && !(c == '\r' && rest.head? == some '\n')

variable {c : Char} {rest s : Text}

theorem endsLine_iff (c : Char) (rest : Text) :
    endsLine c rest = true ↔ endsAstLine c rest = true ∨ isExtraBoundary c = true := by
  by_cases feed : c = '\n'
  · subst feed
    simp [endsLine, endsAstLine, isLineBoundary]
  · by_cases ret : c = '\r'
    · subst ret
      simp [endsLine, endsAstLine, isExtraBoundary, isLineBoundary]
    · simp [endsLine, endsAstLine, isExtraBoundary, feed, ret]

theorem isExtraBoundary_of_endsAstLine (ends : endsAstLine c rest = true) :
    isExtraBoundary c = false := by
  simp only [endsAstLine, Bool.or_eq_true, Bool.and_eq_true, beq_iff_eq] at ends
  rcases ends with rfl | ⟨rfl, _⟩ <;> decide

theorem splitLinesKeep_cons_ends (ends : endsLine c rest = true) :
    splitLinesKeep (c :: rest) = [c] :: splitLinesKeep rest := by
  rw [splitLinesKeep, if_pos (by simpa [endsLine] using ends)]

theorem splitLinesKeep_cons_inner {line : Text} {later : List Text}
    (inner : endsLine c rest = false) (lines : splitLinesKeep rest = line :: later) :
    splitLinesKeep (c :: rest) = (c :: line) :: later := by
  rw [splitLinesKeep, if_neg (by simpa [endsLine] using inner), lines]

theorem exists_splitLinesKeep (some : s ≠ []) : ∃ line later, splitLinesKeep s = line :: later := by
  cases lines : splitLinesKeep s with
  | nil =>
    have joined := flatten_splitLinesKeep s
    rw [lines] at joined
    exact absurd joined.symm some
  | cons line later => exact ⟨line, later, rfl⟩

theorem utf8Width_pos (c : Char) : 0 < utf8Width c := by
  unfold utf8Width
  split
  · omega
  · split
    · omega
    · split <;> omega

theorem charsWithin_zero (s : Text) : charsWithin 0 s = 0 := by
  cases s with
  | nil => rfl
  | cons c rest =>
    have wide := utf8Width_pos c
    rw [charsWithin, if_neg (by omega)]

theorem charsWithin_singleton_le (bytes : ℕ) (c : Char) : charsWithin bytes [c] ≤ 1 :=
  charsWithin_le bytes [c]

def offsetAmong (lines : List Text) (index col : ℕ) : Option ℕ :=
  match lines[index]? with
  | none => none
  | some line =>
    if utf8Length line < col then none
    else some (((lines.take index).map List.length).sum + charsWithin col line)

theorem astSourceOffset_eq (src : Text) (index col : ℕ) :
    astSourceOffset src (index + 1) col = offsetAmong (splitLinesKeep src) index col := rfl

section Offsets

variable {c : Char} {rest line : Text} {lines : List Text} {index col : ℕ}

theorem offsetAmong_cons_succ : offsetAmong (line :: lines) (index + 1) col =
      (offsetAmong lines index col).map (line.length + ·) := by
  rw [offsetAmong, offsetAmong, List.getElem?_cons_succ]
  cases lines[index]? with
  | none => rfl
  | some found =>
    by_cases beyond : utf8Length found < col
    · simp [beyond]
    · simp [beyond, Nat.add_assoc]

theorem offsetAmong_zero : offsetAmong (line :: lines) 0 col =
      if utf8Length line < col then none else some (charsWithin col line) := by
  simp [offsetAmong]

theorem offsetAmong_extend_succ : offsetAmong ((c :: line) :: lines) (index + 1) col =
      (offsetAmong (line :: lines) (index + 1) col).map (· + 1) := by
  rw [offsetAmong_cons_succ, offsetAmong_cons_succ, Option.map_map]
  congr 1
  funext offset
  simp only [length_cons, Function.comp_apply]
  omega

theorem offsetAmong_extend_zero : offsetAmong ((c :: line) :: lines) 0 (utf8Width c + col) =
      (offsetAmong (line :: lines) 0 col).map (· + 1) := by
  have width : utf8Length (c :: line) = utf8Width c + utf8Length line := by simp [utf8Length]
  rw [offsetAmong_zero, offsetAmong_zero, charsWithin,
    if_pos (Nat.le_add_right _ _), Nat.add_sub_cancel_left]
  by_cases beyond : utf8Length line < col
  · rw [if_pos (by omega), if_pos beyond]
    rfl
  · rw [if_neg (by omega), if_neg beyond]
    rfl

end Offsets

theorem one_le_astLine (s : Text) (p : ℕ) : 1 ≤ (astLine s p).1 := by
  induction s generalizing p with
  | nil => exact le_refl 1
  | cons c rest induction =>
    cases p with
    | zero => exact le_refl 1
    | succ p =>
      have later := induction p
      simp only [astLine]
      split
      · omega
      · split <;> omega

theorem astLine_ends {p : ℕ} (ends : endsAstLine c rest = true) :
    astLine (c :: rest) (p + 1) = ((astLine rest p).1 + 1, (astLine rest p).2) := by
  simp only [astLine, if_pos ends]

theorem astLine_first {p : ℕ} (inner : endsAstLine c rest = false)
    (first : (astLine rest p).1 = 1) :
    astLine (c :: rest) (p + 1) = (1, c :: (astLine rest p).2) := by
  simp [astLine, inner, first]

theorem astLine_later {p : ℕ} (inner : endsAstLine c rest = false)
    (later : (astLine rest p).1 ≠ 1) : astLine (c :: rest) (p + 1) = astLine rest p := by
  simp [astLine, inner, later]

theorem length_astLine_le (s : Text) (p : ℕ) : (astLine s p).2.length ≤ p := by
  induction s generalizing p with
  | nil => exact Nat.zero_le p
  | cons c rest induction =>
    cases p with
    | zero => exact le_refl 0
    | succ p =>
      cases ends : endsAstLine c rest with
      | true =>
        rw [astLine_ends ends]
        exact Nat.le_succ_of_le (induction p)
      | false =>
        by_cases first : (astLine rest p).1 = 1
        · rw [astLine_first ends first]
          exact Nat.succ_le_succ (induction p)
        · rw [astLine_later ends first]
          exact Nat.le_succ_of_le (induction p)

theorem length_astLine_first {p : ℕ} (inside : p ≤ s.length) (first : (astLine s p).1 = 1) :
    (astLine s p).2.length = p := by
  induction s generalizing p with
  | nil => exact (Nat.le_zero.1 inside).symm
  | cons c rest induction =>
    cases p with
    | zero => rfl
    | succ p =>
      cases ends : endsAstLine c rest with
      | true =>
        rw [astLine_ends ends] at first
        have positive := one_le_astLine rest p
        omega
      | false =>
        by_cases inFirst : (astLine rest p).1 = 1
        · rw [astLine_first ends inFirst, length_cons,
            induction (Nat.le_of_succ_le_succ inside) inFirst]
        · rw [astLine_later ends inFirst] at first
          exact absurd first inFirst

theorem astLine_cons_before {p : ℕ} (later : 1 < (astLine (c :: rest) (p + 1)).1) :
    (astLine (c :: rest) (p + 1)).2 = (astLine rest p).2 := by
  cases ends : endsAstLine c rest with
  | true => rw [astLine_ends ends]
  | false =>
    by_cases first : (astLine rest p).1 = 1
    · rw [astLine_first ends first] at later
      exact absurd later (lt_irrefl 1)
    · rw [astLine_later ends first]

theorem astLine_cons_le (c : Char) (rest : Text) (p : ℕ) :
    (astLine (c :: rest) (p + 1)).1 ≤ (astLine rest p).1 + 1 := by
  cases ends : endsAstLine c rest with
  | true => rw [astLine_ends ends]
  | false =>
    by_cases first : (astLine rest p).1 = 1
    · rw [astLine_first ends first]
      exact Nat.le_add_left 1 _
    · rw [astLine_later ends first]
      exact Nat.le_succ _

theorem offsetAmong_before {p index col offset : ℕ} (early : index + 1 < (astLine s p).1)
    (found : offsetAmong (splitLinesKeep s) index col = some offset) :
    offset + (astLine s p).2.length ≤ p ∧ (col = 0 → offset + (astLine s p).2.length < p) := by
  induction s generalizing p index col offset with
  | nil => simp [astLine] at early
  | cons c rest induction =>
    cases p with
    | zero => simp [astLine] at early
    | succ p =>
      have short := length_astLine_le rest p
      rw [astLine_cons_before (by omega)]
      cases ends : endsLine c rest with
      | true =>
        rw [splitLinesKeep_cons_ends ends] at found
        cases index with
        | zero =>
          rw [offsetAmong_zero] at found
          split_ifs at found
          obtain rfl := Option.some.inj found
          have single := charsWithin_singleton_le col c
          refine ⟨by omega, ?_⟩
          rintro rfl
          rw [charsWithin_zero]
          omega
        | succ index =>
          rw [offsetAmong_cons_succ] at found
          obtain ⟨inRest, foundRest, rfl⟩ := map_eq_some_iff.1 found
          have steps := astLine_cons_le c rest p
          have bound := induction (p := p) (by omega) foundRest
          rw [length_singleton]
          exact ⟨by omega, fun atStart => by omega⟩
      | false =>
        have inner : endsAstLine c rest = false := by
          have both := endsLine_iff c rest
          simp_all
        have later : (astLine rest p).1 ≠ 1 := by
          intro first
          rw [astLine_first inner first] at early
          exact absurd early (by simp)
        rw [astLine_later inner later] at early
        have some : rest ≠ [] := by
          rintro rfl
          exact later rfl
        obtain ⟨line, lines, isSplit⟩ := exists_splitLinesKeep some
        rw [splitLinesKeep_cons_inner ends isSplit] at found
        rw [isSplit] at induction
        cases index with
        | succ index =>
          rw [offsetAmong_extend_succ] at found
          obtain ⟨inRest, foundRest, rfl⟩ := map_eq_some_iff.1 found
          have bound := induction early foundRest
          exact ⟨by omega, fun atStart => by omega⟩
        | zero =>
          by_cases within : utf8Width c ≤ col
          · obtain ⟨more, rfl⟩ := Nat.exists_eq_add_of_le within
            rw [offsetAmong_extend_zero] at found
            obtain ⟨inRest, foundRest, rfl⟩ := map_eq_some_iff.1 found
            have bound := induction early foundRest
            exact ⟨by omega, fun atStart => by omega⟩
          · rw [offsetAmong_zero, charsWithin] at found
            split_ifs at found
            obtain rfl := Option.some.inj found
            exact ⟨by omega, fun _ => by omega⟩

/-- No character in front of a position ends a line for `str.splitlines` only,
but for one directly in front of it. -/
def NoExtraBoundaryBefore (src : Text) (p : ℕ) : Prop :=
  ∀ c ∈ src.take (p - 1), isExtraBoundary c = false

theorem noExtraBoundaryBefore_cons {p : ℕ} (plain : isExtraBoundary c = false) :
    NoExtraBoundaryBefore (c :: rest) (p + 1) ↔ NoExtraBoundaryBefore rest p := by
  cases p with
  | zero => simp [NoExtraBoundaryBefore]
  | succ p => simp [NoExtraBoundaryBefore, plain]

theorem offsetAmong_position_iff {p : ℕ} (inside : p < s.length) :
    offsetAmong (splitLinesKeep s) ((astLine s p).1 - 1) (utf8Length (astLine s p).2) =
        some p ↔ NoExtraBoundaryBefore s p := by
  induction s generalizing p with
  | nil => exact absurd inside (Nat.not_lt_zero p)
  | cons c rest induction =>
    cases p with
    | zero =>
      refine iff_of_true ?_ (by simp [NoExtraBoundaryBefore])
      obtain ⟨line, lines, isSplit⟩ := exists_splitLinesKeep (cons_ne_nil c rest)
      rw [isSplit]
      simp [astLine, offsetAmong_zero, utf8Length, charsWithin_zero]
    | succ p =>
      have insideRest : p < rest.length := Nat.lt_of_succ_lt_succ inside
      have positive := one_le_astLine rest p
      obtain ⟨lineno, isLine⟩ : ∃ lineno, (astLine rest p).1 = lineno + 1 :=
        ⟨(astLine rest p).1 - 1, by omega⟩
      have previous := induction insideRest
      rw [isLine] at previous
      cases ends : endsAstLine c rest with
      | true =>
        have bothEnd := (endsLine_iff c rest).2 (Or.inl ends)
        rw [noExtraBoundaryBefore_cons (isExtraBoundary_of_endsAstLine ends), ← previous,
          astLine_ends ends, isLine, Nat.add_sub_cancel,
          splitLinesKeep_cons_ends bothEnd, offsetAmong_cons_succ]
        simp [map_eq_some_iff, Nat.add_comm]
      | false =>
        cases extra : isExtraBoundary c with
        | false =>
          have inner : endsLine c rest = false := by
            have both := endsLine_iff c rest
            simp_all
          obtain ⟨line, lines, isSplit⟩ := exists_splitLinesKeep
            (ne_nil_of_length_pos (Nat.zero_lt_of_lt insideRest))
          rw [noExtraBoundaryBefore_cons extra, ← previous, isSplit,
            splitLinesKeep_cons_inner inner isSplit]
          cases lineno with
          | zero =>
            rw [astLine_first ends isLine]
            have width : utf8Length (c :: (astLine rest p).2) =
                utf8Width c + utf8Length (astLine rest p).2 := by
              simp [utf8Length]
            rw [width, Nat.sub_self, offsetAmong_extend_zero]
            simp [map_eq_some_iff]
          | succ lineno =>
            rw [astLine_later ends (by omega), isLine, Nat.add_sub_cancel, offsetAmong_extend_succ]
            simp [map_eq_some_iff]
        | true =>
          have bothEnd := (endsLine_iff c rest).2 (Or.inr extra)
          have onlyFirst : NoExtraBoundaryBefore (c :: rest) (p + 1) ↔ p = 0 := by
            cases p with
            | zero => simp [NoExtraBoundaryBefore]
            | succ p => simp [NoExtraBoundaryBefore, extra]
          rw [onlyFirst, splitLinesKeep_cons_ends bothEnd]
          cases lineno with
          | zero =>
            -- The line of the tree goes on, that of `splitlines` is `c` alone.
            have width : utf8Length (c :: (astLine rest p).2) =
                utf8Width c + utf8Length (astLine rest p).2 := by
              simp [utf8Length]
            have whole := length_astLine_first (Nat.le_of_lt insideRest) isLine
            rw [astLine_first ends isLine, width, Nat.sub_self,
              offsetAmong_extend_zero, offsetAmong_zero]
            constructor
            · intro found
              obtain ⟨inRest, foundRest, sum⟩ := map_eq_some_iff.1 found
              split_ifs at foundRest
              have none := Option.some.inj foundRest
              rw [charsWithin] at none
              omega
            · rintro rfl
              rw [eq_nil_of_length_eq_zero whole]
              rfl
          | succ lineno =>
            rw [astLine_later ends (by omega), isLine, Nat.add_sub_cancel, offsetAmong_cons_succ]
            refine iff_of_false ?_ ?_
            · intro found
              obtain ⟨inRest, foundRest, sum⟩ := map_eq_some_iff.1 found
              have bound := offsetAmong_before (p := p) (by omega) foundRest
              rw [length_singleton] at sum
              have atStart : (astLine rest p).2 = [] :=
                eq_nil_of_length_eq_zero (by omega)
              have less := bound.2 (by rw [atStart]; rfl)
              omega
            · rintro rfl
              cases rest with
              | nil | cons d rest => simp [astLine] at isLine

/-- **Places.** The place that `ast` reports of a position is mapped back to it
exactly when no character that ends a line for `str.splitlines` only stands
before the position, but for one directly in front of it. -/
theorem astSourceOffset_position_iff (src : Text) (p : Fin src.length) :
    astSourceOffset src (astPosition src p).1 (astPosition src p).2 = some p.val ↔
      NoExtraBoundaryBefore src p := by
  have positive := one_le_astLine src p
  obtain ⟨lineno, isLine⟩ : ∃ lineno, (astLine src p).1 = lineno + 1 :=
    ⟨(astLine src p).1 - 1, by omega⟩
  have placed := offsetAmong_position_iff p.isLt
  rw [isLine, Nat.add_sub_cancel] at placed
  rw [← placed, astPosition, isLine, astSourceOffset_eq]

/-- A form feed in a string: the call behind it is not found in the source. -/
theorem formFeed_moves_place : ¬ ∀ p : Fin "s='\u000c';xl('A1')".toList.length,
      astSourceOffset "s='\u000c';xl('A1')".toList (astPosition "s='\u000c';xl('A1')".toList p).1
        (astPosition "s='\u000c';xl('A1')".toList p).2 = some p.val := by
  intro placed
  exact absurd (placed ⟨6, by decide⟩) (by decide)

end WriterAgent.Calc.ExcelPyConvert
