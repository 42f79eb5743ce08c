import WriterAgent.Foundations.Binary64
import WriterAgent.Foundations.PythonLexer

/-!
# How Python prints a number

`str(int)` and `repr(float)` for values that are not negative: the fewest
significant digits that read back as the same double, and of these the
nearest decimal.
-/

namespace WriterAgent

open PyText PyGrammar List

/-- `str(n)`. -/
def natText (n : Nat) : Text := Nat.toDigits 10 n

namespace Binary64

/-- The decimals with the given number of significant digits next to a
positive rational, the nearer one first: digits and a power of ten. -/
def nearDecimals (q : ℚ) (digits : Nat) : List (Nat × ℤ) :=
  let exponent := Int.log 10 q - (digits - 1)
  let below := ⌊q / 10 ^ exponent⌋.toNat
  if roundHalfEven (q / 10 ^ exponent) = below then
    [(below, exponent), (below + 1, exponent)]
  else [(below + 1, exponent), (below, exponent)]

/-- Seventeen digits are always enough, so the default is never taken. -/
def shortestDecimal (q : ℚ) : Nat × ℤ :=
  (((List.range 17).flatMap fun more => nearDecimals q (more + 1)).find?
    fun decimal => ofRat (decimal.1 * 10 ^ decimal.2) = .finite q).getD (1, 0)

/-- The digits without zeros at the end, and the place of the point. -/
def shortestDigits (q : ℚ) : Text × ℤ :=
  let decimal := shortestDecimal q
  let digits := natText decimal.1
  (digits.rdropWhile (· == '0'), digits.length + decimal.2)

def zeros (n : Nat) : Text := List.replicate n '0'

/-- `repr` of a finite double that is not negative. -/
def repr (q : ℚ) : Text :=
  if q = 0 then "0.0".toList
  else
    let (digits, point) := shortestDigits q
    if -4 < point ∧ point ≤ 16 then
      if point ≤ 0 then "0.".toList ++ zeros (-point).toNat ++ digits
      else if point.toNat < digits.length then
        digits.take point.toNat ++ '.' :: digits.drop point.toNat
      else digits ++ zeros (point.toNat - digits.length) ++ ".0".toList
    else
      let power := point - 1
      let powerDigits := natText power.natAbs
      let padded := zeros (2 - powerDigits.length) ++ powerDigits
      digits.take 1 ++ (if digits.length = 1 then [] else '.' :: digits.drop 1) ++
        'e' :: (if power < 0 then '-' else '+') :: padded

example : repr (1 / 2) = "0.5".toList := by decide +kernel

end Binary64

variable {n : Nat} {c : Char}

theorem natText_ne_nil (n : Nat) : natText n ≠ [] :=
  Nat.toDigits_ne_nil

theorem isAsciiDigit_of_mem_natText (member : c ∈ natText n) : isAsciiDigit c = true := by
  have digit := Nat.isDigit_of_mem_toDigits (by decide) (by decide) member
  simpa [isAsciiDigit, Char.isDigit, Char.le_def, UInt32.le_iff_toNat_le] using digit

theorem exists_nonzero_digit (positive : n ≠ 0) : ∃ c ∈ natText n, c ≠ '0' := by
  by_contra none
  simp only [not_exists, not_and, not_not] at none
  have value : ∀ digits : Text, (∀ c ∈ digits, c = '0') → Nat.ofDigitChars 10 digits 0 = 0 := by
    intro digits
    induction digits with
    | nil => exact fun _ => rfl
    | cons c rest ih =>
      intro all
      obtain rfl := all c mem_cons_self
      exact ih fun d member => all d (mem_cons_of_mem _ member)
  apply positive
  rw [← value (natText n) none]
  exact (Nat.ofDigitChars_toDigits (by decide) (by decide)).symm

theorem rdropWhile_ne_nil {digits : Text} (some : ∃ c ∈ digits, c ≠ '0') :
    digits.rdropWhile (· == '0') ≠ [] := by
  rw [ne_eq, rdropWhile_eq_nil_iff]
  intro all
  obtain ⟨c, member, nonzero⟩ := some
  exact nonzero (by simpa using all c member)

namespace Binary64

theorem ofRat_zero : ofRat 0 = .finite 0 := by
  have exact := @ofRat_intCast 0 (by decide)
  simpa using exact

theorem shortestDecimal_ne_zero {q : ℚ} (positive : q ≠ 0) : (shortestDecimal q).1 ≠ 0 := by
  unfold shortestDecimal
  generalize search : List.find? _ _ = found
  cases found with
  | none => exact one_ne_zero
  | some decimal =>
    intro zero
    have reads := List.find?_some search
    simp only [decide_eq_true_eq] at reads
    rw [Option.getD_some] at zero
    rw [zero, Nat.cast_zero, zero_mul, ofRat_zero] at reads
    exact positive (Binary64.finite.inj reads).symm

theorem shortestDigits_ne_nil {q : ℚ} (positive : q ≠ 0) : (shortestDigits q).1 ≠ [] :=
  rdropWhile_ne_nil (exists_nonzero_digit (shortestDecimal_ne_zero positive))

theorem isAsciiDigit_of_mem_shortestDigits {q : ℚ} {c : Char}
    (member : c ∈ (shortestDigits q).1) : isAsciiDigit c = true :=
  isAsciiDigit_of_mem_natText (( rdropWhile_prefix _ _).mem member)

theorem isAsciiDigit_of_mem_zeros (member : c ∈ zeros n) : isAsciiDigit c = true := by
  rw [eq_of_mem_replicate member]
  rfl

theorem exists_numberText_repr (q : ℚ) : ∃ number : NumberText, number.text = repr q := by
  have digitsOf : ∀ {left right : Text}, (∀ c ∈ left, isAsciiDigit c = true) →
        (∀ c ∈ right, isAsciiDigit c = true) → ∀ c ∈ left ++ right, isAsciiDigit c = true := by
    intro left right inLeft inRight c member
    rcases mem_append.mp member with first | second
    · exact inLeft c first
    · exact inRight c second
  have zero : ∀ c ∈ "0".toList, isAsciiDigit c = true := by decide
  unfold repr
  split
  · exact ⟨⟨"0".toList, some "0".toList, none, ⟨by decide, zero⟩,
      by rintro digits ⟨⟩; exact zero, by rintro _ ⟨⟩⟩, rfl⟩
  · rename_i positive
    have nonempty := shortestDigits_ne_nil positive
    have digits := @isAsciiDigit_of_mem_shortestDigits q
    generalize shortestDigits q = shortest at nonempty digits
    obtain ⟨text, point⟩ := shortest
    simp only at nonempty digits ⊢
    split
    · split
      · refine ⟨⟨"0".toList, some (zeros (-point).toNat ++ text), none,
          ⟨by decide, zero⟩, ?_, by rintro _ ⟨⟩⟩, ?_⟩
        · rintro fraction ⟨⟩
          exact digitsOf (fun _ => isAsciiDigit_of_mem_zeros) (fun _ => digits)
        · simp [NumberText.text, NumberText.mantissa, NumberText.exponentText]
      · rename_i positivePoint
        split
        · refine ⟨⟨text.take point.toNat, some (text.drop point.toNat),
            none, ⟨?_, ?_⟩, ?_, by rintro _ ⟨⟩⟩, ?_⟩
          · rw [ne_eq, take_eq_nil_iff]
            rintro (none | none)
            · omega
            · exact nonempty none
          · exact fun c member => digits (mem_of_mem_take member)
          · rintro fraction ⟨⟩
            exact fun c member => digits (mem_of_mem_drop member)
          · simp [NumberText.text, NumberText.mantissa, NumberText.exponentText]
        · refine ⟨⟨text ++ zeros (point.toNat - text.length),
            some "0".toList, none, ⟨?_, ?_⟩, ?_, by rintro _ ⟨⟩⟩, ?_⟩
          · rw [ne_eq, append_eq_nil_iff]
            exact fun both => nonempty both.1
          · exact digitsOf (fun _ => digits) (fun _ => isAsciiDigit_of_mem_zeros)
          · rintro fraction ⟨⟩
            exact zero
          · simp [NumberText.text, NumberText.mantissa, NumberText.exponentText]
    · -- The mantissa is one digit, with a fraction when there are more.
      have power : ∀ n : Nat, zeros (2 - (natText n).length) ++ natText n ≠
          [] ∧ ∀ c ∈ zeros (2 - (natText n).length) ++ natText n, isAsciiDigit c = true := by
        intro n
        constructor
        · rw [ne_eq, append_eq_nil_iff]
          exact fun both => natText_ne_nil n both.2
        · exact digitsOf (fun _ => isAsciiDigit_of_mem_zeros) (fun _ => isAsciiDigit_of_mem_natText)
      have sign : ∀ below : Prop, [Decidable below] → (if below then '-' else '+') = '+' ∨
            (if below then '-' else '+') = '-' := by
        intro below decided
        split
        · exact Or.inr rfl
        · exact Or.inl rfl
      have first : text.take 1 ≠ [] ∧ ∀ c ∈ text.take 1, isAsciiDigit c = true := by
        refine ⟨?_, fun c member => digits (mem_of_mem_take member)⟩
        rw [ne_eq, take_eq_nil_iff]
        rintro (none | none)
        · exact one_ne_zero none
        · exact nonempty none
      -- The exponent of either form.
      let exponent : Char × Text := (if point - 1 < 0 then '-' else '+',
        zeros (2 - (natText (point - 1).natAbs).length) ++ natText (point - 1).natAbs)
      have exponentDigits : ∀ pair ∈ some exponent, (pair.1 = '+' ∨ pair.1 = '-') ∧ pair.2 ≠ [] ∧
            ∀ c ∈ pair.2, isAsciiDigit c = true := by
        rintro pair ⟨⟩
        exact ⟨sign _, power _⟩
      by_cases single : text.length = 1
      · refine ⟨⟨text.take 1, none, some exponent, first, by rintro _ ⟨⟩, exponentDigits⟩, ?_⟩
        rw [if_pos single]
        simp [NumberText.text, NumberText.mantissa, NumberText.exponentText, exponent]
      · refine ⟨⟨text.take 1, some (text.drop 1), some exponent, first, ?_, exponentDigits⟩, ?_⟩
        · rintro fraction ⟨⟩
          exact fun c member => digits (mem_of_mem_drop member)
        · rw [if_neg single]
          simp [NumberText.text, NumberText.mantissa, NumberText.exponentText, exponent]

end Binary64

theorem exists_numberText_natText (n : Nat) : ∃ number : NumberText, number.text = natText n := by
  refine ⟨⟨natText n, none, none, ⟨natText_ne_nil n, ?_⟩, nofun, nofun⟩, ?_⟩
  · exact fun c => isAsciiDigit_of_mem_natText
  · simp [NumberText.text, NumberText.mantissa, NumberText.exponentText]

end WriterAgent
