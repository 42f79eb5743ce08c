import WriterAgent.Foundations.Text

/-!
# Decimal digits

The class `\d` of a text pattern holds the characters of category `Nd` of every
script.  They come in runs of ten; the table lists the zeros.
-/

namespace PyText

def decimalZeros : List Nat :=
  [0x30, 0x660, 0x6f0, 0x7c0, 0x966, 0x9e6, 0xa66, 0xae6, 0xb66, 0xbe6, 0xc66, 0xce6, 0xd66, 0xde6,
    0xe50, 0xed0, 0xf20, 0x1040, 0x1090, 0x17e0, 0x1810, 0x1946, 0x19d0, 0x1a80, 0x1a90, 0x1b50,
    0x1bb0, 0x1c40, 0x1c50, 0xa620, 0xa8d0, 0xa900, 0xa9d0, 0xa9f0, 0xaa50, 0xabf0, 0xff10, 0x104a0,
    0x10d30, 0x11066, 0x110f0, 0x11136, 0x111d0, 0x112f0, 0x11450, 0x114d0, 0x11650, 0x116c0,
    0x11730, 0x118e0, 0x11950, 0x11c50, 0x11d50, 0x11da0, 0x16a60, 0x16ac0, 0x16b50, 0x1d7ce,
    0x1d7d8, 0x1d7e2, 0x1d7ec, 0x1d7f6, 0x1e140, 0x1e2f0, 0x1e950, 0x1fbf0]

/-- A character of `\d`. -/
def isDecimal (c : Char) : Bool :=
  decimalZeros.any fun base => base ≤ c.toNat && c.toNat ≤ base + 9

theorem isDecimal_cases {c : Char} (decimal : isDecimal c = true) :
    ∃ base ∈ decimalZeros, ∃ value < 10, c.toNat = base + value := by
  obtain ⟨base, member, bounds⟩ := List.any_eq_true.mp decimal
  simp only [Bool.and_eq_true, decide_eq_true_eq] at bounds
  exact ⟨base, member, c.toNat - base, by omega, by omega⟩

theorem isDecimal_induction {motive : Nat → Bool} (all : (decimalZeros.all fun base =>
      (List.range 10).all fun value => motive (base + value)) = true)
    {c : Char} (decimal : isDecimal c = true) : motive c.toNat = true := by
  obtain ⟨base, member, value, small, code⟩ := isDecimal_cases decimal
  have row := List.all_eq_true.mp all base member
  rw [code]
  exact List.all_eq_true.mp row value (List.mem_range.mpr small)

theorem isSpace_of_isDecimal {c : Char} (decimal : isDecimal c = true) : isSpace c = false := by
  have visible : (!isSpace c) = true := @isDecimal_induction
    (fun n => !((9 ≤ n && n ≤ 13) || (28 ≤ n && n ≤ 32) || n == 0x85 ||
      n == 0xA0 || n == 0x1680 || (0x2000 ≤ n && n ≤ 0x200A) || n == 0x2028 ||
      n == 0x2029 || n == 0x202F || n == 0x205F || n == 0x3000))
    (by decide +kernel) c decimal
  simpa using visible

theorem isAsciiDigit_of_isDecimal {c : Char} (decimal : isDecimal c = true)
    (ascii : c.toNat < 128) : isAsciiDigit c = true := by
  have bounds := @isDecimal_induction
    (fun n => 128 ≤ n || (48 ≤ n && n ≤ 57)) (by decide +kernel) c decimal
  have notWide : ¬ 128 ≤ c.toNat := by omega
  simp only [Bool.or_eq_true, decide_eq_true_eq, notWide, false_or, Bool.and_eq_true] at bounds
  exact isAsciiDigit_iff.mpr bounds

def decimalValue (c : Char) : Nat :=
  match decimalZeros.find? fun base => base ≤ c.toNat && c.toNat ≤ base + 9 with
  | some base => c.toNat - base
  | none => 0

/-- What `int` reads from a run of decimal digits. -/
def decimalsValue (s : Text) : Nat :=
  s.foldl (fun value c => 10 * value + decimalValue c) 0

end PyText
