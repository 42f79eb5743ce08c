import Mathlib.Data.Int.Log
import Mathlib.Data.Rat.Floor
import Mathlib.Tactic.Linarith
import Mathlib.Tactic.NormNum
import Mathlib.Tactic.Positivity

/-!
# Double-precision numbers

Values are rationals, infinities and not-a-number; the two zeros are one
value.  A rational is rounded to the nearest multiple of the unit in the last
place, ties to even.
-/

namespace WriterAgent

def roundHalfEven (q : ℚ) : ℤ :=
  let below := ⌊q⌋
  let rest := q - below
  if rest < 1 / 2 then below
  else if 1 / 2 < rest then below + 1
  else if below % 2 = 0 then below else below + 1

theorem roundHalfEven_intCast (n : ℤ) : roundHalfEven (n : ℚ) = n := by
  simp [roundHalfEven]

inductive Binary64 where
  | nan
  | infinite (negative : Bool)
  | finite (value : ℚ)
deriving DecidableEq

namespace Binary64

/-- The exponent of the unit in the last place: 53 significant bits, and none
below the smallest subnormal number. -/
def ulpExponent (q : ℚ) : ℤ := max (Int.log 2 |q| - 52) (-1074)

def roundToUlp (q : ℚ) : ℚ :=
  roundHalfEven (q / 2 ^ ulpExponent q) * 2 ^ ulpExponent q

def ofRat (q : ℚ) : Binary64 :=
  if 2 ^ 1024 ≤ |roundToUlp q| then .infinite (decide (q < 0))
  else .finite (roundToUlp q)

def lt : Binary64 → Binary64 → Bool
  | .nan, _ => false
  | _, .nan => false
  | .infinite true, other => decide (other ≠ .infinite true)
  | .infinite false, _ => false
  | .finite _, .infinite negative => !negative
  | .finite x, .finite y => decide (x < y)

def le (x y : Binary64) : Bool :=
  match x, y with
  | .nan, _ => false
  | _, .nan => false
  | x, y => !lt y x

def isNan : Binary64 → Bool
  | .nan => true
  | _ => false

/-- Truncation to an integer; `none` for not-a-number and infinities. -/
def truncate : Binary64 → Option ℤ
  | .finite q => some (if 0 ≤ q then ⌊q⌋ else ⌈q⌉)
  | _ => none

theorem truncate_intCast (n : ℤ) : truncate (.finite n) = some n := by
  simp [truncate]

theorem roundToUlp_of_multiple {q : ℚ} {n : ℤ}
    (multiple : q = n * 2 ^ ulpExponent q) : roundToUlp q = q := by
  have positive : (2 : ℚ) ^ ulpExponent q ≠ 0 := zpow_ne_zero _ two_ne_zero
  have quotient : q / 2 ^ ulpExponent q = n := by
    rw [div_eq_iff positive]
    exact multiple
  rw [roundToUlp, quotient, roundHalfEven_intCast]
  exact multiple.symm

theorem exists_multiple_of_abs_le {n : ℤ} (bound : |n| ≤ 2 ^ 53) :
    ∃ m : ℤ, (n : ℚ) = m * 2 ^ ulpExponent n := by
  have log : Int.log 2 |(n : ℚ)| = Nat.log 2 n.natAbs := by
    have size : |(n : ℚ)| = (n.natAbs : ℚ) := by rw [Nat.cast_natAbs, Int.cast_abs]
    rw [size]
    exact Int.log_natCast 2 n.natAbs
  have unit : ulpExponent (n : ℚ) = (Nat.log 2 n.natAbs : ℤ) - 52 := by
    rw [ulpExponent]
    omega
  have size : n.natAbs ≤ 2 ^ 53 := by
    zify
    exact bound
  by_cases fits : Nat.log 2 n.natAbs ≤ 52
  · refine ⟨n * 2 ^ (52 - Nat.log 2 n.natAbs), ?_⟩
    rw [unit, Int.cast_mul, Int.cast_pow, Int.cast_ofNat, ← zpow_natCast,
      mul_assoc, ← zpow_add₀ two_ne_zero]
    have exponent : ((52 - Nat.log 2 n.natAbs : ℕ) : ℤ) +
        ((Nat.log 2 n.natAbs : ℤ) - 52) = 0 := by omega
    rw [exponent, zpow_zero, mul_one]
  · have atLeast : 2 ^ 53 ≤ n.natAbs := by
      apply Nat.pow_le_of_le_log
      · rintro zero
        simp [zero] at fits
      · omega
    have exact : n.natAbs = 2 ^ 53 := le_antisymm size atLeast
    have exponent : Nat.log 2 n.natAbs = 53 := by
      rw [exact]
      exact Nat.log_pow one_lt_two 53
    rw [unit, exponent]
    rcases Int.natAbs_eq n with positive | negative
    · refine ⟨2 ^ 52, ?_⟩
      rw [positive, exact]
      norm_num
    · refine ⟨-2 ^ 52, ?_⟩
      rw [negative, exact]
      norm_num

theorem ofRat_intCast {n : ℤ} (bound : |n| ≤ 2 ^ 53) : ofRat n = .finite n := by
  obtain ⟨m, multiple⟩ := exists_multiple_of_abs_le bound
  have small : |(n : ℚ)| < 2 ^ 1024 := by
    have cast : |(n : ℚ)| ≤ 2 ^ 53 := by exact_mod_cast bound
    exact cast.trans_lt (pow_lt_pow_right₀ one_lt_two (by decide))
  rw [ofRat, roundToUlp_of_multiple multiple, if_neg (not_le.mpr small)]

end Binary64

end WriterAgent
