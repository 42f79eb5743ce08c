import WriterAgent.Foundations.DecimalDigit
import WriterAgent.Foundations.FloatRepr

/-!
# How Python reads a float

`float(str)` takes decimal numbers with digits of any script and underscores
between them, and the words for infinity and not-a-number.  What `repr` prints
is read back as the same double, since seventeen digits are enough.
-/

namespace WriterAgent

open PyText PyGrammar List

namespace Binary64

/-- The values a double can have. -/
def IsDouble : Binary64 → Prop
  | .finite q => ofRat q = .finite q
  | .infinite _ => True
  | .nan => True

theorem roundHalfEven_eq_of_near {x : ℚ} {n : ℤ} (near : |x - n| < 1 / 2) :
    roundHalfEven x = n := by
  have bounds := abs_lt.1 near
  have below := Int.floor_le x
  have above := Int.lt_floor_add_one x
  rw [roundHalfEven]
  rcases lt_trichotomy ⌊x⌋ n with less | same | more
  · have next : ⌊x⌋ + 1 = n := by
      have upper : (n : ℚ) < ⌊x⌋ + 2 := by linarith
      have : n < ⌊x⌋ + 2 := by exact_mod_cast upper
      omega
    have cast : (n : ℚ) = ⌊x⌋ + 1 := by rw [← next]; push_cast; ring
    rw [if_neg (by linarith), if_pos (by linarith), next]
  · rw [← same] at bounds
    rw [if_pos (by linarith [bounds.2]), same]
  · have upper : (n : ℚ) + 1 ≤ ⌊x⌋ := by exact_mod_cast more
    linarith

theorem roundHalfEven_cases (x : ℚ) : roundHalfEven x = ⌊x⌋ ∨ roundHalfEven x = ⌊x⌋ + 1 := by
  rw [roundHalfEven]
  split_ifs
  · exact Or.inl rfl
  · exact Or.inr rfl
  · exact Or.inl rfl
  · exact Or.inr rfl

theorem abs_sub_roundHalfEven_le (x : ℚ) : |x - roundHalfEven x| ≤ 1 / 2 := by
  have below := Int.floor_le x
  have above := Int.lt_floor_add_one x
  rw [roundHalfEven]
  split_ifs
  · rw [abs_le]
    constructor <;> linarith
  · push_cast
    rw [abs_le]
    constructor <;> linarith
  · rw [abs_le]
    constructor <;> linarith
  · push_cast
    rw [abs_le]
    constructor <;> linarith

theorem roundToUlp_eq_of_near {d q : ℚ} {n : ℤ} (multiple : q = n * 2 ^ ulpExponent d)
    (near : |d - q| < 2 ^ ulpExponent d / 2) : roundToUlp d = q := by
  have positive : (0 : ℚ) < 2 ^ ulpExponent d := zpow_pos two_pos _
  have close : |d / 2 ^ ulpExponent d - n| < 1 / 2 := by
    have quotient : d / 2 ^ ulpExponent d - n = (d - q) / 2 ^ ulpExponent d := by
      rw [multiple, sub_div, mul_div_cancel_right₀ _ positive.ne']
    rw [quotient, abs_div, abs_of_pos positive, div_lt_iff₀ positive]
    linarith
  rw [roundToUlp, roundHalfEven_eq_of_near close]
  exact multiple.symm

theorem lt_unit {d : ℚ} (positive : 0 < d) : d / 2 ^ 53 < 2 ^ ulpExponent d := by
  have log : d < 2 ^ (Int.log 2 |d| + 1) := by
    have lt := Int.lt_zpow_succ_log_self one_lt_two |d|
    rwa [abs_of_pos positive] at lt ⊢
  have exponent : Int.log 2 |d| - 52 ≤ ulpExponent d := le_max_left _ _
  calc d / 2 ^ 53 < 2 ^ (Int.log 2 |d| + 1) / 2 ^ 53 := by
        exact div_lt_div_of_pos_right log (by positivity)
    _ = 2 ^ (Int.log 2 |d| - 52) := by
        rw [div_eq_iff (by positivity), ← zpow_natCast, ← zpow_add₀ two_ne_zero]
        congr 1
        ring
    _ ≤ 2 ^ ulpExponent d := zpow_le_zpow_right₀ one_le_two exponent

theorem exists_multiple_of_near {d q : ℚ} {m : ℤ} (positive : 0 < q)
    (multiple : q = m * 2 ^ ulpExponent q) (near : |d - q| ≤ q / (2 * 10 ^ 16)) :
    ∃ n : ℤ, q = n * 2 ^ ulpExponent d := by
  by_cases finer : ulpExponent d ≤ ulpExponent q
  · refine ⟨m * 2 ^ (ulpExponent q - ulpExponent d).toNat, ?_⟩
    have exponent : ((ulpExponent q - ulpExponent d).toNat : ℤ) + ulpExponent d =
        ulpExponent q := by omega
    rw [Int.cast_mul, Int.cast_pow, Int.cast_ofNat, ← zpow_natCast, mul_assoc,
      ← zpow_add₀ two_ne_zero, exponent]
    exact multiple
  · -- A coarser unit would put a power of two between `q` and `d`.
    have bounds := abs_le.1 near
    have positiveD : 0 < d := by linarith
    set L := Int.log 2 |q| with isLog
    have logD : ulpExponent d = Int.log 2 |d| - 52 := by
      have coarser := not_le.1 finer
      rw [ulpExponent, ulpExponent] at coarser
      rw [ulpExponent]
      omega
    have climbs : L + 1 ≤ Int.log 2 |d| := by
      have coarser := not_le.1 finer
      rw [ulpExponent] at coarser
      omega
    have unitQ : (0 : ℚ) < 2 ^ ulpExponent q := zpow_pos two_pos _
    have onePart : (1 : ℤ) ≤ m := by
      have : (0 : ℚ) < m := by
        rw [multiple] at positive
        exact (mul_pos_iff_of_pos_right unitQ).1 positive
      exact_mod_cast this
    have atLeast : (2 : ℚ) ^ ulpExponent q ≤ q := by
      have one : (1 : ℚ) ≤ m := by exact_mod_cast onePart
      nlinarith
    have unitLog : ulpExponent q ≤ L := by
      rw [isLog, abs_of_pos positive]
      exact (Int.zpow_le_iff_le_log one_lt_two positive).1 atLeast
    have crossing : (2 : ℚ) ^ (L + 1) ≤ d := by
      have log := (Int.zpow_le_iff_le_log one_lt_two (abs_pos.2 positiveD.ne')).2 climbs
      rwa [abs_of_pos positiveD] at log
    have below : q < 2 ^ (L + 1) := by
      calc q = |q| := (abs_of_pos positive).symm
        _ < 2 ^ (L + 1) := Int.lt_zpow_succ_log_self one_lt_two |q|
    have power : (2 : ℚ) ^ (L + 1) =
        ((2 ^ (L + 1 - ulpExponent q).toNat : ℤ) : ℚ) * 2 ^ ulpExponent q := by
      rw [Int.cast_pow, Int.cast_ofNat, ← zpow_natCast, ← zpow_add₀ two_ne_zero]
      congr 1
      omega
    have gap : q + 2 ^ ulpExponent q ≤ 2 ^ (L + 1) := by
      have fewer : m < 2 ^ (L + 1 - ulpExponent q).toNat := by
        have scaled := lt_of_mul_lt_mul_right (multiple.symm.trans_lt (below.trans_eq power))
          unitQ.le
        exact_mod_cast scaled
      have next : ((m + 1 : ℤ) : ℚ) ≤ ((2 ^ (L + 1 - ulpExponent q).toNat : ℤ) : ℚ) := by
        exact_mod_cast fewer
      calc q + 2 ^ ulpExponent q = ((m + 1 : ℤ) : ℚ) * 2 ^ ulpExponent q := by
            push_cast
            linarith
        _ ≤ 2 ^ (L + 1) := by
            rw [power]
            exact mul_le_mul_of_nonneg_right next unitQ.le
    have part := lt_unit positive
    linarith

theorem roundHalfEven_neg (x : ℚ) : roundHalfEven (-x) = -roundHalfEven x := by
  have below := Int.floor_le x
  have above := Int.lt_floor_add_one x
  rcases eq_or_lt_of_le below with whole | part
  · rw [← whole, ← Int.cast_neg, roundHalfEven_intCast, roundHalfEven_intCast]
  · have floor : ⌊-x⌋ = -⌊x⌋ - 1 := by
      rw [Int.floor_eq_iff]
      push_cast
      constructor <;> linarith
    rw [roundHalfEven, roundHalfEven, floor]
    push_cast
    rcases lt_trichotomy (x - ⌊x⌋) (1 / 2) with less | half | more
    · rw [if_neg (by linarith), if_pos (by linarith), if_pos less]
      ring
    · by_cases even : ⌊x⌋ % 2 = 0
      · rw [if_neg (by linarith), if_neg (by linarith), if_neg (by omega),
          if_neg (by linarith), if_neg (by linarith), if_pos even]
        ring
      · rw [if_neg (by linarith), if_neg (by linarith), if_pos (by omega),
          if_neg (by linarith), if_neg (by linarith), if_neg even]
        ring
    · rw [if_pos (by linarith), if_neg (by linarith), if_pos more]
      ring

theorem ofRat_neg {q r : ℚ} (rounds : ofRat q = .finite r) : ofRat (-q) = .finite (-r) := by
  have unit : ulpExponent (-q) = ulpExponent q := by rw [ulpExponent, ulpExponent, abs_neg]
  have negated : roundToUlp (-q) = -roundToUlp q := by
    rw [roundToUlp, roundToUlp, unit, neg_div, roundHalfEven_neg]
    push_cast
    ring
  rw [ofRat] at rounds ⊢
  split_ifs at rounds with small
  rw [negated, abs_neg, if_neg small, Binary64.finite.inj rounds]

theorem exists_multiple_of_ofRat {q r : ℚ} (rounds : ofRat q = .finite r) :
    r = roundToUlp q ∧ |r| < 2 ^ 1024 := by
  rw [ofRat] at rounds
  split_ifs at rounds with small
  obtain rfl := Binary64.finite.inj rounds
  exact ⟨rfl, not_le.1 small⟩

theorem ofRat_eq_of_near {d q : ℚ} (positive : 0 < q) (double : IsDouble (.finite q))
    (near : |d - q| ≤ q / (2 * 10 ^ 16)) : ofRat d = .finite q := by
  obtain ⟨isRounded, small⟩ := exists_multiple_of_ofRat double
  obtain ⟨n, multiple⟩ := exists_multiple_of_near positive isRounded near
  have bounds := abs_le.1 near
  have positiveD : 0 < d := by linarith
  have halfUnit : |d - q| < 2 ^ ulpExponent d / 2 := by
    have part := lt_unit positiveD
    have ratio : q / (2 * 10 ^ 16) < d / 2 ^ 53 / 2 := by linarith
    linarith
  have rounds := roundToUlp_eq_of_near multiple halfUnit
  rw [ofRat, rounds, if_neg (not_le.2 small)]

def nearestDecimal (q : ℚ) : ℚ :=
  roundHalfEven (q / 10 ^ (Int.log 10 q - 16)) * 10 ^ (Int.log 10 q - 16)

theorem nearestDecimal_near {q : ℚ} (positive : 0 < q) :
    |nearestDecimal q - q| ≤ q / (2 * 10 ^ 16) := by
  have unit : (0 : ℚ) < 10 ^ (Int.log 10 q - 16) := zpow_pos (by norm_num) _
  have log : (10 : ℚ) ^ Int.log 10 q ≤ q := Int.zpow_log_le_self (by norm_num) positive
  have part : (10 : ℚ) ^ (Int.log 10 q - 16) ≤ q / 10 ^ 16 := by
    rw [zpow_sub₀ (by norm_num)]
    exact div_le_div_of_nonneg_right log (by norm_num)
  have close := abs_sub_roundHalfEven_le (q / 10 ^ (Int.log 10 q - 16))
  have difference : nearestDecimal q - q =
      -((q / 10 ^ (Int.log 10 q - 16) - roundHalfEven (q / 10 ^ (Int.log 10 q - 16))) *
        10 ^ (Int.log 10 q - 16)) := by
    rw [nearestDecimal, sub_mul, div_mul_cancel₀ _ unit.ne']
    ring
  rw [difference, abs_neg, abs_mul, abs_of_pos unit]
  calc _ ≤ 1 / 2 * (10 : ℚ) ^ (Int.log 10 q - 16) := mul_le_mul_of_nonneg_right close unit.le
    _ ≤ 1 / 2 * (q / 10 ^ 16) := mul_le_mul_of_nonneg_left part (by norm_num)
    _ = q / (2 * 10 ^ 16) := by ring

theorem nearestDecimal_mem {q : ℚ} (positive : 0 < q) :
    ∃ decimal ∈ nearDecimals q 17, (decimal.1 : ℚ) * 10 ^ decimal.2 = nearestDecimal q := by
  have exponent : Int.log 10 q - (((17 : ℕ) : ℤ) - 1) = Int.log 10 q - 16 := by norm_num
  have quotient : 0 ≤ q / 10 ^ (Int.log 10 q - 16) :=
    div_nonneg positive.le (zpow_pos (by norm_num) _).le
  rw [nearDecimals, exponent, nearestDecimal]
  generalize q / 10 ^ (Int.log 10 q - 16) = x at quotient
  have floor : ((⌊x⌋.toNat : ℕ) : ℤ) = ⌊x⌋ := Int.toNat_of_nonneg (Int.floor_nonneg.2 quotient)
  have cast : ((⌊x⌋.toNat : ℕ) : ℚ) = (⌊x⌋ : ℚ) := by exact_mod_cast congrArg Int.cast floor
  rcases roundHalfEven_cases x with down | up
  · refine ⟨(⌊x⌋.toNat, Int.log 10 q - 16), ?_, ?_⟩
    · rw [down, floor, if_pos rfl]
      exact mem_cons_self
    · rw [down, cast]
  · refine ⟨(⌊x⌋.toNat + 1, Int.log 10 q - 16), ?_, ?_⟩
    · rw [if_neg (by omega)]
      exact mem_cons_self
    · rw [up]
      push_cast
      rw [cast]

theorem ofRat_shortestDecimal {q : ℚ} (positive : 0 < q) (double : IsDouble (.finite q)) :
    ofRat ((shortestDecimal q).1 * 10 ^ (shortestDecimal q).2) = .finite q := by
  obtain ⟨decimal, member, isNearest⟩ := nearestDecimal_mem positive
  have reads : ofRat (decimal.1 * 10 ^ decimal.2) = .finite q := by
    rw [isNearest]
    exact ofRat_eq_of_near positive double (nearestDecimal_near positive)
  rw [shortestDecimal]
  generalize search : List.find? _ _ = found
  cases found with
  | none =>
    have none := List.find?_eq_none.1 search decimal
      (mem_flatMap.2 ⟨16, mem_range.2 (by decide), member⟩)
    exact absurd (decide_eq_true reads) none
  | some other =>
    have found := List.find?_some search
    rwa [decide_eq_true_eq] at found

end Binary64

/-- White space around a float; the four separators below it are none. -/
def isFloatSpace (c : Char) : Bool :=
  (9 ≤ c.toNat && c.toNat ≤ 13) || c == ' ' || (128 ≤ c.toNat && isSpace c)

/-- The digits after a digit, single underscores between them left out, and
what follows. -/
def digitRun : Text → Text × Text
  | [] => ([], [])
  | [c] => if isDecimal c then ([c], []) else ([], [c])
  | c :: d :: rest =>
    if isDecimal c then
      let (digits, after) := digitRun (d :: rest)
      (c :: digits, after)
    else if c = '_' && isDecimal d then
      let (digits, after) := digitRun rest
      (d :: digits, after)
    else ([], c :: d :: rest)

/-- `digitpart`: a run that begins with a digit. -/
def digitPart : Text → Option (Text × Text)
  | [] => none
  | c :: rest =>
    if isDecimal c then
      let (digits, after) := digitRun rest
      some (c :: digits, after)
    else none

def readSign : Text → Bool × Text
  | '-' :: rest => (true, rest)
  | '+' :: rest => (false, rest)
  | rest => (false, rest)

def readExponent : Text → Option ℤ
  | [] => some 0
  | c :: rest =>
    if c = 'e' ∨ c = 'E' then
      match digitPart (readSign rest).2 with
      | some (digits, []) =>
        some (if (readSign rest).1 then -(decimalsValue digits : ℤ)
          else decimalsValue digits)
      | _ => none
    else none

def readDecimal (s : Text) : Option ℚ :=
  let (whole, rest) := (digitPart s).getD ([], s)
  match rest with
  | '.' :: tail =>
    let (fraction, after) := (digitPart tail).getD ([], tail)
    if whole = [] ∧ fraction = [] then none
    else (readExponent after).map fun exponent : ℤ =>
      (decimalsValue (whole ++ fraction) : ℚ) * 10 ^ (exponent - fraction.length)
  | _ =>
    if whole = [] then none
    else (readExponent rest).map fun exponent : ℤ =>
      (decimalsValue whole : ℚ) * 10 ^ exponent

/-- `float(s)`; `none` where it raises `ValueError`. -/
def readFloat (s : Text) : Option Binary64 :=
  let (negative, body) := readSign (rstripBy isFloatSpace (lstripBy isFloatSpace s))
  let word := body.map Char.toLower
  if word = "nan".toList then some .nan
  else if word = "inf".toList ∨ word = "infinity".toList then some (.infinite negative)
  else (readDecimal body).map fun q => Binary64.ofRat (if negative then -q else q)

variable {digits rest : Text} {c : Char}

theorem isDecimal_of_isAsciiDigit (digit : isAsciiDigit c = true) :
    isDecimal c = true ∧ decimalValue c = c.toNat - '0'.toNat := by
  have bounds := isAsciiDigit_iff.mp digit
  have first : decimalZeros.find? (fun base => base ≤ c.toNat && c.toNat ≤ base + 9) =
      some 0x30 := by
    rw [decimalZeros]
    simp [bounds]
  constructor
  · rw [isDecimal, any_eq_true]
    exact ⟨0x30, by simp [decimalZeros], by simp [bounds]⟩
  · rw [decimalValue, first]
    rfl

/-- No digit run goes on here. -/
def EndsDigits (rest : Text) : Prop :=
  ∀ c, rest.head? = some c → isDecimal c = false ∧ c ≠ '_'

theorem digitRun_append (all : ∀ c ∈ digits, isDecimal c = true) (ends : EndsDigits rest) :
    digitRun (digits ++ rest) = (digits, rest) := by
  induction digits with
  | nil =>
    match rest with
    | [] => rfl
    | [c] => rw [nil_append, digitRun, if_neg (by simp [(ends c rfl).1])]
    | c :: d :: later =>
      have stop := ends c rfl
      rw [nil_append, digitRun, if_neg (by simp [stop.1]), if_neg (by simp [stop.2])]
  | cons c digits induction =>
    have here := all c mem_cons_self
    have later := induction fun d member => all d (mem_cons_of_mem _ member)
    rw [cons_append]
    cases next : digits ++ rest with
    | nil =>
      obtain ⟨rfl, rfl⟩ := append_eq_nil_iff.1 next
      rw [digitRun, if_pos here]
    | cons d more =>
      rw [next] at later
      rw [digitRun, if_pos here, later]

theorem digitPart_append (nonempty : digits ≠ []) (all : ∀ c ∈ digits, isDecimal c = true)
    (ends : EndsDigits rest) : digitPart (digits ++ rest) = some (digits, rest) := by
  cases digits with
  | nil => exact absurd rfl nonempty
  | cons c digits =>
    have run := digitRun_append (fun d member => all d (mem_cons_of_mem _ member)) ends
    rw [cons_append, digitPart, if_pos (all c mem_cons_self), run]

theorem digitPart_none (ends : EndsDigits rest) : digitPart rest = none := by
  cases rest with
  | nil => rfl
  | cons c later => rw [digitPart, if_neg (by simp [(ends c rfl).1])]

def numberPower (number : NumberText) : ℤ :=
  match number.exponent with
  | some (sign, digits) => if sign = '-' then -(decimalsValue digits : ℤ) else decimalsValue digits
  | none => 0

def numberValue (number : NumberText) : ℚ :=
  decimalsValue (number.whole ++ number.fraction.getD []) *
    10 ^ (numberPower number - (number.fraction.getD []).length)

theorem endsDigits_nil : EndsDigits [] := by
  intro c first
  cases first

theorem endsDigits_exponentText (number : NumberText) : EndsDigits number.exponentText := by
  intro c first
  rw [NumberText.exponentText] at first
  cases exponent : number.exponent with
  | none =>
    rw [exponent] at first
    cases first
  | some pair =>
    rw [exponent] at first
    obtain rfl : 'e' = c := Option.some.inj first
    decide

theorem endsDigits_point (rest : Text) : EndsDigits ('.' :: rest) := by
  intro c first
  obtain rfl : '.' = c := Option.some.inj first
  decide

theorem readExponent_exponentText (number : NumberText) :
    readExponent number.exponentText = some (numberPower number) := by
  rw [NumberText.exponentText, numberPower]
  cases exponent : number.exponent with
  | none => rfl
  | some pair =>
    obtain ⟨sign, digits⟩ := pair
    obtain ⟨isSign, nonempty, all⟩ := number.exponentDigits (sign, digits) exponent
    have whole : digitPart digits = some (digits, []) := by
      have part := digitPart_append nonempty
        (fun c member => (isDecimal_of_isAsciiDigit (all c member)).1) endsDigits_nil
      rwa [append_nil] at part
    rcases isSign with plus | minus
    · obtain rfl : sign = '+' := plus
      simp [readExponent, readSign, whole]
    · obtain rfl : sign = '-' := minus
      simp [readExponent, readSign, whole]

theorem readDecimal_text (number : NumberText) :
    readDecimal number.text = some (numberValue number) := by
  have wholeDigits : ∀ c ∈ number.whole, isDecimal c = true :=
    fun c member => (isDecimal_of_isAsciiDigit (number.wholeDigits.2 c member)).1
  have exponent := readExponent_exponentText number
  have ends := endsDigits_exponentText number
  rw [NumberText.text, NumberText.mantissa, readDecimal, numberValue]
  cases fraction : number.fraction with
  | none =>
    rw [digitPart_append number.wholeDigits.1 wholeDigits ends, Option.getD_some]
    have notPoint : ∀ tail, number.exponentText ≠ '.' :: tail := by
      intro tail same
      rw [NumberText.exponentText] at same
      cases given : number.exponent with
      | none =>
        rw [given] at same
        cases same
      | some pair =>
        rw [given] at same
        exact absurd (List.cons.inj same).1 (by decide)
    dsimp only
    split
    · next tail same => exact absurd same (notPoint tail)
    · rw [if_neg number.wholeDigits.1, exponent]
      simp
  | some digits =>
    have fractionDigits : ∀ c ∈ digits, isDecimal c = true := fun c member =>
      (isDecimal_of_isAsciiDigit (number.fractionDigits digits fraction c member)).1
    rw [append_assoc, cons_append,
      digitPart_append number.wholeDigits.1 wholeDigits (endsDigits_point _)]
    have after : (digitPart (digits ++ number.exponentText)).getD
        ([], digits ++ number.exponentText) = (digits, number.exponentText) := by
      cases digits with
      | nil =>
        rw [nil_append, digitPart_none ends]
        rfl
      | cons c rest =>
        rw [digitPart_append (cons_ne_nil _ _) fractionDigits ends]
        rfl
    dsimp only
    split
    · rename_i tail same
      obtain rfl := (List.cons.inj same).2
      rw [after]
      rw [if_neg (fun both => number.wholeDigits.1 both.1), exponent]
      rfl
    · next noPoint => exact absurd rfl (noPoint _)

theorem decimalsValue_append (front back : Text) : decimalsValue (front ++ back) =
      decimalsValue front * 10 ^ back.length + decimalsValue back := by
  have shift : ∀ (start : ℕ) (s : Text),
      s.foldl (fun value c => 10 * value + decimalValue c) start =
        start * 10 ^ s.length + decimalsValue s := by
    intro start s
    induction s generalizing start with
    | nil => simp [decimalsValue]
    | cons c rest induction =>
      rw [decimalsValue, foldl_cons, foldl_cons, induction, @induction (10 * 0 + _), length_cons]
      ring
  rw [decimalsValue, foldl_append]
  exact shift _ back

theorem decimalsValue_zeros (n : ℕ) : decimalsValue (Binary64.zeros n) = 0 := by
  induction n with
  | zero => rfl
  | succ n induction =>
    have split : Binary64.zeros (n + 1) = ['0'] ++ Binary64.zeros n := rfl
    have digit : decimalsValue ['0'] = 0 := by decide
    rw [split, decimalsValue_append, induction, digit, Nat.zero_mul]

theorem decimalsValue_natText (n : ℕ) : decimalsValue (natText n) = n := by
  have same : ∀ (start : ℕ) (s : Text), (∀ c ∈ s, isAsciiDigit c = true) →
      s.foldl (fun value c => 10 * value + decimalValue c) start = Nat.ofDigitChars 10 s start := by
    intro start s all
    induction s generalizing start with
    | nil => rfl
    | cons c rest induction =>
      rw [foldl_cons, (isDecimal_of_isAsciiDigit (all c mem_cons_self)).2]
      exact induction _ fun d member => all d (mem_cons_of_mem _ member)
  rw [decimalsValue, same 0 _ fun c => isAsciiDigit_of_mem_natText]
  exact Nat.ofDigitChars_toDigits (by decide) (by decide)

namespace Binary64

theorem shortestDigits_value (q : ℚ) : (decimalsValue (shortestDigits q).1 : ℚ) *
        10 ^ ((shortestDigits q).2 - (shortestDigits q).1.length) =
      (shortestDecimal q).1 * 10 ^ (shortestDecimal q).2 := by
  rw [shortestDigits]
  generalize shortestDecimal q = decimal
  obtain ⟨m, e⟩ := decimal
  obtain ⟨k, split⟩ : ∃ k, natText m = (natText m).rdropWhile (· == '0') ++ zeros k := by
    refine ⟨((natText m).rtakeWhile (· == '0')).length, ?_⟩
    have whole := @List.rdropWhile_append_rtakeWhile _ (· == '0') (natText m)
    have ended : (natText m).rtakeWhile (· == '0') =
        zeros ((natText m).rtakeWhile (· == '0')).length := by
      apply eq_replicate_of_mem
      intro c member
      simpa using mem_rtakeWhile_imp member
    rw [← ended]
    exact whole.symm
  have value := decimalsValue_natText m
  rw [split, decimalsValue_append, decimalsValue_zeros, Nat.add_zero] at value
  have length := congrArg List.length split
  rw [length_append] at length
  generalize (natText m).rdropWhile (· == '0') = digits at value length
  rw [length, ← value]
  push_cast
  rw [mul_assoc, ← zpow_natCast, ← zpow_add₀ (by norm_num)]
  congr 2
  ring

/-- A number text with the value of some digits and a place of the point. -/
def Lays (digits : Text) (point : ℤ) (text : Text) : Prop :=
  ∃ number : NumberText, number.text = text ∧
    numberValue number = decimalsValue digits * 10 ^ (point - digits.length)

theorem lays_inside {point : ℕ} (all : ∀ c ∈ digits, isAsciiDigit c = true)
    (positive : 0 < point) (inside : point < digits.length) :
    Lays digits point (digits.take point ++ '.' :: digits.drop point) := by
  have nonempty : digits.take point ≠ [] := by
    rw [ne_eq, take_eq_nil_iff]
    rintro (none | none)
    · omega
    · rw [none] at inside
      exact absurd inside (Nat.not_lt_zero _)
  refine ⟨⟨digits.take point, some (digits.drop point), none,
    ⟨nonempty, fun c member => all c (mem_of_mem_take member)⟩, ?_, nofun⟩, ?_, ?_⟩
  · rintro fraction ⟨⟩
    exact fun c member => all c (mem_of_mem_drop member)
  · simp [NumberText.text, NumberText.mantissa, NumberText.exponentText]
  · rw [numberValue, numberPower]
    simp only [Option.getD_some, take_append_drop, length_drop]
    congr 2
    omega

theorem lays_below {point : ℤ} (all : ∀ c ∈ digits, isAsciiDigit c = true) (below : point ≤ 0) :
    Lays digits point ("0.".toList ++ zeros (-point).toNat ++ digits) := by
  refine ⟨⟨"0".toList, some (zeros (-point).toNat ++ digits), none, ⟨by decide, by decide⟩,
    ?_, nofun⟩, ?_, ?_⟩
  · rintro fraction ⟨⟩
    intro c member
    rcases mem_append.1 member with zero | digit
    · exact isAsciiDigit_of_mem_zeros zero
    · exact all c digit
  · simp [NumberText.text, NumberText.mantissa, NumberText.exponentText]
  · have zero : decimalsValue "0".toList = 0 := by decide
    rw [numberValue, numberPower]
    simp only [Option.getD_some]
    rw [decimalsValue_append, zero, decimalsValue_append, decimalsValue_zeros, Nat.zero_mul,
      Nat.zero_mul, Nat.zero_add, Nat.zero_add, length_append]
    congr 2
    have zerosLength : (zeros (-point).toNat).length = (-point).toNat := length_replicate
    omega

theorem lays_above {point : ℕ} (nonempty : digits ≠ [])
    (all : ∀ c ∈ digits, isAsciiDigit c = true) (beyond : digits.length ≤ point) :
    Lays digits point (digits ++ zeros (point - digits.length) ++ ".0".toList) := by
  have zero : ∀ c ∈ "0".toList, isAsciiDigit c = true := by decide
  refine ⟨⟨digits ++ zeros (point - digits.length), some "0".toList, none,
    ⟨fun none => nonempty (append_eq_nil_iff.1 none).1, ?_⟩, ?_, nofun⟩, ?_, ?_⟩
  · intro c member
    rcases mem_append.1 member with digit | zero
    · exact all c digit
    · exact isAsciiDigit_of_mem_zeros zero
  · rintro fraction ⟨⟩
    exact zero
  · simp [NumberText.text, NumberText.mantissa, NumberText.exponentText]
  · have zeroValue : decimalsValue "0".toList = 0 := by decide
    have zerosLength : (zeros (point - digits.length)).length = point - digits.length :=
      length_replicate
    have length : "0".toList.length = 1 := rfl
    rw [numberValue, numberPower]
    simp only [Option.getD_some]
    rw [decimalsValue_append, zeroValue, decimalsValue_append, decimalsValue_zeros, zerosLength,
      length]
    push_cast
    have exponent : (10 : ℚ) ^ ((point : ℤ) - digits.length) = 10 ^ (point - digits.length) := by
      rw [← zpow_natCast]
      congr 1
      omega
    rw [exponent]
    ring

theorem lays_exponent {point : ℤ} (nonempty : digits ≠ [])
    (all : ∀ c ∈ digits, isAsciiDigit c = true) :
    Lays digits point (digits.take 1 ++ (if digits.length = 1 then [] else '.' :: digits.drop 1) ++
        'e' :: (if point - 1 < 0 then '-' else '+') ::
          (zeros (2 - (natText (point - 1).natAbs).length) ++ natText (point - 1).natAbs)) := by
  obtain ⟨first, others, rfl⟩ := exists_cons_of_ne_nil nonempty
  have firstDigit : isAsciiDigit first = true := all first mem_cons_self
  have otherDigits : ∀ c ∈ others, isAsciiDigit c = true :=
    fun c member => all c (mem_cons_of_mem _ member)
  let exponent : Char × Text := (if point - 1 < 0 then '-' else '+',
    zeros (2 - (natText (point - 1).natAbs).length) ++ natText (point - 1).natAbs)
  have exponentDigits : ∀ pair ∈ some exponent, (pair.1 = '+' ∨ pair.1 = '-') ∧
      pair.2 ≠ [] ∧ ∀ c ∈ pair.2, isAsciiDigit c = true := by
    rintro pair ⟨⟩
    refine ⟨?_, fun none => natText_ne_nil _ (append_eq_nil_iff.1 none).2, ?_⟩
    · change (if point - 1 < 0 then '-' else '+') = '+' ∨ (if point - 1 < 0 then '-' else '+') = '-'
      split
      · exact Or.inr rfl
      · exact Or.inl rfl
    · intro c member
      rcases mem_append.1 member with zero | digit
      · exact isAsciiDigit_of_mem_zeros zero
      · exact isAsciiDigit_of_mem_natText digit
  have power : ∀ number : NumberText, number.exponent = some exponent →
      numberPower number = point - 1 := by
    intro number given
    rw [numberPower, given]
    dsimp only [exponent]
    rw [decimalsValue_append, decimalsValue_zeros, decimalsValue_natText]
    by_cases below : point - 1 < 0
    · rw [if_pos below, if_pos rfl]
      omega
    · rw [if_neg below, if_neg (by decide)]
      omega
  by_cases single : others = []
  · subst single
    refine ⟨⟨[first], none, some exponent, ⟨cons_ne_nil _ _, all⟩, nofun, exponentDigits⟩, ?_, ?_⟩
    · simp [NumberText.text, NumberText.mantissa, NumberText.exponentText, exponent]
    · rw [numberValue, power _ rfl]
      simp
  · have several : (first :: others).length ≠ 1 := by
      rw [length_cons, ne_eq, Nat.succ_inj]
      exact fun none => single (length_eq_zero_iff.1 none)
    refine ⟨⟨[first], some others, some exponent, ⟨cons_ne_nil _ _, ?_⟩, ?_,
      exponentDigits⟩, ?_, ?_⟩
    · intro c member
      rwa [mem_singleton.1 member]
    · rintro fraction ⟨⟩
      exact otherDigits
    · rw [if_neg several]
      simp [NumberText.text, NumberText.mantissa, NumberText.exponentText, exponent]
    · rw [numberValue, power _ rfl]
      simp only [Option.getD_some, singleton_append, length_cons]
      congr 2
      push_cast
      ring

theorem repr_lays {q : ℚ} (nonzero : q ≠ 0) : ∃ number : NumberText, number.text = repr q ∧
      numberValue number = (shortestDecimal q).1 * 10 ^ (shortestDecimal q).2 := by
  have nonempty := shortestDigits_ne_nil nonzero
  have all := fun c => @isAsciiDigit_of_mem_shortestDigits q c
  rw [← shortestDigits_value]
  rw [repr, if_neg nonzero]
  generalize shortestDigits q = shortest at nonempty all
  obtain ⟨digits, point⟩ := shortest
  dsimp only at nonempty all ⊢
  split
  · split
    · next below => exact lays_below all below
    · rename_i positive
      obtain ⟨place, rfl⟩ : ∃ place : ℕ, point = place := ⟨point.toNat, by omega⟩
      split
      · next inside => exact lays_inside all (by omega) inside
      · next beyond => exact lays_above nonempty all (by omega)
  · exact lays_exponent nonempty all

theorem repr_number {q : ℚ} (nonnegative : 0 ≤ q) (double : IsDouble (.finite q)) :
    ∃ number : NumberText, number.text = repr q ∧ ofRat (numberValue number) = .finite q := by
  by_cases zero : q = 0
  · subst zero
    refine ⟨⟨"0".toList, some "0".toList, none, ⟨by decide, by decide⟩, ?_, nofun⟩, rfl, ?_⟩
    · rintro fraction ⟨⟩
      decide
    · have value : numberValue ⟨"0".toList, some "0".toList, none, ⟨by decide, by decide⟩,
          by rintro fraction ⟨⟩; decide, nofun⟩ = 0 := by decide +kernel
      rw [value, ofRat_zero]
  · obtain ⟨number, isText, value⟩ := repr_lays zero
    have positive := lt_of_le_of_ne nonnegative (Ne.symm zero)
    exact ⟨number, isText, by rw [value, ofRat_shortestDecimal positive double]⟩

end Binary64

/-- `str` of a float. -/
def floatText : Binary64 → Text
  | .nan => "nan".toList
  | .infinite negative => if negative then "-inf".toList else "inf".toList
  | .finite q => if q < 0 then '-' :: Binary64.repr (-q) else Binary64.repr q

theorem number_chars (number : NumberText) :
    (∃ c rest, number.text = c :: rest ∧ isAsciiDigit c = true) ∧
      ∀ c ∈ number.text, isFloatSpace c = false := by
  have digit : ∀ c, isAsciiDigit c = true → isFloatSpace c = false := by
    intro c isDigit
    have bounds := isAsciiDigit_iff.mp isDigit
    have other : c ≠ ' ' := by
      rintro rfl
      exact absurd bounds.1 (by decide)
    simp only [isFloatSpace, Bool.or_eq_false_iff, Bool.and_eq_false_iff,
      decide_eq_false_iff_not, beq_eq_false_iff_ne]
    exact ⟨⟨by omega, other⟩, Or.inl (by omega)⟩
  constructor
  · obtain ⟨c, rest, whole⟩ := exists_cons_of_ne_nil number.wholeDigits.1
    have isDigit := number.wholeDigits.2 c (by rw [whole]; exact mem_cons_self)
    rw [NumberText.text, NumberText.mantissa]
    cases number.fraction with
    | none => exact ⟨c, rest ++ number.exponentText, by rw [whole]; rfl, isDigit⟩
    | some digits =>
      exact ⟨c, rest ++ '.' :: digits ++ number.exponentText, by rw [whole]; rfl, isDigit⟩
  · intro c member
    rcases mem_append.1 member with inMantissa | inExponent
    · rw [NumberText.mantissa] at inMantissa
      cases given : number.fraction with
      | none =>
        rw [given] at inMantissa
        exact digit c (number.wholeDigits.2 c inMantissa)
      | some digits =>
        rw [given] at inMantissa
        rcases mem_append.1 inMantissa with inWhole | inFraction
        · exact digit c (number.wholeDigits.2 c inWhole)
        · rcases mem_cons.1 inFraction with rfl | inDigits
          · decide
          · exact digit c (number.fractionDigits digits given c inDigits)
    · rw [NumberText.exponentText] at inExponent
      cases given : number.exponent with
      | none =>
        rw [given] at inExponent
        cases inExponent
      | some pair =>
        rw [given] at inExponent
        obtain ⟨isSign, _, all⟩ := number.exponentDigits pair given
        rcases mem_cons.1 inExponent with rfl | inRest
        · decide
        · rcases mem_cons.1 inRest with rfl | inDigits
          · rcases isSign with plus | minus
            · rw [plus]
              decide
            · rw [minus]
              decide
          · exact digit c (all c inDigits)

theorem readSign_digit (digit : isAsciiDigit c = true) (rest : Text) :
    readSign (c :: rest) = (false, c :: rest) := by
  rw [readSign.eq_def]
  split
  · rename_i same
    obtain rfl := (List.cons.inj same).1
    exact absurd digit (by decide)
  · rename_i same
    obtain rfl := (List.cons.inj same).1
    exact absurd digit (by decide)
  · rfl

theorem strip_floatSpace {s : Text} (plain : ∀ c ∈ s, isFloatSpace c = false) :
    rstripBy isFloatSpace (lstripBy isFloatSpace s) = s := by
  rw [lstripBy_eq_self fun c first => plain c (mem_of_mem_head? first)]
  exact rstripBy_eq_self fun c last => plain c (mem_of_mem_getLast? last)

theorem readFloat_number (number : NumberText) :
    readFloat number.text = some (Binary64.ofRat (numberValue number)) ∧
      readFloat ('-' :: number.text) = some (Binary64.ofRat (-numberValue number)) := by
  obtain ⟨⟨c, rest, isText, digit⟩, plain⟩ := number_chars number
  have read := readDecimal_text number
  have signed : ∀ d ∈ '-' :: number.text, isFloatSpace d = false := by
    intro d member
    rcases mem_cons.1 member with rfl | inside
    · decide
    · exact plain d inside
  -- A word of letters does not begin with a digit.
  have noWord : ∀ word : Text, word.head?.any isAsciiDigit = false →
      number.text.map Char.toLower ≠ word := by
    rintro word letter rfl
    have bounds := isAsciiDigit_iff.mp digit
    have kept : c.toLower = c := by
      have notUpper : ¬ (c.val ≥ 'A'.val ∧ c.val ≤ 'Z'.val) := by
        rintro ⟨above, _⟩
        have : 65 ≤ c.toNat := above
        omega
      exact dif_neg notUpper
    rw [isText, map_cons, kept, List.head?_cons, Option.any_some, digit] at letter
    cases letter
  constructor
  · rw [readFloat, strip_floatSpace plain, isText, readSign_digit digit, ← isText]
    dsimp only
    rw [if_neg (noWord _ (by decide)),
      if_neg (not_or.2 ⟨noWord _ (by decide), noWord _ (by decide)⟩), read]
    rfl
  · rw [readFloat, strip_floatSpace signed, readSign]
    dsimp only
    rw [if_neg (noWord _ (by decide)),
      if_neg (not_or.2 ⟨noWord _ (by decide), noWord _ (by decide)⟩), read]
    rfl

/-- **Printing and reading.** Every double is read back from its text. -/
theorem readFloat_floatText {x : Binary64} (double : x.IsDouble) :
    readFloat (floatText x) = some x := by
  cases x with
  | nan => decide +kernel
  | infinite negative =>
    cases negative with
    | true | false => decide +kernel
  | finite q =>
    rw [floatText]
    split
    · rename_i negative
      obtain ⟨number, isText, reads⟩ :=
        Binary64.repr_number (neg_nonneg.2 negative.le) (Binary64.ofRat_neg double)
      rw [← isText, (readFloat_number number).2, Binary64.ofRat_neg reads, neg_neg]
    · rename_i nonnegative
      obtain ⟨number, isText, reads⟩ := Binary64.repr_number (not_lt.1 nonnegative) double
      rw [← isText, (readFloat_number number).1, reads]

example : readFloat " -1_0.5e+1 ".toList = some (.finite (-105)) := by decide +kernel

end WriterAgent
