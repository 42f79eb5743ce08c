import Mathlib.Data.List.DropRight
import Mathlib.Data.List.Infix

/-!
# Python strings as lists of characters

A Python `str` is a finite sequence of code points, so a list of characters
carries everything its methods can observe.  Only the methods below are
needed; each follows the documented behaviour on every code point.
-/

namespace PyText

open List

abbrev Text := List Char

instance : LawfulBEq Text := inferInstance

/-- What holds of every character of a text is decided along the text, not
over all code points. -/
instance decidableForallMem (s : Text) (p : Char → Prop) [DecidablePred p] :
    Decidable (∀ c ∈ s, p c) :=
  List.decidableBAll p s

instance decidableExistsMem (s : Text) (p : Char → Prop) [DecidablePred p] :
    Decidable (∃ c ∈ s, p c) :=
  List.decidableBEx p s

/-- `str.isspace` on one character: the code points whose bidirectional type
or general category makes them white space. -/
def isSpace (c : Char) : Bool :=
  let n := c.toNat
  (9 ≤ n && n ≤ 13) || (28 ≤ n && n ≤ 32) || n == 0x85 || n == 0xA0 ||
    n == 0x1680 || (0x2000 ≤ n && n ≤ 0x200A) || n == 0x2028 || n == 0x2029 ||
    n == 0x202F || n == 0x205F || n == 0x3000

/-- `str.lstrip` with a character class. -/
def lstripBy (drop : Char → Bool) (s : Text) : Text :=
  s.dropWhile drop

/-- `str.rstrip` with a character class. -/
def rstripBy (drop : Char → Bool) (s : Text) : Text :=
  s.rdropWhile drop

/-- `str.strip()`. -/
def strip (s : Text) : Text :=
  rstripBy isSpace (lstripBy isSpace s)

/-- `str.replace(c, "")` for a single character. -/
def removeChar (c : Char) (s : Text) : Text :=
  s.filter (· != c)

/-- `str.replace(old, new)` for single characters. -/
def replaceChar (old new : Char) (s : Text) : Text :=
  s.map fun c => if c == old then new else c

/-- `sep.join(parts)` for a one-character separator. -/
def join (sep : Char) (parts : List Text) : Text :=
  [sep].intercalate parts

def isAsciiUpper (c : Char) : Bool := 'A' ≤ c && c ≤ 'Z'
def isAsciiLower (c : Char) : Bool := 'a' ≤ c && c ≤ 'z'
def isAsciiLetter (c : Char) : Bool := isAsciiUpper c || isAsciiLower c
def isAsciiDigit (c : Char) : Bool := '0' ≤ c && c ≤ '9'

def isAscii (s : Text) : Bool := s.all fun c => c.toNat < 128

/-- `str.upper` on one character, exact wherever the upper case holds an
ASCII character: the small letters and the code points whose full case
mapping starts with or consists of ASCII capitals.  Every other character is
its own image here, and no ASCII text is the upper case of a text holding
one. -/
def upperChar (c : Char) : Text :=
  if isAsciiLower c then [Char.ofNat (c.toNat - 32)]
  else match c.toNat with
    | 0x131 => ['I']
    | 0x17F => ['S']
    | 0xDF => ['S', 'S']
    | 0x149 => [Char.ofNat 0x2BC, 'N']
    | 0x1F0 => ['J', Char.ofNat 0x30C]
    | 0x1E96 => ['H', Char.ofNat 0x331]
    | 0x1E97 => ['T', Char.ofNat 0x308]
    | 0x1E98 => ['W', Char.ofNat 0x30A]
    | 0x1E99 => ['Y', Char.ofNat 0x30A]
    | 0x1E9A => ['A', Char.ofNat 0x2BE]
    | 0xFB00 => ['F', 'F']
    | 0xFB01 => ['F', 'I']
    | 0xFB02 => ['F', 'L']
    | 0xFB03 => ['F', 'F', 'I']
    | 0xFB04 => ['F', 'F', 'L']
    | 0xFB05 => ['S', 'T']
    | 0xFB06 => ['S', 'T']
    | _ => [c]

def upper (s : Text) : Text := s.flatMap upperChar

/-- The value of a run of ASCII decimal digits, as `int` reads it. -/
def digitsValue (s : Text) : Nat :=
  s.foldl (fun value c => 10 * value + (c.toNat - '0'.toNat)) 0

theorem isAsciiDigit_iff {c : Char} :
    isAsciiDigit c = true ↔ 48 ≤ c.toNat ∧ c.toNat ≤ 57 := by
  simp only [isAsciiDigit, Bool.and_eq_true, decide_eq_true_eq, Char.le_def]
  rfl

/-- No character of the class stands at either end. -/
structure Trimmed (drop : Char → Bool) (s : Text) : Prop where
  front : ∀ c, s.head? = some c → drop c = false
  back : ∀ c, s.getLast? = some c → drop c = false

variable {s : Text} {c : Char} {drop : Char → Bool}

theorem lstripBy_eq_self {drop : Char → Bool} {s : Text}
    (front : ∀ c, s.head? = some c → drop c = false) :
    lstripBy drop s = s := by
  cases s with
  | nil => rfl
  | cons c rest => simp [lstripBy, front c rfl]

theorem rstripBy_append_singleton (drop : Char → Bool) (s : Text) (c : Char) :
    rstripBy drop (s ++ [c]) = if drop c then rstripBy drop s else s ++ [c] := by
  by_cases dropped : drop c = true
  · rw [if_pos dropped]
    exact rdropWhile_concat_pos _ _ _ dropped
  · rw [if_neg dropped]
    exact rdropWhile_concat_neg _ _ _ dropped

theorem rstripBy_append (kept : drop c = false) (front back : Text) :
    rstripBy drop (front ++ c :: back) = front ++ c :: rstripBy drop back := by
  induction back using List.reverseRecOn with
  | nil => exact rdropWhile_concat_neg _ _ _ (by simp [kept])
  | append_singleton back d ih =>
    have split : front ++ c :: (back ++ [d]) = (front ++ c :: back) ++ [d] := by simp
    rw [split, rstripBy_append_singleton, rstripBy_append_singleton]
    split
    · exact ih
    · exact split.symm

theorem rstripBy_eq_self (back : ∀ c, s.getLast? = some c → drop c = false) :
    rstripBy drop s = s := by
  rcases eq_nil_or_concat s with rfl | ⟨front, c, rfl⟩
  · rfl
  · have kept : drop c = false := back c (by simp)
    rw [concat_eq_append, rstripBy_append_singleton]
    simp [kept]

theorem strip_eq_self (trimmed : Trimmed isSpace s) : strip s = s := by
  rw [strip, lstripBy_eq_self trimmed.front, rstripBy_eq_self trimmed.back]

theorem lstripBy_head (head : (lstripBy drop s).head? = some c) : drop c = false := by
  induction s with
  | nil => simp [lstripBy] at head
  | cons first rest ih =>
    by_cases dropped : drop first = true
    · rw [lstripBy, dropWhile_cons_of_pos dropped] at head
      exact ih head
    · rw [lstripBy, dropWhile_cons_of_neg dropped] at head
      simp only [List.head?_cons, Option.some.injEq] at head
      subst head
      simpa using dropped

theorem rstripBy_last {drop : Char → Bool} {s : Text} {c : Char}
    (last : (rstripBy drop s).getLast? = some c) : drop c = false := by
  induction s using List.reverseRecOn with
  | nil => simp [rstripBy] at last
  | append_singleton front final ih =>
    rw [rstripBy_append_singleton] at last
    by_cases dropped : drop final = true
    · rw [if_pos dropped] at last
      exact ih last
    · rw [if_neg dropped] at last
      simp only [List.getLast?_append, List.getLast?_singleton,
        Option.some_or, Option.some.injEq] at last
      subst last
      simpa using dropped

theorem rstripBy_isPrefix (drop : Char → Bool) (s : Text) : rstripBy drop s <+: s :=
  rdropWhile_prefix _ _

theorem lstripBy_isSuffix (drop : Char → Bool) (s : Text) : lstripBy drop s <:+ s :=
  dropWhile_suffix _

theorem strip_isInfix (s : Text) : strip s <:+: s :=
  (rstripBy_isPrefix _ _).isInfix.trans (lstripBy_isSuffix _ _).isInfix

theorem mem_strip (member : c ∈ s) (visible : isSpace c = false) : c ∈ strip s := by
  have inFront : c ∈ lstripBy isSpace s := by
    rw [← takeWhile_append_dropWhile (p := isSpace) (l := s)] at member
    rcases mem_append.mp member with dropped | kept
    · simp [mem_takeWhile_imp dropped] at visible
    · exact kept
  rw [← rdropWhile_append_rtakeWhile (p := isSpace) (l := lstripBy isSpace s)] at inFront
  rcases mem_append.mp inFront with kept | dropped
  · exact kept
  · simp [mem_rtakeWhile_imp dropped] at visible

theorem head?_of_isPrefix {front : Text} (prefixed : front <+: s)
    (head : front.head? = some c) : s.head? = some c := by
  obtain ⟨rest, rfl⟩ := prefixed
  simp [head]

theorem strip_trimmed (s : Text) : Trimmed isSpace (strip s) := by
  constructor
  · intro c head
    exact lstripBy_head (head?_of_isPrefix (rstripBy_isPrefix _ _) head)
  · intro c last
    exact rstripBy_last last

@[simp] theorem strip_strip (s : Text) : strip (strip s) = strip s :=
  strip_eq_self (strip_trimmed s)

@[simp] theorem strip_nil : strip [] = [] := rfl

end PyText
