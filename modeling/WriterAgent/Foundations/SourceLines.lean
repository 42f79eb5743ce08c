import Mathlib
import WriterAgent.Foundations.Text

/-!
# Lines and byte columns of a source text

`str.splitlines(keepends=True)`, and the number of characters that stand in a
given number of UTF-8 bytes.
-/

namespace PyText

/-- A character that ends a line for `str.splitlines`. -/
def isLineBoundary (c : Char) : Bool :=
  let n := c.toNat
  (10 ≤ n && n ≤ 13) || (28 ≤ n && n ≤ 30) || n == 0x85 || n == 0x2028 || n == 0x2029

/-- `str.splitlines(keepends=True)`; a carriage return and the line feed
behind it are one boundary. -/
def splitLinesKeep : Text → List Text
  | [] => []
  | c :: rest =>
    if isLineBoundary c && !(c == '\r' && rest.head? == some '\n') then
      [c] :: splitLinesKeep rest
    else
      match splitLinesKeep rest with
      | [] => [[c]]
      | line :: lines => (c :: line) :: lines

theorem flatten_splitLinesKeep (s : Text) : (splitLinesKeep s).flatten = s := by
  induction s with
  | nil => rfl
  | cons c rest ih =>
    unfold splitLinesKeep
    split
    · rw [List.flatten_cons, ih, List.singleton_append]
    · cases lines : splitLinesKeep rest with
      | nil | cons line later =>
        rw [lines] at ih
        simp [← ih]

def utf8Width (c : Char) : Nat :=
  if c.toNat < 0x80 then 1 else if c.toNat < 0x800 then 2
  else if c.toNat < 0x10000 then 3 else 4

def utf8Length (s : Text) : Nat := (s.map utf8Width).sum

/-- The number of characters whose bytes all lie in the first `bytes` bytes. -/
def charsWithin : Nat → Text → Nat
  | _, [] => 0
  | bytes, c :: rest =>
    if utf8Width c ≤ bytes then charsWithin (bytes - utf8Width c) rest + 1
    else 0

theorem charsWithin_le (bytes : Nat) (s : Text) : charsWithin bytes s ≤ s.length := by
  induction s generalizing bytes with
  | nil => exact Nat.le_refl 0
  | cons c rest ih =>
    unfold charsWithin
    split
    · exact Nat.succ_le_succ (ih _)
    · exact Nat.zero_le _

end PyText
