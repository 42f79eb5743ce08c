import WriterAgent.Foundations.Dict
import WriterAgent.Foundations.FloatRepr
import WriterAgent.Foundations.Occurrences

/-!
# Column names of a calc range

`_dedupe_column_names` turns the header row of a range into the column names
of a data frame.  Blanks at the ends are cut, an empty header becomes
`column`, and from the second time on a name gets an underscore and the
number of its earlier occurrences.
-/

namespace WriterAgent.Scripting

open PyText List

/-- `(raw or "column").strip() or "column"`. -/
def columnBase (raw : Text) : Text :=
  let base := strip (if raw = [] then "column".toList else raw)
  if base = [] then "column".toList else base

/-- `f"{base}_{count}"` -/
def numberedName (base : Text) (count : ℕ) : Text :=
  base ++ '_' :: natText count

/-- One turn of the loop over the names: `seen` and `out`. -/
def dedupeStep (state : PyDict Text ℕ × List Text) (raw : Text) : PyDict Text ℕ × List Text :=
  let (seen, out) := state
  let base := columnBase raw
  let count := (seen.get? base).getD 0
  let out := if count ≠ 0 then out ++ [numberedName base count] else out ++ [base]
  (seen.set base (count + 1), out)

def dedupeColumnNames (names : List Text) : List Text :=
  (names.foldl dedupeStep (PyDict.empty, [])).2

/-- The name of one occurrence of a base, the first occurrence being number
zero. -/
def occurrenceName (occurrence : Text × ℕ) : Text :=
  if occurrence.2 ≠ 0 then numberedName occurrence.1 occurrence.2 else occurrence.1

/-- The table `seen` read as a tally. -/
def tallyOf (seen : PyDict Text ℕ) (base : Text) : ℕ := (seen.get? base).getD 0

variable {base other : Text} {names : List Text}

theorem tallyOf_set (seen : PyDict Text ℕ) (base : Text) :
    tallyOf (seen.set base (tallyOf seen base + 1)) = Occurrences.advance (tallyOf seen) base := by
  funext other
  by_cases same : other = base <;> simp [tallyOf, Occurrences.advance, same]

theorem foldl_dedupeStep (names : List Text) (seen : PyDict Text ℕ) (out : List Text) :
    (names.foldl dedupeStep (seen, out)).2 =
      out ++ (Occurrences.numbered (tallyOf seen) (names.map columnBase)).map
        occurrenceName := by
  induction names generalizing seen out with
  | nil => simp [Occurrences.numbered]
  | cons raw rest induction =>
    have step : dedupeStep (seen, out) raw =
        (seen.set (columnBase raw) (tallyOf seen (columnBase raw) + 1),
          out ++ [occurrenceName (columnBase raw, tallyOf seen (columnBase raw))]) := by
      by_cases again : (seen.get? (columnBase raw)).getD 0 ≠ 0
      · simp [dedupeStep, occurrenceName, tallyOf, again]
      · simp [dedupeStep, occurrenceName, tallyOf, not_not.1 again]
    rw [foldl_cons, step, induction, tallyOf_set, map_cons,
      Occurrences.numbered, map_cons, append_assoc, singleton_append]

theorem dedupeColumnNames_eq (names : List Text) : dedupeColumnNames names =
      (Occurrences.numbered (fun _ => 0) (names.map columnBase)).map occurrenceName :=
  foldl_dedupeStep names PyDict.empty []

theorem length_dedupeColumnNames (names : List Text) :
    (dedupeColumnNames names).length = names.length := by
  simp [dedupeColumnNames_eq]

theorem dedupeColumnNames_first {i : ℕ} (here : (names.map columnBase)[i]? = some base)
    (first : base ∉ (names.map columnBase).take i) :
    (dedupeColumnNames names)[i]? = some base := by
  rw [dedupeColumnNames_eq, List.getElem?_map, Occurrences.getElem?_numbered_of_notMem here first]
  rfl

theorem natText_injective {first second : ℕ}
    (same : natText first = natText second) : first = second := by
  rw [← Nat.ofDigitChars_ten_toDigits (n := first)]
  rw [show Nat.toDigits 10 first = Nat.toDigits 10 second from same, Nat.ofDigitChars_ten_toDigits]

theorem underscore_notMem_natText (n : ℕ) : '_' ∉ natText n := by
  intro member
  have digit := isAsciiDigit_of_mem_natText member
  exact absurd digit (by decide)

theorem numberedName_injective {m n : ℕ}
    (same : numberedName base m = numberedName other n) : base = other ∧ m = n := by
  have reversed := congrArg List.reverse same
  simp only [numberedName, reverse_append, reverse_cons, append_assoc, singleton_append] at reversed
  have cut : ∀ (base : Text) (k : ℕ), ((natText k).reverse ++ '_' :: base.reverse).span (· != '_') =
        ((natText k).reverse, '_' :: base.reverse) := by
    intro base k
    have digits : ∀ c ∈ (natText k).reverse, (c != '_') = true := by
      intro c member
      rw [bne_iff_ne]
      rintro rfl
      exact underscore_notMem_natText k (mem_reverse.1 member)
    rw [span_eq_takeWhile_dropWhile, takeWhile_append_of_pos digits, dropWhile_append_of_pos digits]
    simp
  have parts := congrArg (List.span (· != '_')) reversed
  rw [cut, cut, Prod.mk.injEq] at parts
  constructor
  · exact reverse_injective (List.cons.inj parts.2).2
  · exact natText_injective (reverse_injective parts.1)

/-- No header is, once its blanks are cut, the numbered name of a later
occurrence of another header. -/
def NoLiteralCopies (names : List Text) : Prop :=
  ∀ base ∈ names.map columnBase, ∀ count < (names.map columnBase).count base,
    count ≠ 0 → numberedName base count ∉ names.map columnBase

theorem occurrenceName_injective (apart : NoLiteralCopies names) {m n : ℕ}
    (below : m < (names.map columnBase).count base)
    (belowOther : n < (names.map columnBase).count other)
    (same : occurrenceName (base, m) = occurrenceName (other, n)) :
    base = other ∧ m = n := by
  have member : base ∈ names.map columnBase := count_pos_iff.1 (by omega)
  have memberOther : other ∈ names.map columnBase := count_pos_iff.1 (by omega)
  by_cases first : m = 0
  · subst first
    by_cases firstOther : n = 0
    · subst firstOther
      exact ⟨same, rfl⟩
    · have clash : base = numberedName other n := by simpa [occurrenceName, firstOther] using same
      exact absurd (clash ▸ member) (apart other memberOther n belowOther firstOther)
  · by_cases firstOther : n = 0
    · subst firstOther
      have clash : numberedName base m = other := by simpa [occurrenceName, first] using same
      exact absurd (clash.symm ▸ memberOther) (apart base member m below first)
    · exact numberedName_injective (by
        simpa [occurrenceName, first, firstOther] using same)

theorem nodup_dedupeColumnNames (names : List Text) :
    (dedupeColumnNames names).Nodup ↔ NoLiteralCopies names := by
  rw [dedupeColumnNames_eq, Occurrences.nodup_map_numbered]
  constructor
  · intro distinct base _ count below notFirst member
    have same : occurrenceName (base, count) = occurrenceName (numberedName base count, 0) := by
      simp [occurrenceName, notFirst]
    exact notFirst (distinct _ _ _ _ below (count_pos_iff.2 member) same).2
  · intro apart base other m n below belowOther same
    exact occurrenceName_injective apart below belowOther same

/-- The column names: as many as headers, all different, and the first header
with a given base keeps it. -/
structure ColumnsNamed (names columns : List Text) : Prop where
  length : columns.length = names.length
  distinct : columns.Nodup
  firstKept : ∀ i base, (names.map columnBase)[i]? = some base →
    base ∉ (names.map columnBase).take i → columns[i]? = some base

/-- The names are given as promised exactly when no header spells out the
numbered name of another. -/
theorem dedupeColumnNames_named_iff (names : List Text) :
    ColumnsNamed names (dedupeColumnNames names) ↔ NoLiteralCopies names := by
  constructor
  · intro named
    exact (nodup_dedupeColumnNames names).1 named.distinct
  · intro apart
    exact
      { length := length_dedupeColumnNames names
        distinct := (nodup_dedupeColumnNames names).2 apart
        firstKept := fun _ _ here first => dedupeColumnNames_first here first }

/-- Two headers `a` and a header `a_1`: the second `a` is named like the
third header. -/
theorem literalCopy_collides : ¬ ColumnsNamed ["a".toList, "a".toList, "a_1".toList]
      (dedupeColumnNames ["a".toList, "a".toList, "a_1".toList]) := by
  intro named
  exact absurd named.distinct (by decide +kernel)

end WriterAgent.Scripting
