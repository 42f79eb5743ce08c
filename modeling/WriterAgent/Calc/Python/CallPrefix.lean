import WriterAgent.Calc.Python.FormulaEdit

/-!
# The call prefix of a Python formula

What a formula writes after its opening parenthesis has no influence on where
that parenthesis is found, and normalisation leaves a rebuilt formula alone.
-/

namespace WriterAgent.Calc.Python

open PyText List

variable {name front s : Text} {c : Char} {length : Nat}

theorem isPrefix_of_isPrefix_append {back : Text} (prefixed : name <+: front ++ back)
    (stops : ∀ c, back.head? = some c → c ∉ name) : name <+: front := by
  rcases prefix_or_prefix_of_prefix prefixed (prefix_append front back) with inside | ⟨rest, rfl⟩
  · exact inside
  · rw [prefix_append_right_inj] at prefixed
    cases rest with
    | nil => simp
    | cons c rest =>
      have head : back.head? = some c :=
        head?_of_isPrefix prefixed rfl
      exact absurd (by simp) (stops c head)

/-- The characters that can follow a function name up to its parenthesis. -/
def endsName (c : Char) : Bool := isSpace c || c == '('

theorem endsName_notMem_spelling (spelling : name ∈ callAliases)
    (ends : endsName c = true) : c ∉ name := by
  have plain : ∀ name ∈ callAliases, ∀ c ∈ name, endsName c = false := by decide
  intro member
  simp [plain name spelling c member] at ends

theorem upperChar_of_endsName (ends : endsName c = true) : upperChar c = [c] := by
  have notLower : isAsciiLower c = false := by
    simp only [endsName, isSpace, Bool.or_eq_true, Bool.and_eq_true,
      decide_eq_true_eq, beq_iff_eq, ← Char.toNat_inj] at ends
    simp only [isAsciiLower, Bool.and_eq_false_iff, decide_eq_false_iff_not, Char.le_def]
    change ¬ 97 ≤ c.toNat ∨ ¬ c.toNat ≤ 122
    have parenthesis : '('.toNat = 40 := rfl
    omega
  simp only [upperChar, notLower, Bool.false_eq_true, if_false]
  split <;>
    simp_all [endsName, isSpace, ← Char.toNat_inj]

private theorem find?_congr {α : Type} {p q : α → Bool} {items : List α}
    (agree : ∀ item ∈ items, p item = q item) :
    items.find? p = items.find? q := by
  induction items with
  | nil => rfl
  | cons item rest ih =>
    rw [List.find?_cons, List.find?_cons, agree item mem_cons_self,
      ih fun later member => agree later (mem_cons_of_mem _ member)]

theorem matchedAlias_append (rest : Text) (short : name.length ≤ maxAliasLength)
    (ends : endsName c = true) :
    matchedAlias (name ++ c :: rest) =
      callAliases.find? fun candidate => candidate.isPrefixOf (upper name) := by
  apply find?_congr
  intro candidate spelling
  rw [Bool.eq_iff_iff, isPrefixOf_iff_prefix, isPrefixOf_iff_prefix,
    take_append, take_of_length_le short]
  have upperAppend : ∀ front back : Text, upper (front ++ back) = upper front ++ upper back := by
    intro front back
    simp [upper]
  rw [upperAppend]
  constructor
  · intro prefixed
    apply isPrefix_of_isPrefix_append prefixed
    intro d head
    cases available : maxAliasLength - name.length with
    | zero => simp [available, upper] at head
    | succ more =>
      rw [available, take_succ_cons, upper, flatMap_cons, upperChar_of_endsName ends] at head
      simp only [cons_append, List.head?_cons, Option.some.injEq] at head
      subst head
      exact endsName_notMem_spelling spelling ends
  · intro prefixed
    exact prefixed.trans (prefix_append _ _)

theorem alias_length_le (spelling : name ∈ callAliases) : name.length ≤ maxAliasLength := by
  have bounded : ∀ name ∈ callAliases, name.length ≤ maxAliasLength := by decide
  exact bounded name spelling

theorem callOpenLength_split (found : callOpenLength s = some length) :
    ∃ name spelling spaces rest, s = name ++ (spaces ++ '(' :: rest) ∧
        matchedAlias s = some spelling ∧ name.length = spelling.length ∧
        name.length ≤ maxAliasLength ∧
        (∀ c ∈ spaces, isSpace c = true) ∧
        length = name.length + spaces.length + 1 := by
  unfold callOpenLength at found
  split at found
  · simp at found
  · rename_i spelling matched
    simp only at found
    split at found
    · rename_i rest tailEq
      have member : spelling ∈ callAliases := mem_of_find?_eq_some matched
      have tail : s.drop spelling.length =
          (s.drop spelling.length).takeWhile isSpace ++ '(' :: rest := by
        rw [← tailEq, takeWhile_append_dropWhile]
      have long : spelling.length ≤ s.length := by
        by_contra short
        rw [drop_eq_nil_of_le (by omega)] at tail
        simp at tail
      have nameLength : (s.take spelling.length).length = spelling.length := by simp [long]
      refine ⟨s.take spelling.length, spelling, (s.drop spelling.length).takeWhile isSpace, rest,
        ?_, matched, nameLength, ?_, ?_, ?_⟩
      · rw [← tail, take_append_drop]
      · rw [nameLength]
        exact alias_length_le member
      · intro c spaceMember
        exact mem_takeWhile_imp spaceMember
      · rw [nameLength]
        exact (Option.some.inj found).symm
    · simp at found

theorem callOpenLength_congr {name spaces rest : Text} {spelling : Text}
    (short : name.length ≤ maxAliasLength)
    (sameLength : name.length = spelling.length)
    (allSpaces : ∀ c ∈ spaces, isSpace c = true)
    (matched : matchedAlias (name ++ (spaces ++ '(' :: rest)) = some spelling)
    (rest' : Text) :
    callOpenLength (name ++ (spaces ++ '(' :: rest')) = some (name.length + spaces.length + 1) := by
  have sameMatch : matchedAlias (name ++ (spaces ++ '(' :: rest')) = some spelling := by
    cases spaces with
    | nil =>
      rw [nil_append] at matched ⊢
      rwa [matchedAlias_append _ short rfl] at matched ⊢
    | cons c spaces =>
      have ends : endsName c = true := by simp [endsName, allSpaces c mem_cons_self]
      rw [cons_append] at matched ⊢
      rwa [matchedAlias_append _ short ends] at matched ⊢
  have notSpace : isSpace '(' = false := by decide
  simp only [callOpenLength, sameMatch, ← sameLength, drop_left]
  rw [dropWhile_append_of_pos allSpaces, takeWhile_append_of_pos allSpaces,
    dropWhile_cons_of_neg (by simp [notSpace]),
    takeWhile_cons_of_neg (by simp [notSpace])]
  simp

def IsCallPrefix (front : Text) : Prop :=
  ∀ rest, pyCallOpenEnd (front ++ rest) true = some front.length

theorem isCallPrefix_of_pyCallOpenEnd {raw : Text} (found : pyCallOpenEnd raw true = some length) :
    (raw.take length).length = length ∧ IsCallPrefix (raw.take length) ∧
      (raw.take length).head? = some '=' := by
  simp only [pyCallOpenEnd, if_true] at found
  split at found
  · rename_i tail
    rw [Option.map_eq_some_iff] at found
    obtain ⟨callLength, callFound, lengthEq⟩ := found
    obtain ⟨name, spelling, spaces, rest, split, matched, sameLength, short,
      allSpaces, callLengthEq⟩ := callOpenLength_split callFound
    let leading := tail.takeWhile isSpace
    have tailSplit : tail = leading ++ (name ++ (spaces ++ '(' :: rest)) := by
      rw [← split, takeWhile_append_dropWhile]
    have nonempty : name ≠ [] := by
      intro empty
      have member : spelling ∈ callAliases := mem_of_find?_eq_some matched
      have aliasNonempty : ∀ spelling ∈ callAliases, spelling.length ≠ 0 := by decide
      exact aliasNonempty spelling member (by simp [← sameLength, empty])
    have frontEq : ('=' :: tail).take length = '=' :: (leading ++ (name ++ (spaces ++ ['(']))) := by
      rw [tailSplit, ← lengthEq]
      have regroup : '=' :: (leading ++ (name ++ (spaces ++ '(' :: rest))) =
          ('=' :: (leading ++ (name ++ (spaces ++ ['('])))) ++ rest := by
        simp
      rw [regroup, take_left' (by simp [leading]; omega)]
    have headNotSpace : ∀ c, (name ++ (spaces ++ '(' :: rest)).head? = some c →
        isSpace c = false := by
      intro c head
      rw [← split] at head
      exact lstripBy_head head
    refine ⟨?_, ?_, ?_⟩
    · rw [frontEq, ← lengthEq]
      simp [leading]
      omega
    · intro rest'
      have leadingSpaces : ∀ c ∈ leading, isSpace c = true :=
        fun c member => mem_takeWhile_imp member
      rw [frontEq]
      have body : leading ++ (name ++ (spaces ++ ['('])) ++ rest' =
          leading ++ (name ++ (spaces ++ '(' :: rest')) := by simp
      obtain ⟨first, name', nameEq⟩ := exists_cons_of_ne_nil nonempty
      have firstNotSpace : isSpace first = false :=
        headNotSpace first (by simp [nameEq])
      rw [split] at matched
      have callSame := callOpenLength_congr short sameLength allSpaces matched rest'
      simp only [pyCallOpenEnd, cons_append, if_true, body]
      rw [dropWhile_append_of_pos leadingSpaces,
        takeWhile_append_of_pos leadingSpaces, nameEq, cons_append,
        dropWhile_cons_of_neg (by simp [firstNotSpace]),
        takeWhile_cons_of_neg (by simp [firstNotSpace]),
        ← cons_append, ← nameEq, callSame]
      simp [leading]
      omega
    · rw [frontEq]
      rfl
  · simp at found

/-- No typographic quote that normalisation would replace. -/
def StraightQuotes (s : Text) : Prop := ∀ c ∈ s, normalizeQuote c = c

theorem normalizeQuote_idempotent (c : Char) :
    normalizeQuote (normalizeQuote c) = normalizeQuote c := by
  have straight : normalizeQuote '"' = '"' ∧ normalizeQuote '\'' = '\'' := by decide
  have image : normalizeQuote c = '"' ∨ normalizeQuote c = '\'' ∨ normalizeQuote c = c := by
    unfold normalizeQuote
    split <;> simp
  rcases image with double | single | same
  · rw [double, straight.1]
  · rw [single, straight.2]
  · rw [same, same]

theorem straightQuotes_of_subset (straight : StraightQuotes s)
    (subset : front ⊆ s) : StraightQuotes front :=
  fun c member => straight c (subset member)

theorem unbrace_subset (raw : Text) : unbrace raw ⊆ raw := by
  unfold unbrace
  split
  · intro c member
    exact mem_of_mem_dropLast (mem_of_mem_drop ((strip_isInfix _).subset member))
  · exact List.Subset.refl _

theorem normalizeFormulaString_straightQuotes (formula : Text) :
    StraightQuotes (normalizeFormulaString formula) := by
  have mapped : StraightQuotes ((strip formula).map normalizeQuote) := by
    intro c member
    obtain ⟨source, _, rfl⟩ := mem_map.mp member
    exact normalizeQuote_idempotent source
  have unbraced := straightQuotes_of_subset mapped (unbrace_subset _)
  unfold normalizeFormulaString
  simp only
  split
  · intro c member
    rcases mem_cons.mp member with rfl | member
    · decide
    · exact unbraced c member
  · exact unbraced

theorem normalizeFormulaString_eq_map {formula : Text}
    (head : formula.head? = some '=') (last : formula.getLast? = some ')') :
    normalizeFormulaString formula = formula.map normalizeQuote := by
  have trimmed : strip formula = formula := by
    apply strip_eq_self
    constructor
    · intro c headEq
      rw [head] at headEq
      cases headEq
      decide
    · intro c lastEq
      rw [last] at lastEq
      cases lastEq
      decide
  have equals : normalizeQuote '=' = '=' := by decide
  have unbraced : unbrace (formula.map normalizeQuote) = formula.map normalizeQuote := by
    simp [unbrace, head, equals]
  simp [normalizeFormulaString, trimmed, unbraced, head, equals]

theorem normalizeFormulaString_eq_self {formula : Text}
    (head : formula.head? = some '=') (last : formula.getLast? = some ')')
    (straight : StraightQuotes formula) :
    normalizeFormulaString formula = formula := by
  rw [normalizeFormulaString_eq_map head last, map_congr_left (g := id) straight, map_id]

end WriterAgent.Calc.Python
