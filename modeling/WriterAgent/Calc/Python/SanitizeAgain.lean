import WriterAgent.Calc.Python.CallsApart

/-!
# Sanitizing twice

A cell is sanitized at every save.  `sanitize_inline_py_code` leaves no token
that it would rewrite again if, and only if, its passes find the calls of the
text apart from each other.
-/

namespace WriterAgent.Calc.Python

open PyText PyGrammar List

/-- A match of `word\s*\(` at the place; `\b` stands before the names that start
with a letter. -/
def callOpens (isAlnum : Char → Bool) (callee : Callee) (before : Option Char) (s : Text) :
    Bool :=
  (callee = .text || !before.any (isRegexWord isAlnum)) &&
    callee.word.isPrefixOf s && (openParenLength (s.drop callee.word.length)).isSome

/-- `_LEXER_COLLISION_…_RE.search`. -/
def searchCall (isAlnum : Char → Bool) (callee : Callee) : Option Char → Text → Bool
  | _, [] => false
  | before, c :: rest =>
    callOpens isAlnum callee before (c :: rest) || searchCall isAlnum callee (some c) rest

def inlinePyCodeHasLexerCollisions (isAlnum : Char → Bool) (code : Text) : List String :=
  [(Callee.float, "float"), (.int, "int"), (.str, "str"), (.text, "calc.text")].filterMap
    fun (callee, token) => if searchCall isAlnum callee none code then some token else none

/-- One application is enough: no token is left, and a second application
changes nothing. -/
def ReachesFixedPoint (isAlnum : Char → Bool) (code : Text) : Prop :=
  inlinePyCodeHasLexerCollisions isAlnum (sanitizeInlinePyCode isAlnum code) = [] ∧
    sanitizeInlinePyCode isAlnum (sanitizeInlinePyCode isAlnum code) =
      sanitizeInlinePyCode isAlnum code

/-- Every call of `float`, `int` and `str` has a closing parenthesis. -/
def CallsClosed (isAlnum : Char → Bool) (code : Text) : Prop :=
  ∀ callee ∈ [Callee.float, .int, .str], ∀ front rest, code = front ++ rest →
    callOpens isAlnum callee (lastChar none front) rest = true →
      ∀ length ∈ openParenLength (rest.drop callee.word.length),
        (findMatchingParen rest (callee.word.length + length - 1)).isSome = true

/-- The code with `dtype=float` and the calls of `.text` replaced. -/
def readiedCode (code : Text) : Text :=
  substitute xlTextCall none 0 (replaceText "dtype=float".toList "dtype=np.float64".toList code)

variable {isAlnum : Char → Bool} {stack : List (List Callee)} {pending : List Callee}
  {before : Option Char}
variable {callee pass : Callee} {code : Text} {c : Char}

theorem Callee.eq_of_prefix {other : Callee} {s : Text} (first : callee.word <+: s)
    (second : other.word <+: s) : callee = other := by
  cases s with
  | nil => exact absurd (prefix_nil.mp first) callee.word_ne_nil
  | cons c rest =>
    have heads : ∀ callee : Callee, callee.word <+: c :: rest → callee.word.head? = some c := by
      intro callee starts
      obtain ⟨d, word, split⟩ := exists_cons_of_ne_nil callee.word_ne_nil
      rw [split] at starts ⊢
      obtain ⟨rfl, _⟩ := cons_prefix_cons.mp starts
      rfl
    have same := (heads callee first).trans (heads other second).symm
    revert same
    cases callee <;> cases other <;> decide

theorem callOpens_iff (callee : Callee) (s : Text) : callOpens isAlnum callee before s = true ↔
      calleeAt isAlnum before false s = some callee ∧
        (openParenLength (s.drop callee.word.length)).isSome = true := by
  have other : ∀ name : Callee, name ≠ callee → callee.word <+: s → ¬name.word <+: s :=
    fun name different here there => different (Callee.eq_of_prefix there here)
  rw [callOpens, Bool.and_eq_true, Bool.and_eq_true, isPrefixOf_iff_prefix]
  refine and_congr_left fun _ => ?_
  constructor
  · intro ⟨free, here⟩
    unfold calleeAt
    simp only [ isPrefixOf_iff_prefix, Bool.not_false, Bool.true_or, Bool.and_true,
      Bool.false_eq_true, if_false]
    cases callee with
    | text => rw [if_pos here]
    | float => rw [if_neg (other .text (by decide) here), if_neg (by simpa using free), if_pos here]
    | int =>
      rw [if_neg (other .text (by decide) here), if_neg (by simpa using free),
        if_neg (other .float (by decide) here), if_pos here]
    | str =>
      rw [if_neg (other .text (by decide) here), if_neg (by simpa using free),
        if_neg (other .float (by decide) here), if_neg (other .int (by decide) here),
        if_pos here]
  · intro found
    refine ⟨?_, calleeAt_starts found⟩
    by_cases text : callee = .text
    · simp [text]
    · rw [calleeAt_free text found]
      simp

theorem searchCall_false {s : Text} (absent : searchCall isAlnum callee before s = false)
    {front back : Text} (split : s = front ++ c :: back) :
    callOpens isAlnum callee (lastChar before front) (c :: back) = false := by
  induction front generalizing before s with
  | nil =>
    rw [split, nil_append, searchCall, Bool.or_eq_false_iff] at absent
    exact absent.1
  | cons d front ih =>
    rw [split, cons_append, searchCall, Bool.or_eq_false_iff] at absent
    exact ih absent.2 rfl

theorem callOpens_inside {name callee : Callee} {front back : Text} {c : Char}
    (split : name.word = front ++ c :: back) (inside : front ≠ []) (rest : Text) :
    callOpens isAlnum callee (lastChar before front) (c :: rest) = false := by
  rw [← Bool.not_eq_true, callOpens, Bool.and_eq_true, Bool.and_eq_true, isPrefixOf_iff_prefix]
  intro ⟨⟨free, starts⟩, _⟩
  by_cases text : callee = .text
  · subst text
    obtain ⟨d, front, rfl⟩ := exists_cons_of_ne_nil inside
    have member : c ∈ name.word.tail := by
      rw [split, cons_append]
      simp
    have noDot : '.' ∉ name.word.tail := by cases name <;> decide
    have dot : '.' = c := (cons_prefix_cons.mp starts).1
    exact noDot (dot ▸ member)
  · have notWord : (lastChar before front).any (isRegexWord isAlnum) = false := by
      simpa [text] using free
    exact not_name_inside text split inside rest ⟨notWord, starts⟩

theorem callOpens_of_none {s : Text} (none : calleeAt isAlnum before false s = none) :
    callOpens isAlnum callee before s = false := by
  rw [← Bool.not_eq_true, callOpens_iff, none]
  exact fun both => absurd both.1 nofun

theorem searchCall_cons_of_none {rest : Text}
    (none : calleeAt isAlnum before false (c :: rest) = none) :
    searchCall isAlnum callee before (c :: rest) = searchCall isAlnum callee (some c) rest := by
  rw [searchCall, callOpens_of_none none, Bool.false_or]

theorem searchCall_copy {callee : Callee} (piece rest : Text)
    (none : ∀ front c back, piece = front ++ c :: back →
      callOpens isAlnum callee (lastChar before front) (c :: (back ++ rest)) = false) :
    searchCall isAlnum callee before (piece ++ rest) =
      searchCall isAlnum callee (lastChar before piece) rest := by
  induction piece generalizing before with
  | nil => rfl
  | cons c piece ih =>
    have here := none [] c piece rfl
    rw [lastChar] at here
    rw [cons_append, searchCall, here]
    apply ih
    intro front d back split
    exact none (c :: front) d back (by rw [split, cons_append])

theorem searchCall_name {name : Callee} {tail : Text}
    (found : calleeAt isAlnum before false (name.word ++ tail) = some name) (callee : Callee) :
    searchCall isAlnum callee before (name.word ++ tail) =
      (decide (callee = name) && (openParenLength tail).isSome ||
        searchCall isAlnum callee (lastChar before name.word) tail) := by
  obtain ⟨c, word, split⟩ := exists_cons_of_ne_nil name.word_ne_nil
  have here : callOpens isAlnum callee before (name.word ++ tail) =
      (decide (callee = name) && (openParenLength tail).isSome) := by
    rw [Bool.eq_iff_iff, callOpens_iff, found, Option.some.injEq, Bool.and_eq_true,
      decide_eq_true_iff, @eq_comm _ name callee]
    refine and_congr_right fun same => ?_
    rw [same, drop_left]
  have behind := @searchCall_copy isAlnum (some c) callee word tail (by
    intro front d back whole
    have inside : name.word = (c :: front) ++ d :: back := by rw [split, whole, cons_append]
    exact @callOpens_inside isAlnum none name callee (c :: front) back d inside
      (cons_ne_nil c front) (back ++ tail))
  rw [split, cons_append] at here ⊢
  rw [searchCall, here, behind]
  rfl

theorem callsApart_nil_iff (empty : Known [] stack) {s : Text} :
    callsApart isAlnum [] stack pending before false 0 s = true ↔
      (pending ≠ [] → openParenLength s = none) ∧
        ∀ callee, searchCall isAlnum callee before s = false := by
  induction size : s.length using Nat.strong_induction_on generalizing s stack pending before with
  | _ size ih =>
    subst size
    cases s with
    | nil =>
      have all : stack.all List.isEmpty = true := by
        rw [all_eq_true]
        intro calls member
        rw [List.isEmpty_iff, List.eq_nil_iff_forall_not_mem]
        exact fun call inside => absurd (empty calls member call inside) (by simp)
      simp [callsApart, all, openParenLength, searchCall]
    | cons c rest =>
      cases found : calleeAt isAlnum before false (c :: rest) with
      | some name =>
        obtain ⟨tail, whole⟩ := calleeAt_starts found
        have shorter : tail.length < (c :: rest).length := by
          have positive := length_pos_of_ne_nil name.word_ne_nil
          rw [← whole, length_append]
          omega
        rw [← whole] at found ⊢
        have visible : openParenLength (name.word ++ tail) = none := by
          cases name <;> simp [Callee.word, openParenLength, isSpace]
        rw [callsApart_name found, ih tail.length shorter empty rfl]
        simp only [visible, implies_true, true_and, searchCall_name found, Bool.or_eq_false_iff,
          forall_and, ne_eq, cons_ne_nil, not_false_eq_true, forall_const]
        refine and_congr_left fun _ => ?_
        constructor
        · intro none callee
          rw [none]
          simp
        · intro all
          have here := all name
          rw [decide_eq_true rfl, Bool.true_and, ← Bool.not_eq_true,
            Option.isSome_iff_ne_none, not_not] at here
          exact here
      | none =>
        have goesOn : ∀ callee, searchCall isAlnum callee before (c :: rest) =
            searchCall isAlnum callee (some c) rest :=
          fun callee => searchCall_cons_of_none found
        simp only [goesOn]
        by_cases noParen : isParen c = false
        · rw [callsApart_other found noParen, ih rest.length (by simp) empty rfl]
          by_cases space : isSpace c = true
          · rw [if_pos space]
            unfold openParenLength
            constructor <;> intro none <;> split at none <;> simp_all
          · have visible : openParenLength (c :: rest) = none := by
              unfold openParenLength
              rw [dropWhile_cons_of_neg space]
              split
              · rename_i same
                obtain ⟨rfl, _⟩ := List.cons.inj same
                exact absurd noParen (by decide)
              · rfl
            rw [if_neg space, visible]
            simp
        · rcases isParen_cases noParen with rfl | rfl
          · rw [callsApart_open, openParenLength_open]
            have deeper : Known [] ([] :: stack) := by
              intro calls member
              rcases mem_cons.mp member with rfl | outer
              · simp
              · exact empty calls outer
            have inner := @ih rest.length (by simp) ([] :: stack) [] (some '(') deeper rest
              rfl
            simp only [takeCalls, all_nil, Bool.and_true, Bool.and_eq_true, inner, List.isEmpty_iff]
            simp
          · have outer : Known [] stack.tail :=
              fun calls member => empty calls (mem_of_mem_tail member)
            have closing : openParenLength (')' :: rest) = none := by
              simp [openParenLength, isSpace]
            rw [callsApart_close, empty.noFloat (by simp), closing,
              ih rest.length (by simp) outer rfl]
            simp

theorem isPrefixOf_newDtype (more : Text) :
    ¬"dtype=float".toList <+: "dtype=np.float64".toList ++ more := by
  intro starts
  have inNew := prefix_of_prefix_length_le starts (prefix_append _ _) (by decide)
  exact absurd inNew (by decide)

theorem dtypeFloat_absent_replaceText (code : Text) : ¬"dtype=float".toList <:+:
      replaceText "dtype=float".toList "dtype=np.float64".toList code := by
  intro occurs
  obtain ⟨image, starts, inside⟩ := infix_iff_prefix_suffix.mp occurs
  cases imageRest_of_suffix inside with
  | @copied before rest isSuffix =>
    cases rest with
    | nil => exact absurd (prefix_nil.mp starts) (by decide)
    | cons c rest =>
      by_cases here : "dtype=float".toList.isPrefixOf (c :: rest) = true
      · rw [substitute, if_pos here] at starts
        exact isPrefixOf_newDtype _ starts
      · rw [substitute_of_none (if_neg here)] at starts
        obtain ⟨first, later⟩ : 'd' = c ∧ "type=float".toList <+: _ :=
          cons_prefix_cons.mp starts
        have inText : "type=float".toList <+: rest := by
          refine prefix_of_prefix_substitute ?_ later
          intro before s length replacement found
          split at found
          · obtain ⟨_, rfl⟩ := Prod.mk.inj (Option.some.inj found)
            exact .inr ⟨'d', _, rfl, by decide⟩
          · cases found
        apply here
        rw [ isPrefixOf_iff_prefix, ← first]
        exact cons_prefix_cons.mpr ⟨rfl, inText⟩
  | @replaced before c rest replacement piece length isSuffix found ends nonempty =>
    split at found
    · obtain ⟨_, rfl⟩ := Prod.mk.inj (Option.some.inj found)
      obtain ⟨d, piece, rfl⟩ := exists_cons_of_ne_nil nonempty
      have first : 'd' = d := (cons_prefix_cons.mp starts).1
      have tails : ∀ piece ∈ "dtype=np.float64".toList.tails, piece.head? = some 'd' →
          piece = "dtype=np.float64".toList := by decide
      rw [tails (d :: piece) ((mem_tails _ _).mpr ends) (by rw [first]; rfl)] at starts
      exact isPrefixOf_newDtype _ starts
    · cases found

theorem rewrite_shape (name : pass ≠ .text) (inner : Text) :
    ∃ opens, pass.rewrite inner = opens ++ (inner ++ ')' :: pass.behind) ∧
      'd' ∉ opens ∧ 'd' ∉ pass.behind := by
  cases pass with
  | text => exact absurd rfl name
  | float => exact ⟨['('], rfl, by decide, by decide⟩
  | int => exact ⟨['(', '('], rfl, by decide, by decide⟩
  | str => exact ⟨"calc.py_str(".toList, rfl, by decide, by decide⟩

theorem dtypeFloat_in_rewrite (name : pass ≠ .text) {inner piece more : Text}
    (ends : piece <:+ pass.rewrite inner) (nonempty : piece ≠ [])
    (starts : "dtype=float".toList <+: piece ++ more) : "dtype=float".toList <:+: inner := by
  obtain ⟨opens, shape, notOpens, notBehind⟩ := rewrite_shape name inner
  obtain ⟨d, tail, rfl⟩ := exists_cons_of_ne_nil nonempty
  have first : 'd' = d := (cons_prefix_cons.mp starts).1
  subst first
  rw [shape] at ends
  rcases suffix_append_cases ends with behind | ⟨front, inOpens, some, whole⟩
  · rcases suffix_append_cases behind with closed | ⟨front, inInner, _, whole⟩
    · rcases mem_cons.mp (closed.subset mem_cons_self) with same | inBehind
      · exact absurd same (by decide)
      · exact absurd inBehind notBehind
    · rw [whole, append_assoc, cons_append, prefix_append_stop (by decide)] at starts
      exact starts.isInfix.trans inInner.isInfix
  · obtain ⟨e, front, rfl⟩ := exists_cons_of_ne_nil some
    obtain ⟨rfl, _⟩ := List.cons.inj whole
    exact absurd (inOpens.subset mem_cons_self) notOpens

theorem dtypeFloat_absent_rewrite (name : pass ≠ .text) {s : Text}
    (absent : ¬"dtype=float".toList <:+: s) :
    ¬"dtype=float".toList <:+: substitute (tokenCall isAlnum pass.word pass.rewrite) none 0 s := by
  refine not_isInfix_substitute ?_ ?_ absent
  · intro before c rest length replacement found
    obtain ⟨spaces, tail, split, _, whole | ⟨inner, after, rfl, _, rfl⟩⟩ := tokenCall_cases found
    · exact .inl whole
    · refine .inr ⟨?_, ?_⟩
      · cases pass with
        | text => exact absurd rfl name
        | float | int => exact ⟨'(', _, rfl, by decide⟩
        | str => exact ⟨'c', _, rfl, by decide⟩
      · intro piece more ends nonempty starts
        have inMatch : inner <:+: c :: rest := by
          rw [split]
          exact ⟨pass.word ++ (spaces ++ ['(']), ')' :: after, by simp⟩
        exact (dtypeFloat_in_rewrite name ends nonempty starts).trans inMatch
  · intro before
    rcases @tokenCall_scan isAlnum pass.word pass.rewrite before [] with
      ⟨none, _⟩ | ⟨_, spaces, rest, split, _⟩
    · exact none
    · exact absurd split (by simp)

theorem dtypeFloat_absent_readied (code : Text) : ¬"dtype=float".toList <:+: readiedCode code := by
  refine not_isInfix_substitute ?_ ?_ (dtypeFloat_absent_replaceText code)
  · intro before c rest length replacement found
    unfold xlTextCall at found
    split at found
    · obtain ⟨opening, _, same⟩ := Option.map_eq_some_iff.mp found
      obtain ⟨_, rfl⟩ := Prod.mk.inj same
      refine .inr ⟨⟨'.', _, rfl, by decide⟩, ?_⟩
      intro piece more ends nonempty starts
      obtain ⟨d, piece, rfl⟩ := exists_cons_of_ne_nil nonempty
      have first : 'd' = d := (cons_prefix_cons.mp starts).1
      have member := ends.subset mem_cons_self
      rw [← first] at member
      exact absurd member (by decide)
    · cases found
  · intro before
    rfl

theorem tokenCall_of_not_callOpens (name : callee ≠ .text) {s : Text}
    (absent : callOpens isAlnum callee before s = false) :
    tokenCall isAlnum callee.word callee.rewrite before s = none := by
  rcases @tokenCall_scan isAlnum callee.word callee.rewrite before s with
    ⟨none, _⟩ | ⟨free, spaces, rest, split, blank, _⟩
  · exact none
  · exfalso
    rw [← Bool.not_eq_true, callOpens_iff, split, drop_left, openParenLength_spaces blank] at absent
    exact absent ⟨calleeAt_call name free (by simp) blank rest, rfl⟩

theorem xlTextCall_none {s : Text} (absent : callOpens isAlnum .text before s = false) :
    xlTextCall before s = none := by
  unfold xlTextCall
  split
  · rename_i starts
    rw [callOpens, decide_eq_true rfl, Bool.true_or, Bool.true_and] at absent
    have here : Callee.text.word.isPrefixOf s = true := starts
    rw [here, Bool.true_and, ← Bool.not_eq_true, Option.isSome_iff_ne_none, not_not] at absent
    have opened : openParenLength (s.drop 5) = none := absent
    rw [opened, Option.map_none]
  · rfl

theorem substitute_tokenCall_self (name : callee ≠ .text) {s : Text}
    (absent : searchCall isAlnum callee none s = false) :
    substitute (tokenCall isAlnum callee.word callee.rewrite) none 0 s = s :=
  substitute_eq_self fun _ _ _ split =>
    tokenCall_of_not_callOpens name (searchCall_false absent split)

theorem sanitizeInlinePyCode_eq (code : Text) : sanitizeInlinePyCode isAlnum code =
      substitute (tokenCall isAlnum Callee.str.word Callee.str.rewrite) none 0
        (substitute (tokenCall isAlnum Callee.int.word Callee.int.rewrite) none 0
          (substitute (tokenCall isAlnum Callee.float.word Callee.float.rewrite) none 0
            (readiedCode code))) := rfl

theorem sanitizeInlinePyCode_self (dtype : ¬"dtype=float".toList <:+: code)
    (absent : ∀ callee, searchCall isAlnum callee none code = false) :
    sanitizeInlinePyCode isAlnum code = code := by
  have same : replaceText "dtype=float".toList "dtype=np.float64".toList code = code := by
    apply substitute_eq_self
    intro front c back split
    rw [if_neg]
    intro starts
    rw [ isPrefixOf_iff_prefix] at starts
    exact dtype (starts.isInfix.trans (split ▸ (suffix_append _ _).isInfix))
  have readied : readiedCode code = code := by
    rw [readiedCode, same]
    exact substitute_eq_self fun _ _ _ split =>
      xlTextCall_none (searchCall_false (absent .text) split)
  rw [sanitizeInlinePyCode_eq, readied, substitute_tokenCall_self (by decide) (absent .float),
    substitute_tokenCall_self (by decide) (absent .int),
    substitute_tokenCall_self (by decide) (absent .str)]

theorem inlinePyCodeHasLexerCollisions_eq_nil_iff (code : Text) :
    inlinePyCodeHasLexerCollisions isAlnum code = [] ↔
      ∀ callee, searchCall isAlnum callee none code = false := by
  rw [inlinePyCodeHasLexerCollisions, filterMap_eq_nil_iff]
  have named : ∀ callee, ∃ token, (callee, token) ∈
      [(Callee.float, "float"), (.int, "int"), (.str, "str"), (.text, "calc.text")] := by
    intro callee
    cases callee <;> simp
  constructor
  · intro none callee
    obtain ⟨token, member⟩ := named callee
    have nothing := none _ member
    rw [← Bool.not_eq_true]
    intro found
    cases ((if_pos found).symm.trans nothing)
  · intro none pair _
    exact if_neg (Bool.eq_false_iff.mp (none pair.1))

theorem closingOffset_filter (depth : Nat) (s : Text) :
    (closingOffset depth (s.filter isParen)).isSome = (closingOffset depth s).isSome := by
  induction s generalizing depth with
  | nil => rfl
  | cons c rest ih =>
    by_cases noParen : isParen c = false
    · rw [filter_cons_of_neg (by simpa using noParen), closingOffset_other noParen,
        Option.isSome_map, ih]
    · rw [filter_cons_of_pos (by simpa using noParen)]
      rcases isParen_cases noParen with rfl | rfl
      · rw [closingOffset, closingOffset, Option.isSome_map, Option.isSome_map, ih]
      · cases depth with
        | zero => rfl
        | succ depth => rw [closingOffset, closingOffset, Option.isSome_map, Option.isSome_map, ih]

theorem FloatsClosed.substitute {find : Option Char → Text → Option (Nat × Text)}
    (shape : ∀ before s length replacement, find before s = some (length, replacement) →
      0 < length ∧ replacement.filter isParen = (s.take length).filter isParen ∧
        ')' ∉ replacement ∧ (∃ d more, replacement = d :: more ∧ (d = '.' ∨ d = 'd')) ∧
          ∃ d more, s = d :: more ∧ (d = '.' ∨ d = 'd'))
    {s : Text} (closed : FloatsClosed s) : FloatsClosed (PyText.substitute find none 0 s) := by
  intro rest length inside starts opened
  obtain ⟨tail, rfl⟩ := starts
  have size : Callee.float.word.length = 5 := rfl
  obtain ⟨spaces, body, rfl, blank, rfl⟩ := openParenLength_cases opened
  have apart : ∀ d, d = '.' ∨ d = 'd' → d ∉ ')' :: (Callee.float.word ++ (spaces ++ ['('])) := by
    intro d isHead member
    rcases mem_cons.mp member with rfl | member
    · exact absurd isHead (by decide)
    · rcases mem_append.mp member with inWord | member
      · rcases isHead with rfl | rfl <;> exact absurd inWord (by decide)
      · rcases mem_append.mp member with inSpaces | opening
        · have space := blank d inSpaces
          rcases isHead with rfl | rfl <;> exact absurd space (by decide)
        · rcases isHead with rfl | rfl <;> exact absurd opening (by decide)
  have whole : ')' :: (Callee.float.word ++ (spaces ++ '(' :: body)) =
      (')' :: (Callee.float.word ++ (spaces ++ ['(']))) ++ body := by simp
  generalize image : ')' :: (Callee.float.word ++ (spaces ++ '(' :: body)) = later at inside
  cases imageRest_of_suffix inside with
  | @copied before rest isSuffix =>
    obtain ⟨more, rfl⟩ := @prefix_of_prefix_substitute find
      (')' :: (Callee.float.word ++ (spaces ++ ['(']))) (by
        intro before s length replacement found
        obtain ⟨_, _, _, ⟨d, more, same, isHead⟩, _⟩ := shape before s length replacement found
        exact .inr ⟨d, more, same, apart d isHead⟩) before rest
      (by rw [← image, whole]; exact prefix_append _ _)
    have copied := @substitute_copy find before
      (')' :: (Callee.float.word ++ (spaces ++ ['(']))) more (by
        intro front c back split
        rw [Option.eq_none_iff_forall_ne_some]
        intro (length, replacement) found
        obtain ⟨_, _, _, _, d, _, same, isHead⟩ := shape _ _ _ _ found
        obtain ⟨rfl, _⟩ := List.cons.inj same
        exact apart c isHead (by rw [split]; simp))
    rw [copied, whole, append_cancel_left_eq] at image
    have here := closed (Callee.float.word ++ (spaces ++ '(' :: more)) (spaces.length + 1)
      (by simpa using isSuffix) (prefix_append _ _)
    rw [← drop_drop, ← size, drop_left, openParenLength_spaces blank,
      ← drop_drop, drop_left, drop_one] at here
    rw [← drop_drop, ← size, drop_left, ← drop_drop, drop_left,
      drop_one, tail_cons, ← closingOffset_filter, image,
      filter_substitute fun before s length replacement found =>
        ⟨(shape before s length replacement found).1,
          (shape before s length replacement found).2.1⟩, closingOffset_filter]
    exact here rfl
  | @replaced before c rest replacement piece length isSuffix found ends nonempty =>
    obtain ⟨d, piece, rfl⟩ := exists_cons_of_ne_nil nonempty
    obtain ⟨rfl, _⟩ := List.cons.inj image
    obtain ⟨_, _, noClose, _⟩ := shape _ _ _ _ found
    exact absurd (ends.subset mem_cons_self) noClose

theorem FloatsClosed.of_callsClosed (closed : CallsClosed isAlnum code) : FloatsClosed code := by
  intro rest length inside starts opened
  obtain ⟨front, split⟩ := inside
  have behind : lastChar none (front ++ [')']) = some ')' := by
    rw [lastChar_append]
    rfl
  have notWord : isRegexWord isAlnum ')' = false := by
    simp [isRegexWord]
    decide
  have size : Callee.float.word.length = 5 := rfl
  have here : callOpens isAlnum .float (lastChar none (front ++ [')'])) rest = true := by
    rw [behind, callOpens, isPrefixOf_iff_prefix.mpr starts, size, opened]
    rfl
  have closes := closed .float (by simp) (front ++ [')']) rest (by simp [split]) here length opened
  rw [findMatchingParen, Option.isSome_map] at closes
  obtain ⟨_, _, _, _, rfl⟩ := openParenLength_cases opened
  exact closes

theorem FloatsClosed.readied (closed : FloatsClosed code) : FloatsClosed (readiedCode code) := by
  refine FloatsClosed.substitute ?_ (FloatsClosed.substitute ?_ closed)
  · intro before s length replacement found
    unfold xlTextCall at found
    split at found
    · rename_i starts
      obtain ⟨opening, opened, same⟩ := Option.map_eq_some_iff.mp found
      obtain ⟨rfl, rfl⟩ := Prod.mk.inj same
      obtain ⟨tail, rfl⟩ := isPrefixOf_iff_prefix.mp starts
      have size : ".text".toList.length = 5 := rfl
      obtain ⟨spaces, rest, rfl, blank, rfl⟩ := openParenLength_cases opened
      have noParen : spaces.filter isParen = [] := by
        rw [filter_eq_nil_iff]
        intro c member
        rw [isParen_of_isSpace (blank c member)]
        exact Bool.false_ne_true
      refine ⟨by omega, ?_, by decide, ⟨'.', _, rfl, .inl rfl⟩, ⟨'.', _, rfl, .inl rfl⟩⟩
      have taken : (".text".toList ++ (spaces ++ '(' :: rest)).take (5 + (spaces.length + 1)) =
          ".text".toList ++ (spaces ++ ['(']) := by
        have whole : ".text".toList ++ (spaces ++ '(' :: rest) =
            (".text".toList ++ (spaces ++ ['('])) ++ rest := by simp
        have length : 5 + (spaces.length + 1) = (".text".toList ++ (spaces ++ ['('])).length := by
          rw [length_append, length_append]
          rfl
        rw [whole, length, take_left]
      rw [taken, filter_append, filter_append, noParen]
      decide
    · cases found
  · intro before s length replacement found
    split at found
    · rename_i starts
      obtain ⟨rfl, rfl⟩ := Prod.mk.inj (Option.some.inj found)
      obtain ⟨tail, rfl⟩ := isPrefixOf_iff_prefix.mp starts
      refine ⟨by decide, ?_, by decide, ⟨'d', _, rfl, .inr rfl⟩, ⟨'d', _, rfl, .inr rfl⟩⟩
      rw [take_left]
      decide
    · cases found

/-- **Sanitizing once is enough exactly where the calls are apart.** -/
theorem sanitizeInlinePyCode_reachesFixedPoint_iff {code : Text}
    (closed : CallsClosed isAlnum code) :
    ReachesFixedPoint isAlnum code ↔
      callsApart isAlnum [.float, .int, .str] [] [] none false 0 (readiedCode code) = true := by
  have noCalls : ∀ passes, Known passes [] := fun passes calls member =>
    absurd member not_mem_nil
  have afterFloat := @callsApart_pass isAlnum [.int, .str] [] [] none false .float (by decide)
    (by decide) (by decide) (noCalls _) (readiedCode code) (by simp)
    (fun _ => (FloatsClosed.of_callsClosed closed).readied) (by simp)
  have afterInt := fun s => @callsApart_pass isAlnum [.str] [] [] none false .int (by decide)
    (by decide) (by decide) (noCalls _) s (by simp) nofun (by simp)
  have afterStr := fun s => @callsApart_pass isAlnum [] [] [] none false .str (by decide)
    (by decide) (by decide) (noCalls _) s (by simp) nofun (by simp)
  rw [if_neg Bool.false_ne_true] at afterFloat
  simp only [Bool.false_eq_true, if_false] at afterInt afterStr
  rw [afterFloat, afterInt, afterStr, callsApart_nil_iff (noCalls []), ReachesFixedPoint,
    inlinePyCodeHasLexerCollisions_eq_nil_iff]
  constructor
  · intro ⟨absent, _⟩
    exact ⟨by simp, absent⟩
  · intro ⟨_, absent⟩
    refine ⟨absent, sanitizeInlinePyCode_self ?_ absent⟩
    rw [sanitizeInlinePyCode_eq]
    exact dtypeFloat_absent_rewrite (by decide) (dtypeFloat_absent_rewrite (by decide)
      (dtypeFloat_absent_rewrite (by decide) (dtypeFloat_absent_readied code)))

theorem callsClosed_iff (code : Text) : CallsClosed isAlnum code ↔
      ∀ callee ∈ [Callee.float, .int, .str], ∀ idx ∈ List.range (code.length + 1),
        callOpens isAlnum callee (lastChar none (code.take idx)) (code.drop idx) = true →
          ∀ length ∈ openParenLength ((code.drop idx).drop callee.word.length),
            (findMatchingParen (code.drop idx)
              (callee.word.length + length - 1)).isSome = true := by
  refine forall₂_congr fun callee _ => ?_
  constructor
  · intro closed idx _
    exact closed _ _ (take_append_drop idx code).symm
  · intro closed front rest split
    have here := closed front.length (by rw [split, mem_range, length_append]; omega)
    rwa [split, take_left, drop_left] at here

instance (code : Text) : Decidable (CallsClosed isAlnum code) :=
  decidable_of_iff' _ (callsClosed_iff code)

/-- A call of `int` inside a call of `float`. -/
def floatOfInt : Text := "2*float(int(x)-1)".toList

theorem floatOfInt_reachesFixedPoint : ReachesFixedPoint (fun _ => false) floatOfInt :=
  (sanitizeInlinePyCode_reachesFixedPoint_iff (by decide +kernel)).mpr (by decide +kernel)

/-- A call of `float` inside a call of `float`. -/
def floatOfFloat : Text := "float(float(x))".toList

/-- The inner call stays, and a second application rewrites it. -/
theorem floatOfFloat_again : CallsClosed (fun _ => false) floatOfFloat ∧
      ¬ReachesFixedPoint (fun _ => false) floatOfFloat := by
  constructor
  · decide +kernel
  · intro fixed
    have absent := fixed.1
    revert absent
    decide +kernel

end WriterAgent.Calc.Python
