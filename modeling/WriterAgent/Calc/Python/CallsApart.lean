import WriterAgent.Calc.Python.SanitizeTokens

/-!
# Calls that one rewrite reaches

Each pass of `sanitize_inline_py_code` copies the arguments of the calls it
replaces, and no pass comes back.  `callsApart` reads a text once and keeps, for
every open parenthesis, the passes that turn it into something else.
-/

namespace WriterAgent.Calc.Python

open PyText PyGrammar List Bool

/-- The names looked for. -/
inductive Callee where
  | float
  | int
  | str
  | text
  deriving DecidableEq

def Callee.word : Callee → Text
  | .float => "float".toList
  | .int => "int".toList
  | .str => "str".toList
  | .text => ".text".toList

def Callee.rewrite : Callee → Text → Text
  | .float => rewriteFloat
  | .int => rewriteInt
  | .str => rewriteStr
  | .text => fun inner => ".fmt(".toList ++ (inner ++ [')'])

/-- The name that starts here.  Directly behind a call of `float` (`hidden`) the
rewrite writes a `0`, and a word there is only found by the pass for `float`
itself. -/
def calleeAt (isAlnum : Char → Bool) (before : Option Char) (hidden : Bool) (s : Text) :
    Option Callee :=
  if Callee.text.word.isPrefixOf s then some .text
  else if before.any (isRegexWord isAlnum) then none
  else if Callee.float.word.isPrefixOf s &&
      (!hidden || (openParenLength (s.drop 5)).isSome) then some .float
  else if hidden then none
  else if Callee.int.word.isPrefixOf s then some .int
  else if Callee.str.word.isPrefixOf s then some .str
  else none

/-- The passes that find a call where the pending names stand before a
parenthesis, the nearest name first, and the names left before it. -/
def takeCalls : List Callee → List Callee → List Callee × List Callee
  | [], pending => ([], pending)
  | pass :: passes, pending =>
    if pending.head? = some pass then
      let (calls, left) := takeCalls passes (if pass = .str then [] else pending.tail)
      (pass :: calls, left)
    else takeCalls passes pending

/-- No call is left behind by the passes.  The stack holds the calls that each
open parenthesis belongs to, and `pending` the names right before the place. -/
def callsApart (isAlnum : Char → Bool) (passes : List Callee) :
    List (List Callee) → List Callee → Option Char → Bool → Nat → Text → Bool
  | stack, _, _, _, _, [] => stack.all List.isEmpty
  | stack, pending, _, _, skip + 1, c :: rest =>
    callsApart isAlnum passes stack pending (some c) false skip rest
  | stack, pending, before, hidden, 0, c :: rest =>
    match calleeAt isAlnum before hidden (c :: rest) with
    | some callee =>
      callsApart isAlnum passes stack (callee :: pending) (some c) false
        (callee.word.length - 1) rest
    | none =>
      if c = '(' then
        let (calls, left) := takeCalls passes pending
        left.isEmpty && calls.all (fun call => stack.all (!·.contains call)) &&
          callsApart isAlnum passes (calls :: stack) [] (some c) false 0 rest
      else if c = ')' then
        callsApart isAlnum passes stack.tail [] (some c) ((stack.headD []).contains .float) 0 rest
      else
        callsApart isAlnum passes stack (if isSpace c then pending else []) (some c) false 0 rest

variable {isAlnum : Char → Bool} {passes : List Callee} {stack : List (List Callee)}
  {pending : List Callee} {before : Option Char} {hidden : Bool}
variable {c : Char} {pass callee : Callee} {spaces s back rest front tail body : Text}

theorem Callee.word_ne_nil (callee : Callee) : callee.word ≠ [] := by
  cases callee <;> decide

theorem Callee.word_noParen (callee : Callee) : ∀ c ∈ callee.word, isParen c = false := by
  cases callee <;> decide

theorem Callee.word_noSpace (callee : Callee) : ∀ c ∈ callee.word, isSpace c = false := by
  cases callee <;> decide

theorem calleeAt_starts (found : calleeAt isAlnum before hidden s = some callee) :
    callee.word <+: s := by
  unfold calleeAt at found
  simp only [ isPrefixOf_iff_prefix, and_eq_true] at found
  split at found
  · next starts => exact Option.some.inj found ▸ starts
  · split at found
    · cases found
    · split at found
      · next starts => exact Option.some.inj found ▸ starts.1
      · split at found
        · cases found
        · split at found
          · next starts => exact Option.some.inj found ▸ starts
          · split at found
            · next starts => exact Option.some.inj found ▸ starts
            · cases found

theorem calleeAt_of_notMem (absent : ∀ callee : Callee, c ∉ callee.word) (rest : Text) :
    calleeAt isAlnum before hidden (c :: rest) = none := by
  rw [Option.eq_none_iff_forall_ne_some]
  intro callee found
  obtain ⟨d, word, split⟩ := exists_cons_of_ne_nil callee.word_ne_nil
  have starts := calleeAt_starts found
  rw [split] at starts
  obtain ⟨rfl, _⟩ := cons_prefix_cons.mp starts
  exact absent callee (split ▸ mem_cons_self)

theorem calleeAt_paren (paren : isParen c = true) (rest : Text) :
    calleeAt isAlnum before hidden (c :: rest) = none := by
  apply calleeAt_of_notMem
  intro callee member
  rw [callee.word_noParen c member] at paren
  cases paren

theorem calleeAt_space (space : isSpace c = true) (rest : Text) :
    calleeAt isAlnum before hidden (c :: rest) = none := by
  apply calleeAt_of_notMem
  intro callee member
  rw [callee.word_noSpace c member] at space
  cases space

theorem callsApart_skip (front back : Text) :
    callsApart isAlnum passes stack pending before hidden front.length (front ++ back) =
      callsApart isAlnum passes stack pending (lastChar before front)
        (front.isEmpty && hidden) 0 back := by
  induction front generalizing before hidden with
  | nil => rfl
  | cons c front ih =>
    have later := @ih (some c) false
    rw [Bool.and_false] at later
    exact later

theorem callsApart_name
    (found : calleeAt isAlnum before hidden (callee.word ++ back) = some callee) :
    callsApart isAlnum passes stack pending before hidden 0 (callee.word ++ back) =
      callsApart isAlnum passes stack (callee :: pending) (lastChar before callee.word)
        false 0 back := by
  obtain ⟨c, word, split⟩ := exists_cons_of_ne_nil callee.word_ne_nil
  rw [split, cons_append] at found ⊢
  have size : callee.word.length - 1 = word.length := by rw [split]; rfl
  have skipped := @callsApart_skip isAlnum passes stack (callee :: pending) (some c) false word back
  rw [Bool.and_false] at skipped
  rw [callsApart, found]
  dsimp only
  rw [size, skipped]
  rfl

theorem callsApart_open (rest : Text) :
    callsApart isAlnum passes stack pending before hidden 0 ('(' :: rest) =
      ((takeCalls passes pending).2.isEmpty &&
        (takeCalls passes pending).1.all (fun call => stack.all (!·.contains call)) &&
        callsApart isAlnum passes ((takeCalls passes pending).1 :: stack) [] (some '(')
          false 0 rest) := by
  rw [callsApart, calleeAt_paren rfl]
  rfl

theorem callsApart_close (rest : Text) :
    callsApart isAlnum passes stack pending before hidden 0 (')' :: rest) =
      callsApart isAlnum passes stack.tail [] (some ')')
        ((stack.headD []).contains .float) 0 rest := by
  rw [callsApart, calleeAt_paren rfl]
  rfl

theorem callsApart_other (none : calleeAt isAlnum before hidden (c :: rest) = none)
    (noParen : isParen c = false) :
    callsApart isAlnum passes stack pending before hidden 0 (c :: rest) =
      callsApart isAlnum passes stack (if isSpace c then pending else []) (some c)
        false 0 rest := by
  have notOpen : c ≠ '(' := by
    intro same
    rw [same] at noParen
    exact absurd noParen (by decide)
  have notClose : c ≠ ')' := by
    intro same
    rw [same] at noParen
    exact absurd noParen (by decide)
  rw [callsApart, none]
  rw [if_neg notOpen, if_neg notClose]

theorem isParen_of_isSpace (space : isSpace c = true) : isParen c = false := by
  rw [isParen, or_eq_false_iff, beq_eq_false_iff_ne, beq_eq_false_iff_ne]
  constructor
  · intro same
    rw [same] at space
    exact absurd space (by decide)
  · intro same
    rw [same] at space
    exact absurd space (by decide)

theorem callsApart_spaces (blank : ∀ c ∈ spaces, isSpace c = true) (back : Text) :
    callsApart isAlnum passes stack pending before false 0 (spaces ++ back) =
      callsApart isAlnum passes stack pending (lastChar before spaces) false 0 back := by
  induction spaces generalizing before with
  | nil => rfl
  | cons c spaces ih =>
    have space := blank c mem_cons_self
    rw [cons_append,
      callsApart_other (calleeAt_space space _) (isParen_of_isSpace space), if_pos space,
      ih fun d member => blank d (mem_cons_of_mem _ member)]
    rfl

theorem takeCalls_subset (passes pending : List Callee) :
    ∀ call ∈ (takeCalls passes pending).1, call ∈ passes := by
  induction passes generalizing pending with
  | nil => simp [takeCalls]
  | cons pass passes ih =>
    intro call member
    rw [takeCalls] at member
    split at member
    · rcases mem_cons.mp member with rfl | later
      · exact mem_cons_self
      · exact mem_cons_of_mem _ (ih _ call later)
    · exact mem_cons_of_mem _ (ih _ call member)

theorem takeCalls_of_ne (other : pending.head? ≠ some pass) :
    takeCalls (pass :: passes) pending = takeCalls passes pending := by
  rw [takeCalls, if_neg other]

theorem takeCalls_self (pass : Callee) (passes pending : List Callee) :
    takeCalls (pass :: passes) (pass :: pending) =
      (pass :: (takeCalls passes (if pass = .str then [] else pending)).1,
        (takeCalls passes (if pass = .str then [] else pending)).2) := by
  exact if_pos rfl

theorem takeCalls_of_notMem (absent : callee ∉ passes) :
    takeCalls passes (callee :: pending) = ([], callee :: pending) := by
  induction passes with
  | nil => rfl
  | cons pass passes ih =>
    have other : (callee :: pending).head? ≠ some pass := by
      intro same
      exact absent (mem_cons.mpr (.inl (Option.some.inj same)))
    rw [takeCalls_of_ne other, ih fun member => absent (mem_cons_of_mem _ member)]

theorem takeCalls_nil (passes : List Callee) : takeCalls passes [] = ([], []) := by
  induction passes with
  | nil => rfl
  | cons pass passes ih => rw [takeCalls_of_ne (by simp), ih]

theorem closingOffset_other (noParen : isParen c = false) (depth : Nat) (rest : Text) :
    closingOffset depth (c :: rest) = (closingOffset depth rest).map (· + 1) := by
  have skipped := @closingOffset_skip [c] (by simpa using noParen) depth rest
  exact skipped

theorem isParen_cases (other : isParen c ≠ false) : c = '(' ∨ c = ')' := by
  rwa [isParen, ne_eq, not_eq_false, or_eq_true, beq_iff_eq, beq_iff_eq] at other

theorem noParen_of_calleeAt (found : calleeAt isAlnum before hidden (c :: rest) = some callee) :
    isParen c = false ∧ callee.word.length - 1 ≤ rest.length ∧
      ∀ d ∈ rest.take (callee.word.length - 1), isParen d = false := by
  obtain ⟨e, word, split⟩ := exists_cons_of_ne_nil callee.word_ne_nil
  have noParen := callee.word_noParen
  have starts := calleeAt_starts found
  rw [split] at starts noParen ⊢
  obtain ⟨rfl, tail, rfl⟩ := cons_prefix_cons.mp starts
  refine ⟨noParen e mem_cons_self, by simp, ?_⟩
  intro d member
  rw [length_cons, Nat.add_sub_cancel, take_left] at member
  exact noParen d (mem_cons_of_mem _ member)

theorem callsApart_unclosed {tops : List (List Callee)} {calls : List Callee}
    (some : calls ≠ []) {s : Text} (unclosed : closingOffset tops.length s = none) {skip : Nat}
    (inWord : ∀ c ∈ s.take skip, isParen c = false) :
    callsApart isAlnum passes (tops ++ calls :: stack) pending before hidden skip s = false := by
  induction s generalizing tops pending before hidden skip with
  | nil =>
    have empty : (tops ++ calls :: stack).all List.isEmpty = false := by simp [some]
    rw [callsApart, empty]
  | cons c rest ih =>
    have deeper : isParen c = false → closingOffset tops.length rest = none := by
      intro noParen
      rwa [closingOffset_other noParen, Option.map_eq_none_iff] at unclosed
    cases skip with
    | succ skip =>
      exact ih (deeper (inWord c mem_cons_self)) fun d member => inWord d (mem_cons_of_mem _ member)
    | zero =>
      cases found : calleeAt isAlnum before hidden (c :: rest) with
      | some callee =>
        obtain ⟨noParen, _, later⟩ := noParen_of_calleeAt found
        rw [callsApart, found]
        exact ih (deeper noParen) later
      | none =>
        by_cases noParen : isParen c = false
        · rw [callsApart_other found noParen]
          exact ih (deeper noParen) (by simp)
        · rcases isParen_cases noParen with rfl | rfl
          · rw [closingOffset, Option.map_eq_none_iff] at unclosed
            rw [callsApart_open, ← cons_append,
              ih (show closingOffset (_ :: tops).length rest = none from unclosed)
                (by simp), Bool.and_false]
          · cases tops with
            | nil => cases unclosed
            | cons top tops =>
              rw [length_cons, closingOffset, Option.map_eq_none_iff] at unclosed
              rw [callsApart_close]
              exact ih unclosed (by simp)

theorem prefix_append_stop {word : Text} {stop : Char} (absent : stop ∉ word) :
    word <+: front ++ stop :: back ↔ word <+: front := by
  constructor
  · intro ⟨tail, split⟩
    rcases append_eq_append_iff.mp split with ⟨more, inside, _⟩ | ⟨more, inside, beyond⟩
    · exact ⟨more, inside.symm⟩
    · cases more with
      | nil => exact ⟨[], by rw [append_nil] at inside ⊢; exact inside⟩
      | cons d more =>
        obtain ⟨rfl, _⟩ := List.cons.inj beyond
        exact absurd (inside ▸ by simp) absent
  · exact fun inside => inside.trans (prefix_append _ _)

theorem openParenLength_append_stop {stop : Char} (noSpace : isSpace stop = false)
    (notOpen : stop ≠ '(') (front back back' : Text) :
    (openParenLength (front ++ stop :: back)).isSome =
      (openParenLength (front ++ stop :: back')).isSome := by
  unfold openParenLength
  induction front with
  | nil => simp [noSpace, notOpen]
  | cons c front ih =>
    by_cases space : isSpace c = true
    · split <;> split <;> simp_all
    · split <;> simp_all

theorem calleeAt_append_close (front back back' : Text) :
    calleeAt isAlnum before hidden (front ++ ')' :: back) =
      calleeAt isAlnum before hidden (front ++ ')' :: back') := by
  have same : ∀ callee : Callee, callee.word.isPrefixOf (front ++ ')' :: back) =
      callee.word.isPrefixOf (front ++ ')' :: back') := by
    intro callee
    have absent : ')' ∉ callee.word := fun member =>
      absurd (callee.word_noParen _ member) (by decide)
    rw [Bool.eq_iff_iff, isPrefixOf_iff_prefix, isPrefixOf_iff_prefix,
      prefix_append_stop absent, prefix_append_stop absent]
  have opened : (Callee.float.word.isPrefixOf (front ++ ')' :: back) &&
        (!hidden || (openParenLength ((front ++ ')' :: back).drop 5)).isSome)) =
      (Callee.float.word.isPrefixOf (front ++ ')' :: back') &&
        (!hidden || (openParenLength ((front ++ ')' :: back').drop 5)).isSome)) := by
    rw [same]
    cases starts : Callee.float.word.isPrefixOf (front ++ ')' :: back') with
    | false => rfl
    | true =>
      rw [ isPrefixOf_iff_prefix, prefix_append_stop (by decide)] at starts
      obtain ⟨tail, rfl⟩ := starts
      have dropped : ∀ more, (Callee.float.word ++ tail ++ ')' :: more).drop 5 =
          tail ++ ')' :: more := fun more => rfl
      rw [dropped, dropped, openParenLength_append_stop rfl (by decide) tail back back']
  unfold calleeAt
  rw [opened, same, same, same]

theorem callsApart_inner {pass : Callee} (absent : pass ∉ passes)
    {labels : List Callee} {extra : List (List Callee)} (empty : ∀ calls ∈ extra, calls = [])
    {back back' : Text}
    (goesOn : ∀ pending before hidden,
      callsApart isAlnum (pass :: passes) ((pass :: labels) :: stack) pending before hidden 0
          (')' :: back) =
        callsApart isAlnum passes (extra ++ labels :: stack) pending before hidden 0 (')' :: back'))
    {tops : List (List Callee)} {inner : Text}
    (closing : closingOffset tops.length (inner ++ ')' :: back) = some inner.length)
    {skip : Nat} (within : skip ≤ inner.length)
    (inWord : ∀ c ∈ inner.take skip, isParen c = false) :
    callsApart isAlnum (pass :: passes) (tops ++ (pass :: labels) :: stack) pending before
        hidden skip (inner ++ ')' :: back) =
      callsApart isAlnum passes (tops ++ (extra ++ labels :: stack)) pending before
        hidden skip (inner ++ ')' :: back') := by
  induction inner generalizing tops pending before hidden skip with
  | nil =>
    obtain rfl : skip = 0 := Nat.le_zero.mp within
    cases tops with
    | nil => exact goesOn pending before hidden
    | cons top tops => simp [closingOffset] at closing
  | cons c inner ih =>
    rw [cons_append, cons_append]
    rw [cons_append] at closing
    have deeper : isParen c = false →
        closingOffset tops.length (inner ++ ')' :: back) = some inner.length := by
      intro noParen
      rw [closingOffset_other noParen] at closing
      simpa using closing
    cases skip with
    | succ skip =>
      exact ih (deeper (inWord c mem_cons_self)) (Nat.le_of_succ_le_succ within)
        fun d member => inWord d (mem_cons_of_mem _ member)
    | zero =>
      have same := @calleeAt_append_close isAlnum before hidden (c :: inner) back back'
      rw [cons_append, cons_append] at same
      cases found : calleeAt isAlnum before hidden (c :: (inner ++ ')' :: back)) with
      | some callee =>
        have starts := calleeAt_starts found
        rw [← cons_append, prefix_append_stop fun member =>
          absurd (callee.word_noParen _ member) (by decide)] at starts
        obtain ⟨noParen, _, later⟩ := noParen_of_calleeAt found
        have short : callee.word.length - 1 ≤ inner.length := by
          have whole := starts.length_le
          rw [length_cons] at whole
          omega
        rw [take_append_of_le_length short] at later
        rw [callsApart, callsApart, ← same, found]
        exact ih (deeper noParen) short later
      | none =>
        rw [found] at same
        by_cases noParen : isParen c = false
        · rw [callsApart_other found noParen, callsApart_other same.symm noParen]
          exact ih (deeper noParen) (Nat.zero_le _) (by simp)
        · rcases isParen_cases noParen with rfl | rfl
          · rw [closingOffset] at closing
            have inside : closingOffset (tops.length + 1) (inner ++ ')' :: back) =
                some inner.length := by simpa using closing
            rw [callsApart_open, callsApart_open]
            by_cases again : pending.head? = some pass
            · -- a call of the replaced name: neither reading gets past it
              obtain ⟨later, rfl⟩ : ∃ later, pending = pass :: later := by
                cases pending with
                | nil => cases again
                | cons callee later => exact ⟨later, by rw [Option.some.inj again]⟩
              rw [takeCalls_of_notMem absent, takeCalls_self]
              simp
            · have untouched : ∀ call ∈ (takeCalls passes pending).1,
                  ((tops ++ (pass :: labels) :: stack).all (!·.contains call)) =
                    ((tops ++ (extra ++ labels :: stack)).all (!·.contains call)) := by
                intro call member
                have other : call ≠ pass := by
                  rintro rfl
                  exact absent (takeCalls_subset passes pending call member)
                have nothing : extra.all (!·.contains call) = true := by
                  rw [all_eq_true]
                  intro calls inExtra
                  rw [empty calls inExtra]
                  rfl
                rw [all_append, all_append, all_append, nothing, all_cons]
                simp [other]
              have checked : (takeCalls passes pending).1.all (fun call =>
                    (tops ++ (pass :: labels) :: stack).all (!·.contains call)) =
                  (takeCalls passes pending).1.all (fun call =>
                    (tops ++ (extra ++ labels :: stack)).all (!·.contains call)) := by
                rw [Bool.eq_iff_iff, all_eq_true, all_eq_true]
                exact forall₂_congr fun call member => by rw [untouched call member]
              rw [takeCalls_of_ne again, checked, ← cons_append, ← cons_append,
                ih (show closingOffset (_ :: tops).length (inner ++ ')' :: back) =
                  some inner.length from inside) (Nat.zero_le _) (by simp)]
          · cases tops with
            | nil => simp [closingOffset] at closing
            | cons top tops =>
              have outside : closingOffset tops.length (inner ++ ')' :: back) =
                  some inner.length := by simpa [closingOffset] using closing
              rw [callsApart_close, callsApart_close]
              exact ih outside (Nat.zero_le _) (by simp)

theorem openParenLength_open (rest : Text) : openParenLength ('(' :: rest) = some 1 := by
  have stop : isSpace '(' = false := by decide
  simp [openParenLength, stop]

theorem openParenLength_spaces (blank : ∀ c ∈ spaces, isSpace c = true) (rest : Text) :
    openParenLength (spaces ++ '(' :: rest) = some (spaces.length + 1) := by
  have ends : ('(' :: rest).head?.any isSpace = false := rfl
  obtain ⟨taken, dropped⟩ := takeWhile_append_of_all blank ends
  simp only [openParenLength, taken, dropped]

theorem openParenLength_space (space : isSpace c = true)
    (absent : openParenLength (c :: rest) = none) : openParenLength rest = none := by
  unfold openParenLength at absent ⊢
  rw [dropWhile_cons_of_pos space] at absent
  split at absent
  · cases absent
  · rfl

theorem calleeAt_free (name : callee ≠ .text)
    (found : calleeAt isAlnum before hidden s = some callee) :
    before.any (isRegexWord isAlnum) = false := by
  unfold calleeAt at found
  split at found
  · exact absurd (Option.some.inj found).symm name
  · split at found
    · cases found
    · next free => exact not_eq_true _ ▸ free

theorem calleeAt_call (name : pass ≠ .text) (free : before.any (isRegexWord isAlnum) = false)
    (hides : hidden = true → pass = .float) (blank : ∀ c ∈ spaces, isSpace c = true) (rest : Text) :
    calleeAt isAlnum before hidden (pass.word ++ (spaces ++ '(' :: rest)) = some pass := by
  have opened := openParenLength_spaces blank rest
  cases pass with
  | text => exact absurd rfl name
  | float =>
    have dropped : (Callee.float.word ++ (spaces ++ '(' :: rest)).drop 5 =
        spaces ++ '(' :: rest := rfl
    unfold calleeAt
    rw [dropped, opened, free]
    simp [Callee.word]
  | int | str =>
    obtain rfl : hidden = false := by
      cases hidden with
      | false => rfl
      | true => exact absurd (hides rfl) (by decide)
    unfold calleeAt
    rw [free]
    simp [Callee.word]

theorem lastChar_eq_of_ne_nil {piece : Text} (nonempty : piece ≠ [])
    (before before' : Option Char) : lastChar before piece = lastChar before' piece := by
  cases piece with
  | nil => exact absurd rfl nonempty
  | cons c rest => rfl

theorem isRegexWord_of_isAsciiLetter (letter : isAsciiLetter c = true) :
    isRegexWord isAlnum c = true := by
  simp [isRegexWord, letter]

theorem Callee.word_letters (name : callee ≠ .text) :
    ∀ c ∈ callee.word, isAsciiLetter c = true := by
  cases callee with
  | text => exact absurd rfl name
  | float | int | str => decide

section

variable (name : pass ≠ .text)

include name

theorem Callee.head?_notMem_text : ∀ c ∈ Callee.text.word.tail, pass.word.head? ≠ some c := by
  cases pass with
  | text => exact absurd rfl name
  | float | int | str => decide

theorem not_name_inside (split : callee.word = front ++ c :: back) (inside : front ≠ [])
    (rest : Text) :
    ¬((lastChar before front).any (isRegexWord isAlnum) = false ∧ pass.word <+: c :: rest) := by
  intro ⟨free, starts⟩
  by_cases isText : callee = .text
  · subst isText
    obtain ⟨d, front, rfl⟩ := exists_cons_of_ne_nil inside
    have member : c ∈ Callee.text.word.tail := by
      rw [split, cons_append]
      simp
    obtain ⟨e, word, shape⟩ := exists_cons_of_ne_nil pass.word_ne_nil
    rw [shape] at starts
    obtain ⟨rfl, _⟩ := cons_prefix_cons.mp starts
    exact Callee.head?_notMem_text name e member (by rw [shape]; rfl)
  · obtain ⟨last, member, same⟩ := lastChar_mem before inside
    have letter := Callee.word_letters isText last (by rw [split]; exact mem_append_left _ member)
    rw [same, Option.any_some, isRegexWord_of_isAsciiLetter letter] at free
    cases free

theorem tokenCall_inside (split : callee.word = front ++ c :: back) (inside : front ≠ [])
    (rest : Text) :
    tokenCall isAlnum pass.word pass.rewrite (lastChar before front) (c :: rest) = none := by
  rcases @tokenCall_scan isAlnum pass.word pass.rewrite (lastChar before front) (c :: rest) with
    ⟨none, _⟩ | ⟨free, spaces, tail, whole, _⟩
  · exact none
  · exact absurd ⟨free, whole ▸ prefix_append _ _⟩ (not_name_inside name split inside rest)

theorem substitute_name
    (nothing : tokenCall isAlnum pass.word pass.rewrite before (callee.word ++ tail) = none) :
    substitute (tokenCall isAlnum pass.word pass.rewrite) before 0 (callee.word ++ tail) =
      callee.word ++ substitute (tokenCall isAlnum pass.word pass.rewrite)
        (lastChar before callee.word) 0 tail := by
  apply substitute_copy
  intro front c back split
  cases front with
  | nil => rwa [split, nil_append] at nothing
  | cons d front => exact tokenCall_inside name split (cons_ne_nil d front) _

theorem rewrite_head (callee : Callee) (inner : Text) :
    ∃ d more, pass.rewrite inner = d :: more ∧ d ∉ callee.word := by
  have apart : '(' ∉ callee.word ∧ 'c' ∉ callee.word := by cases callee <;> decide
  cases pass with
  | text => exact absurd rfl name
  | float | int => exact ⟨'(', _, rfl, apart.1⟩
  | str => exact ⟨'c', _, rfl, apart.2⟩

theorem word_prefix_substitute (callee : Callee) (starts : callee.word <+:
      substitute (tokenCall isAlnum pass.word pass.rewrite) before 0 s) : callee.word <+: s := by
  refine prefix_of_prefix_substitute ?_ starts
  intro before s length replacement found
  obtain ⟨spaces, rest, _, _, whole | ⟨inner, _, _, _, rfl⟩⟩ := tokenCall_cases found
  · exact .inl whole
  · exact .inr (rewrite_head name callee inner)

end

theorem calleeAt_substitute {pass : Callee} (name : pass ≠ .text)
    (hides : hidden = true → pass = .float ∧ before = some ')') {s : Text}
    (nothing : tokenCall isAlnum pass.word pass.rewrite before s = none)
    (unopened : before.any (isRegexWord isAlnum) = false → pass.word <+: s →
      openParenLength (s.drop pass.word.length) = none) :
    calleeAt isAlnum (if hidden then some '0' else before) false
        (substitute (tokenCall isAlnum pass.word pass.rewrite) before 0 s) =
      calleeAt isAlnum before hidden s := by
  have same : ∀ callee : Callee, callee.word.isPrefixOf
        (substitute (tokenCall isAlnum pass.word pass.rewrite) before 0 s) =
      callee.word.isPrefixOf s := by
    intro callee
    rw [Bool.eq_iff_iff, isPrefixOf_iff_prefix, isPrefixOf_iff_prefix]
    constructor
    · exact word_prefix_substitute name callee
    · intro ⟨tail, split⟩
      subst split
      rw [substitute_name name nothing]
      exact prefix_append _ _
  cases hidden with
  | false =>
    unfold calleeAt
    simp only [same, Bool.false_eq_true, if_false, Bool.not_false, Bool.true_or, Bool.and_true]
  | true =>
    obtain ⟨rfl, rfl⟩ := hides rfl
    have wordZero : isRegexWord isAlnum '0' = true := by
      have digit : isAsciiDigit '0' = true := by decide
      simp [isRegexWord, digit]
    have closed : (Callee.float.word.isPrefixOf s &&
        (openParenLength (s.drop 5)).isSome) = false := by
      rw [and_eq_false_iff, ← not_eq_true, isPrefixOf_iff_prefix]
      by_cases free : (some ')').any (isRegexWord isAlnum) = false
      · by_cases starts : Callee.float.word <+: s
        · have none := unopened free starts
          rw [show Callee.float.word.length = 5 from rfl] at none
          exact .inr (by rw [none]; rfl)
        · exact .inl starts
      · exact absurd (show isRegexWord isAlnum ')' = false by
          simp [isRegexWord]; decide) free
    unfold calleeAt
    simp [same, wordZero, closed]

/-- What the rewrite writes behind the parenthesis that closes the call. -/
def Callee.behind : Callee → Text
  | .float => "+0.0".toList
  | .int => "//1)".toList
  | .str | .text => []

def Callee.extra : Callee → List (List Callee)
  | .int => [[]]
  | .float | .str | .text => []

theorem Callee.extra_empty (pass : Callee) : ∀ calls ∈ pass.extra, calls = [] := by
  cases pass <;> simp [Callee.extra]

/-- The names before a call that its replacement leaves where they are: nothing
but `py_str` stands right before the arguments of a call of `str`. -/
def Callee.leaves (pass : Callee) (pending : List Callee) : List Callee :=
  if pass = .str then [] else pending

theorem rewriteStr_eq (inner : Text) :
    rewriteStr inner = "calc.py_str".toList ++ '(' :: (inner ++ [')']) := by
  have opens : "calc.py_str(".toList = "calc.py_str".toList ++ ['('] := by decide +kernel
  unfold rewriteStr
  generalize "calc.py_str(".toList = front at opens ⊢
  subst opens
  rw [append_assoc, singleton_append]

theorem callsApart_rewrite (name : pass ≠ .text) (inner image : Text) :
    callsApart isAlnum passes stack pending before hidden 0 (pass.rewrite inner ++ image) =
      ((takeCalls passes (pass.leaves pending)).2.isEmpty &&
        (takeCalls passes (pass.leaves pending)).1.all (fun call => stack.all (!·.contains call)) &&
        callsApart isAlnum passes
          (pass.extra ++ (takeCalls passes (pass.leaves pending)).1 :: stack) [] (some '(')
          false 0 (inner ++ ')' :: (pass.behind ++ image))) := by
  cases pass with
  | text => exact absurd rfl name
  | float =>
    have shape : Callee.float.rewrite inner ++ image =
        '(' :: (inner ++ ')' :: (Callee.float.behind ++ image)) := by
      simp [Callee.rewrite, rewriteFloat, Callee.behind]
    have left : Callee.float.leaves pending = pending := if_neg (by decide)
    rw [shape, callsApart_open, left, Callee.extra, nil_append]
  | int =>
    have shape : Callee.int.rewrite inner ++ image =
        '(' :: '(' :: (inner ++ ')' :: (Callee.int.behind ++ image)) := by
      simp [Callee.rewrite, rewriteInt, Callee.behind]
    have left : Callee.int.leaves pending = pending := if_neg (by decide)
    rw [shape, callsApart_open, callsApart_open, takeCalls_nil, Callee.extra]
    rfl
  | str =>
    have shape : Callee.str.rewrite inner ++ image =
        "calc.py_str".toList ++ '(' :: (inner ++ ')' :: (Callee.str.behind ++ image)) := by
      have whole : Callee.str.rewrite inner = _ := rewriteStr_eq inner
      rw [whole, append_assoc, cons_append, append_assoc]
      rfl
    have underscore : isRegexWord isAlnum '_' = true := by simp [isRegexWord]
    have passed : ∀ rest, callsApart isAlnum passes stack pending before hidden 0
            ("calc.py_str".toList ++ '(' :: rest) =
          callsApart isAlnum passes stack [] (some 'r') false 0 ('(' :: rest) := by
      intro rest
      simp [callsApart, calleeAt, Callee.word, underscore, isSpace]
    have left : Callee.str.leaves pending = [] := if_pos rfl
    rw [shape, passed, callsApart_open, left, Callee.extra, nil_append]

theorem callsApart_behind (pass : Callee) {calls : List Callee}
    (noFloat : calls.contains .float = false) (image : Text) :
    callsApart isAlnum passes (pass.extra ++ calls :: stack) pending before hidden 0
        (')' :: (pass.behind ++ image)) =
      callsApart isAlnum passes stack [] (some (if pass = .float then '0' else ')'))
        false 0 image := by
  rw [callsApart_close]
  cases pass with
  | float =>
    rw [Callee.extra, nil_append, headD_cons]
    simp [callsApart, calleeAt, Callee.word, Callee.behind]
  | int =>
    have empty : ([] : List Callee).contains .float = false := rfl
    rw [Callee.extra, singleton_append, tail_cons]
    have closes : ∀ hidden, callsApart isAlnum passes (calls :: stack) [] (some ')') hidden 0
            (Callee.int.behind ++ image) =
          callsApart isAlnum passes stack [] (some ')') (calls.contains .float) 0 image := by
      intro hidden
      simp [callsApart, calleeAt, Callee.word, Callee.behind]
    rw [closes, noFloat]
    rfl
  | str | text =>
    rw [Callee.extra, nil_append, headD_cons, noFloat]
    rfl

theorem callsApart_call (name : pass ≠ .text) (free : before.any (isRegexWord isAlnum) = false)
    (hides : hidden = true → pass = .float) (blank : ∀ c ∈ spaces, isSpace c = true) (rest : Text) :
    callsApart isAlnum passes stack pending before hidden 0 (pass.word ++ (spaces ++ '(' :: rest)) =
      ((takeCalls passes (pass :: pending)).2.isEmpty &&
        (takeCalls passes (pass :: pending)).1.all (fun call => stack.all (!·.contains call)) &&
        callsApart isAlnum passes ((takeCalls passes (pass :: pending)).1 :: stack) []
          (some '(') false 0 rest) := by
  rw [callsApart_name (calleeAt_call name free hides blank rest), callsApart_spaces blank,
    callsApart_open]

/-- Every call of `float` right behind a closing parenthesis is closed. -/
def FloatsClosed (s : Text) : Prop :=
  ∀ rest length, ')' :: rest <:+ s → Callee.float.word <+: rest →
    openParenLength (rest.drop 5) = some length →
      (closingOffset 0 (rest.drop (5 + length))).isSome = true

theorem FloatsClosed.of_suffix (closed : FloatsClosed s) (inside : tail <:+ s) :
    FloatsClosed tail :=
  fun rest length here => closed rest length (here.trans inside)

theorem lastChar_suffix (before : Option Char) (front back : Text) :
    (lastChar before front).toList ++ back <:+ before.toList ++ (front ++ back) := by
  induction front generalizing before with
  | nil => exact suffix_rfl
  | cons c front ih =>
    have inside := ih (some c)
    exact inside.trans (suffix_append _ _)

/-- The calls that the open parentheses belong to are passes still to come. -/
def Known (passes : List Callee) (stack : List (List Callee)) : Prop :=
  ∀ calls ∈ stack, ∀ call ∈ calls, call ∈ passes

theorem Known.noFloat (noFloat : .float ∉ passes) (known : Known passes stack) :
    (stack.headD []).contains .float = false := by
  cases stack with
  | nil => rfl
  | cons calls stack =>
    rw [← not_eq_true, contains_iff_mem]
    exact fun member => noFloat (known calls mem_cons_self _ member)

theorem callsApart_closedCall {pass : Callee} (name : pass ≠ .text) (absent : pass ∉ passes)
    (noFloat : .float ∉ passes) (known : Known passes stack)
    (hides : hidden = true → pass = .float)
    (free : before.any (isRegexWord isAlnum) = false)
    {spaces inner after image : Text} (blank : ∀ c ∈ spaces, isSpace c = true)
    (closing : closingOffset 0 (inner ++ ')' :: after) = some inner.length)
    (goesOn : callsApart isAlnum (pass :: passes) stack [] (some ')') (decide (pass = .float))
        0 after =
      callsApart isAlnum passes stack [] (some (if pass = .float then '0' else ')'))
        false 0 image) (before' : Option Char) :
    callsApart isAlnum (pass :: passes) stack pending before hidden 0
        (pass.word ++ (spaces ++ '(' :: (inner ++ ')' :: after))) =
      callsApart isAlnum passes stack pending before' false 0 (pass.rewrite inner ++ image) := by
  have taken : takeCalls (pass :: passes) (pass :: pending) =
      (pass :: (takeCalls passes (pass.leaves pending)).1,
        (takeCalls passes (pass.leaves pending)).2) := takeCalls_self pass passes pending
  rw [callsApart_call name free hides blank, callsApart_rewrite name, taken]
  generalize labelled : takeCalls passes (pass.leaves pending) = found
  have members : ∀ call ∈ found.1, call ∈ passes :=
    labelled ▸ takeCalls_subset passes (pass.leaves pending)
  have free : stack.all (!·.contains pass) = true := by
    rw [all_eq_true]
    intro calls member
    rw [Bool.not_eq_true', ← not_eq_true, contains_iff_mem]
    exact fun inside => absent (known calls member pass inside)
  have noFloatIn : found.1.contains .float = false := by
    rw [← not_eq_true, contains_iff_mem]
    exact fun member => noFloat (members _ member)
  have inside := @callsApart_inner isAlnum passes stack [] (some '(') false pass absent
    found.1 pass.extra pass.extra_empty after (pass.behind ++ image) (by
      intro pending before hidden
      have isFloat : (pass :: found.1).contains .float = decide (pass = .float) := by
        rw [contains_cons, noFloatIn, Bool.or_false, Bool.eq_iff_iff, beq_iff_eq,
          decide_eq_true_iff]
        exact eq_comm
      rw [callsApart_close, headD_cons, tail_cons, isFloat, goesOn,
        callsApart_behind pass noFloatIn])
    [] inner closing 0 (Nat.zero_le _) (by simp)
  rw [nil_append, nil_append] at inside
  rw [all_cons, free, Bool.true_and, inside]

theorem callsApart_unclosedCall (name : pass ≠ .text) (absent : pass ∉ passes)
    (free : before.any (isRegexWord isAlnum) = false) (blank : ∀ c ∈ spaces, isSpace c = true)
    (unclosed : closingOffset 0 body = none) :
    callsApart isAlnum (pass :: passes) stack pending before false 0
        (pass.word ++ (spaces ++ '(' :: body)) =
      callsApart isAlnum passes stack pending before false 0
        (pass.word ++ (spaces ++ '(' :: body)) := by
  have never : closingOffset ([] : List (List Callee)).length body = none := unclosed
  have left : ∀ calls, callsApart isAlnum (pass :: passes) ((pass :: calls) :: stack) []
      (some '(') false 0 body = false := by
    intro calls
    exact @callsApart_unclosed isAlnum (pass :: passes) stack [] (some '(') false []
      (pass :: calls) (cons_ne_nil _ _) body never 0 (by simp)
  rw [callsApart_call name free (by simp) blank, callsApart_call name free (by simp) blank,
    takeCalls_self, takeCalls_of_notMem absent]
  rw [left, Bool.and_false]
  rfl

theorem not_hidden_of_unclosed (closed : pass = .float →
      FloatsClosed (before.toList ++ (pass.word ++ (spaces ++ '(' :: body))))
    (hides : hidden = true → pass = .float ∧ before = some ')')
    (blank : ∀ c ∈ spaces, isSpace c = true) (unclosed : closingOffset 0 body = none) :
    hidden = false := by
  rw [← not_eq_true]
  intro isHidden
  obtain ⟨rfl, rfl⟩ := hides isHidden
  have size : Callee.float.word.length = 5 := rfl
  have closes := closed rfl (Callee.float.word ++ (spaces ++ '(' :: body)) (spaces.length + 1)
    suffix_rfl (prefix_append _ _)
  rw [← drop_drop, ← size, drop_left, openParenLength_spaces blank,
    ← drop_drop, drop_left, drop_one, tail_cons, unclosed] at closes
  cases closes rfl

/-- **One pass.**  The calls of a text are apart for a pass and the ones after
it, if those of its image are for the ones after it. -/
theorem callsApart_pass {pass : Callee} (name : pass ≠ .text) (absent : pass ∉ passes)
    (noFloat : .float ∉ passes) (known : Known passes stack) {s : Text}
    (hides : hidden = true → pass = .float ∧ before = some ')')
    (closed : pass = .float → FloatsClosed (before.toList ++ s))
    (waiting : pending.head? = some pass → openParenLength s = none) :
    callsApart isAlnum (pass :: passes) stack pending before hidden 0 s =
      callsApart isAlnum passes stack pending (if hidden then some '0' else before) false 0
        (substitute (tokenCall isAlnum pass.word pass.rewrite) before 0 s) := by
  induction size : s.length using Nat.strong_induction_on
    generalizing s stack pending before hidden with
  | _ size ih =>
    subst size
    cases s with
    | nil => simp only [substitute, callsApart]
    | cons c rest =>
      rcases tokenCall_scan pass.word pass.rewrite before (c :: rest) with
        ⟨nothing, unopened⟩ | ⟨free, spaces, body, split, blank, call⟩
      · -- no call of the pass: the character, or the name at it, is copied
        have same := calleeAt_substitute name hides nothing unopened
        cases found : calleeAt isAlnum before hidden (c :: rest) with
        | some callee =>
          obtain ⟨tail, whole⟩ := calleeAt_starts found
          rw [found] at same
          rw [← whole] at same found nothing unopened closed ⊢
          rw [substitute_name name nothing] at same ⊢
          have shorter : tail.length < (c :: rest).length := by
            have positive := length_pos_of_ne_nil callee.word_ne_nil
            rw [← whole, length_append]
            omega
          have next := @ih tail.length shorter stack (callee :: pending)
            (lastChar before callee.word) false known tail (by rintro ⟨⟩)
            (fun isFloat => (closed isFloat).of_suffix (lastChar_suffix _ _ _))
            (by
              intro isPass
              obtain rfl := Option.some.inj isPass
              have none := unopened (calleeAt_free name found) (prefix_append _ _)
              rwa [drop_left] at none) rfl
          rw [callsApart_name found, callsApart_name same, next,
            lastChar_eq_of_ne_nil callee.word_ne_nil (if hidden then some '0' else before) before]
          rfl
        | none =>
          rw [found] at same
          rw [substitute_of_none nothing] at same ⊢
          have step : pass = .float → FloatsClosed ((some c).toList ++ rest) :=
            fun isFloat => (closed isFloat).of_suffix (suffix_append _ _)
          by_cases noParen : isParen c = false
          · rw [callsApart_other found noParen, callsApart_other same noParen]
            refine @ih rest.length (by simp) _ _ _ false known rest (by rintro ⟨⟩) step ?_ rfl
            by_cases space : isSpace c = true
            · rw [if_pos space]
              exact fun isPass => openParenLength_space space (waiting isPass)
            · rw [if_neg space]
              rintro ⟨⟩
          · rcases isParen_cases noParen with rfl | rfl
            · have other : pending.head? ≠ some pass := by
                intro isPass
                cases waiting isPass
              have deeper : Known passes ((takeCalls passes pending).1 :: stack) := by
                intro calls member
                rcases mem_cons.mp member with rfl | outer
                · exact takeCalls_subset passes pending
                · exact known calls outer
              rw [callsApart_open, callsApart_open, takeCalls_of_ne other,
                @ih rest.length (by simp) _ _ _ false deeper rest (by rintro ⟨⟩) step (by simp) rfl]
              rfl
            · have outer : Known passes stack.tail :=
                fun calls member => known calls (mem_of_mem_tail member)
              rw [callsApart_close, callsApart_close, known.noFloat noFloat,
                @ih rest.length (by simp) _ _ _ false outer rest (by rintro ⟨⟩) step (by simp) rfl]
              rfl
      · rw [split] at closed ⊢
        rcases call with ⟨unclosed, here⟩ | ⟨inner, after, rfl, closing, here⟩
        · -- the rest of the text stays, and so does the call
          rw [split] at here
          have shown := not_hidden_of_unclosed closed hides blank unclosed
          subst hidden
          rw [substitute_rest here]
          exact callsApart_unclosedCall name absent free blank unclosed
        · -- the call is replaced, and the scan goes on behind it
          have shape : pass.word ++ (spaces ++ '(' :: (inner ++ ')' :: after)) =
              (pass.word ++ (spaces ++ '(' :: (inner ++ [')']))) ++ after := by
            simp
          have last : lastChar before (pass.word ++ (spaces ++ '(' :: (inner ++ [')']))) =
              some ')' := by
            rw [lastChar_append, lastChar_append, lastChar, lastChar_append]
            rfl
          have nonempty : pass.word ++ (spaces ++ '(' :: (inner ++ [')'])) ≠ [] := by simp
          rw [split, shape] at here
          have shorter : after.length < (c :: rest).length := by
            rw [split]
            simp
            omega
          have image : substitute (tokenCall isAlnum pass.word pass.rewrite) before 0
              (pass.word ++ (spaces ++ '(' :: (inner ++ ')' :: after))) = _ :=
            shape ▸ substitute_match nonempty here
          rw [image, last]
          refine callsApart_closedCall name absent noFloat known
            (fun isHidden => (hides isHidden).1) free blank closing ?_ _
          have next := @ih after.length shorter stack [] (some ')') (decide (pass = .float))
            known after (fun isFloat => ⟨of_decide_eq_true isFloat, rfl⟩)
            (fun isFloat => (closed isFloat).of_suffix (by
              have inside := lastChar_suffix before
                (pass.word ++ (spaces ++ '(' :: (inner ++ [')']))) after
              rwa [last, ← shape] at inside)) (by simp) rfl
          rw [next]
          by_cases isFloat : pass = .float
          · rw [if_pos isFloat, if_pos (decide_eq_true isFloat)]
          · rw [if_neg isFloat, if_neg (by simpa using isFloat)]

end WriterAgent.Calc.Python
