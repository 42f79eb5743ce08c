import WriterAgent.Foundations.Text

/-!
# Replacing matches in a text

`str.replace` and `re.sub` go through a text from left to right.  Where the
pattern matches, the replacement is written and the scan goes on behind the
match; a match may look at the character before it.
-/

namespace PyText

open List

/-- Replace what `find` finds.  It is given the character before the place
and the text from there, and answers with the length of a match and its
replacement.  The second argument counts the characters still to be skipped. -/
def substitute (find : Option Char → Text → Option (Nat × Text)) : Option Char → Nat → Text → Text
  | _, _, [] => []
  | _, skip + 1, c :: rest => substitute find (some c) skip rest
  | before, 0, c :: rest =>
    match find before (c :: rest) with
    | some (length, replacement) => replacement ++ substitute find (some c) (length - 1) rest
    | none => c :: substitute find (some c) 0 rest

/-- `str.replace(old, new)` for an `old` that is not empty. -/
def replaceText (old new : Text) (s : Text) : Text :=
  substitute (fun _ rest => if old.isPrefixOf rest then some (old.length, new) else none) none 0 s

def lastChar : Option Char → Text → Option Char
  | before, [] => before
  | _, c :: rest => lastChar (some c) rest

variable {find : Option Char → Text → Option (Nat × Text)}
variable {before : Option Char} {rest replacement image needle start : Text} {c : Char} {skip : Nat}

theorem lastChar_append (before : Option Char) (front back : Text) :
    lastChar before (front ++ back) = lastChar (lastChar before front) back := by
  induction front generalizing before with
  | nil => rfl
  | cons c front ih => exact ih (some c)

theorem lastChar_mem (before : Option Char) {s : Text} (nonempty : s ≠ []) :
    ∃ c ∈ s, lastChar before s = some c := by
  induction s generalizing before with
  | nil => exact absurd rfl nonempty
  | cons c rest ih =>
    cases rest with
    | nil => exact ⟨c, mem_cons_self, rfl⟩
    | cons d later =>
      obtain ⟨last, member, same⟩ := ih (some c) (cons_ne_nil _ _)
      exact ⟨last, mem_cons_of_mem _ member, same⟩

theorem substitute_skip (before : Option Char) (skipped rest : Text) :
    substitute find before skipped.length (skipped ++ rest) =
      substitute find (lastChar before skipped) 0 rest := by
  induction skipped generalizing before with
  | nil => rfl
  | cons c skipped ih => exact ih (some c)

theorem substitute_match {matched : Text} (nonempty : matched ≠ [])
    (found : find before (matched ++ rest) = some (matched.length, replacement)) :
    substitute find before 0 (matched ++ rest) =
      replacement ++ substitute find (lastChar before matched) 0 rest := by
  cases matched with
  | nil => exact absurd rfl nonempty
  | cons c matched =>
    rw [cons_append] at found ⊢
    simp only [substitute, found, length_cons, Nat.add_sub_cancel]
    rw [substitute_skip]
    rfl

theorem substitute_copy {before : Option Char} (piece rest : Text)
    (none : ∀ front c back, piece = front ++ c :: back →
      find (lastChar before front) (c :: (back ++ rest)) = none) :
    substitute find before 0 (piece ++ rest) =
      piece ++ substitute find (lastChar before piece) 0 rest := by
  induction piece generalizing before with
  | nil => rfl
  | cons c piece ih =>
    have here := none [] c piece rfl
    simp only [lastChar] at here
    simp only [cons_append, substitute, here]
    congr 1
    apply ih
    intro front d back split
    exact none (c :: front) d back (by rw [split, cons_append])

theorem substitute_eq_self {s : Text} (none : ∀ front c back, s = front ++ c :: back →
      find (lastChar before front) (c :: back) = none) : substitute find before 0 s = s := by
  have copied := substitute_copy s [] (by simpa using none)
  simpa [substitute] using copied

theorem replaceText_eq_self {old new s : Text} {c : Char} (inOld : c ∈ old)
    (absent : c ∉ s) : replaceText old new s = s := by
  apply substitute_eq_self
  intro front d back split
  rw [if_neg]
  intro starts
  apply absent
  rw [split]
  exact mem_append_right _ (( isPrefixOf_iff_prefix.mp starts).subset inOld)

/-- What adds up over the pieces of a text, and is the same for a replacement as
for what it replaces, is the same for the image. -/
theorem substitute_measure {β : Type} {measure : Text → β} {sum : β → β → β}
    (adds : ∀ front back, measure (front ++ back) = sum (measure front) (measure back))
    (agree : ∀ before s length replacement, find before s = some (length, replacement) →
      0 < length ∧ measure replacement = measure (s.take length))
    (before : Option Char) (skip : Nat) (s : Text) :
    measure (substitute find before skip s) = measure (s.drop skip) := by
  induction s generalizing before skip with
  | nil => simp [substitute]
  | cons c rest ih =>
    cases skip with
    | succ skip => exact ih (some c) skip
    | zero =>
      rw [substitute, drop_zero]
      split
      · rename_i length replacement found
        obtain ⟨positive, same⟩ := agree before _ _ _ found
        obtain ⟨fewer, rfl⟩ := Nat.exists_eq_succ_of_ne_zero positive.ne'
        rw [adds, same, Nat.succ_sub_one, ih (some c) fewer, ← adds, take_succ_cons,
          cons_append, take_append_drop]
      · rw [← singleton_append, adds, ih (some c) 0, ← adds]
        rfl

theorem mem_substitute_iff {kept : Char} (agree : ∀ before s length replacement,
      find before s = some (length, replacement) →
        0 < length ∧ (kept ∈ replacement ↔ kept ∈ s.take length))
    (before : Option Char) (skip : Nat) (s : Text) :
    kept ∈ substitute find before skip s ↔ kept ∈ s.drop skip :=
  Iff.of_eq (substitute_measure (fun _ _ => propext mem_append)
    (fun _ _ _ _ found => (agree _ _ _ _ found).imp_right propext) before skip s)

theorem substitute_forall {holds : Char → Prop} (replaced : ∀ before s length replacement,
      find before s = some (length, replacement) → ∀ c ∈ replacement, holds c)
    (copied : ∀ before c rest, find before (c :: rest) = none → holds c)
    (before : Option Char) (skip : Nat) (s : Text) :
    ∀ c ∈ substitute find before skip s, holds c := by
  induction s generalizing before skip with
  | nil =>
    intro c member
    cases skip <;> simp [substitute] at member
  | cons d rest ih =>
    cases skip with
    | succ skip => exact ih (some d) skip
    | zero =>
      intro c member
      rw [substitute] at member
      split at member
      · rename_i length replacement found
        rcases mem_append.mp member with written | later
        · exact replaced before _ _ _ found c written
        · exact ih (some d) _ c later
      · rename_i absent
        rcases mem_cons.mp member with rfl | later
        · exact copied before c rest absent
        · exact ih (some d) 0 c later

theorem substitute_of_none (absent : find before (c :: rest) = none) :
    substitute find before 0 (c :: rest) = c :: substitute find (some c) 0 rest := by
  simp only [substitute, absent]

theorem substitute_of_some (found : find before (c :: rest) = some (skip + 1, replacement)) :
    substitute find before 0 (c :: rest) =
      replacement ++ substitute find (some c) skip rest := by
  simp only [substitute, found, Nat.add_sub_cancel]

theorem substitute_drop {s : Text} (inside : skip ≤ s.length) : substitute find before skip s =
      substitute find (lastChar before (s.take skip)) 0 (s.drop skip) := by
  have skipped := @substitute_skip find before (s.take skip) (s.drop skip)
  rwa [take_append_drop, length_take, Nat.min_eq_left inside] at skipped

theorem substitute_append {front back : Text} {before : Option Char}
    (bounded : ∀ before s length replacement, find before s = some (length, replacement) →
        0 < length ∧ length ≤ s.length)
    (closed : ∀ before tail, tail <:+ front → tail ≠ [] →
      find before (tail ++ back) = find before tail) :
    substitute find before 0 (front ++ back) = substitute find before 0 front ++
        substitute find (lastChar before front) 0 back := by
  induction size : front.length using Nat.strong_induction_on generalizing front before with
  | _ size ih =>
    subst size
    cases front with
    | nil => rfl
    | cons c rest =>
      have here := closed before (c :: rest) suffix_rfl (cons_ne_nil _ _)
      have later : ∀ tail, tail <:+ rest → ∀ before piece, piece <:+ tail →
          piece ≠ [] → find before (piece ++ back) = find before piece :=
        fun tail isSuffix before piece inside => closed before piece
          (inside.trans (isSuffix.trans (suffix_cons c rest)))
      rw [cons_append] at here
      cases found : find before (c :: rest) with
      | none =>
        have tail := @ih rest.length (by simp) rest (some c) (later rest suffix_rfl) rfl
        rw [cons_append, substitute_of_none (here.trans found), substitute_of_none found, tail]
        rfl
      | some match_ =>
        obtain ⟨length, replacement⟩ := match_
        obtain ⟨positive, inside⟩ := bounded _ _ _ _ found
        obtain ⟨skip, rfl⟩ := Nat.exists_eq_succ_of_ne_zero positive.ne'
        rw [length_cons, Nat.succ_le_succ_iff] at inside
        have tail := @ih (rest.drop skip).length (by rw [length_drop, length_cons]; omega)
          (rest.drop skip) (lastChar (some c) (rest.take skip))
          (later _ (drop_suffix skip rest)) rfl
        have last : lastChar before (c :: rest) =
            lastChar (lastChar (some c) (rest.take skip)) (rest.drop skip) := by
          rw [← lastChar_append, take_append_drop]
          rfl
        rw [cons_append, substitute_of_some (here.trans found),
          substitute_of_some found, substitute_drop inside,
          substitute_drop (by rw [length_append]; omega),
          take_append_of_le_length inside,
          drop_append_of_le_length inside, tail, last, append_assoc]

theorem substitute_rest {s : Text} (whole : find before s = some (s.length, s)) :
    substitute find before 0 s = s := by
  cases s with
  | nil => rfl
  | cons c rest =>
    have nothing := @substitute_skip find (some c) rest []
    rw [append_nil] at nothing
    rw [substitute_of_some whole, nothing]
    exact append_nil _

theorem prefix_of_prefix_substitute {word : Text} (apart : ∀ before s length replacement,
      find before s = some (length, replacement) → length = s.length ∧ replacement = s ∨
          ∃ d more, replacement = d :: more ∧ d ∉ word)
    {before : Option Char} {s : Text}
    (starts : word <+: substitute find before 0 s) : word <+: s := by
  induction word generalizing before s with
  | nil => exact nil_prefix
  | cons w word ih =>
    cases s with
    | nil => exact starts
    | cons c rest =>
      cases found : find before (c :: rest) with
      | none =>
        rw [substitute_of_none found, cons_prefix_cons] at starts
        obtain ⟨rfl, later⟩ := starts
        refine cons_prefix_cons.mpr ⟨rfl, ih ?_ later⟩
        intro before s length replacement here
        rcases apart before s length replacement here with whole | ⟨d, more, same, absent⟩
        · exact .inl whole
        · exact .inr ⟨d, more, same, fun member => absent (mem_cons_of_mem _ member)⟩
      | some match_ =>
        obtain ⟨length, replacement⟩ := match_
        rcases apart _ _ _ _ found with ⟨rfl, rfl⟩ | ⟨d, more, rfl, absent⟩
        · rwa [substitute_rest found] at starts
        · exfalso
          rw [substitute, found] at starts
          obtain ⟨same, _⟩ := cons_prefix_cons.mp starts
          exact absent (same ▸ mem_cons_self)

theorem filter_substitute {kept : Char → Bool} (agree : ∀ before s length replacement,
      find before s = some (length, replacement) →
        0 < length ∧ replacement.filter kept = (s.take length).filter kept)
    (before : Option Char) (skip : Nat) (s : Text) :
    (substitute find before skip s).filter kept = (s.drop skip).filter kept :=
  substitute_measure filter_append agree before skip s

theorem suffix_append_cases {front back piece : Text} (ends : piece <:+ front ++ back) :
    piece <:+ back ∨ ∃ last, last <:+ front ∧ last ≠ [] ∧ piece = last ++ back := by
  obtain ⟨before, split⟩ := ends
  rcases append_eq_append_iff.mp split with ⟨last, whole, same⟩ | ⟨later, _, same⟩
  · cases last with
    | nil => exact .inl (by rw [same, nil_append])
    | cons c last => exact .inr ⟨c :: last, ⟨before, whole.symm⟩, cons_ne_nil _ _, same⟩
  · exact .inl ⟨later, same.symm⟩

/-- What stands from some place on in the image of a text: the image of a rest
of it, or the end of a replacement and what follows the match. -/
inductive ImageRest (find : Option Char → Text → Option (Nat × Text)) (s : Text) : Text → Prop where
  | copied {before : Option Char} {rest : Text} :
      rest <:+ s → ImageRest find s (substitute find before 0 rest)
  | replaced {before : Option Char} {c : Char} {rest replacement piece : Text}
      {length : Nat} :
      c :: rest <:+ s → find before (c :: rest) = some (length, replacement) →
        piece <:+ replacement → piece ≠ [] →
          ImageRest find s (piece ++ substitute find (some c) (length - 1) rest)

theorem ImageRest.of_suffix {s : Text} (place : ImageRest find rest image)
    (inside : rest <:+ s) : ImageRest find s image := by
  cases place with
  | copied deeper => exact .copied (deeper.trans inside)
  | replaced deeper found ends nonempty => exact .replaced (deeper.trans inside) found ends nonempty

theorem imageRest_of_suffix {s : Text} (inside : image <:+ substitute find before skip s) :
    ImageRest find s image := by
  induction s generalizing before skip with
  | nil =>
    rw [substitute, suffix_nil] at inside
    have whole : ImageRest find [] (substitute find before 0 []) := .copied suffix_rfl
    rwa [inside]
  | cons c rest ih =>
    have behind := suffix_cons c rest
    cases skip with
    | succ skip => exact (ih inside).of_suffix behind
    | zero =>
      cases found : find before (c :: rest) with
      | none =>
        rw [substitute_of_none found] at inside
        rcases suffix_cons_iff.mp inside with whole | deeper
        · rw [whole, ← substitute_of_none found]
          exact .copied suffix_rfl
        · exact (ih deeper).of_suffix behind
      | some match_ =>
        rw [substitute, found] at inside
        rcases suffix_append_cases inside with deeper | ⟨piece, ends, nonempty, rfl⟩
        · exact (ih deeper).of_suffix behind
        · exact .replaced suffix_rfl found ends nonempty

theorem not_isInfix_substitute {s : Text} (shape : ∀ before c rest length replacement,
      find before (c :: rest) = some (length, replacement) →
        length = (c :: rest).length ∧ replacement = c :: rest ∨
          (∃ d more, replacement = d :: more ∧ d ∉ needle) ∧
            ∀ piece more, piece <:+ replacement → piece ≠ [] → needle <+: piece ++ more →
              needle <:+: c :: rest) (nothing : ∀ before, find before [] = none)
    (absent : ¬needle <:+: s) : ¬needle <:+: substitute find before 0 s := by
  intro occurs
  obtain ⟨image, starts, inside⟩ := infix_iff_prefix_suffix.mp occurs
  cases imageRest_of_suffix inside with
  | @copied before rest isSuffix =>
    apply absent
    refine infix_iff_prefix_suffix.mpr ⟨rest, prefix_of_prefix_substitute ?_ starts, isSuffix⟩
    intro before s length replacement found
    cases s with
    | nil => cases ((nothing before).symm.trans found)
    | cons c rest => exact (shape before c rest length replacement found).imp_right And.left
  | @replaced before c rest replacement piece length isSuffix found ends nonempty =>
    apply absent
    rcases shape _ _ _ _ _ found with ⟨rfl, rfl⟩ | ⟨_, inText⟩
    · have finished := @substitute_skip find (some c) rest []
      rw [append_nil] at finished
      rw [length_cons, Nat.add_sub_cancel, finished] at starts
      simp only [substitute, append_nil] at starts
      exact infix_iff_prefix_suffix.mpr ⟨piece, starts, ends.trans isSuffix⟩
    · exact (inText piece _ ends nonempty starts).trans isSuffix.isInfix

def searchText (found : Text → Bool) : Text → Bool
  | [] => found []
  | c :: rest => found (c :: rest) || searchText found rest

/-- `needle in s`. -/
def hasText (needle s : Text) : Bool := searchText needle.isPrefixOf s

theorem searchText_iff {found : Text → Bool} {s : Text} :
    searchText found s = true ↔ ∃ rest, rest <:+ s ∧ found rest = true := by
  induction s with
  | nil => simp [searchText]
  | cons c rest ih =>
    rw [searchText, Bool.or_eq_true, ih]
    constructor
    · rintro (here | ⟨later, isSuffix, holds⟩)
      · exact ⟨c :: rest, suffix_rfl, here⟩
      · exact ⟨later, isSuffix.trans (suffix_cons c rest), holds⟩
    · rintro ⟨later, isSuffix, holds⟩
      rcases suffix_cons_iff.mp isSuffix with rfl | inside
      · exact .inl holds
      · exact .inr ⟨later, inside, holds⟩

theorem hasText_iff {s : Text} : hasText needle s = true ↔ needle <:+: s := by
  rw [hasText, searchText_iff, infix_iff_prefix_suffix]
  simp only [ isPrefixOf_iff_prefix, and_comm]

/-- What the matches of a scan found, in order; the scan is that of
`substitute`. -/
def matchesOf {μ : Type} (find : Option Char → Text → Option (Nat × μ)) :
    Option Char → Nat → Text → List μ
  | _, _, [] => []
  | _, skip + 1, c :: rest => matchesOf find (some c) skip rest
  | before, 0, c :: rest =>
    match find before (c :: rest) with
    | some (length, found) => found :: matchesOf find (some c) (length - 1) rest
    | none => matchesOf find (some c) 0 rest

/-- A character of the text that a character of a pattern stands for when the
case is ignored; three letters have further forms. -/
def foldsTo (p c : Char) : Bool :=
  c.toLower == p.toLower || (p.toLower == 's' && c.toNat == 0x17F) ||
    (p.toLower == 'k' && c.toNat == 0x212A) ||
    (p.toLower == 'i' && (c.toNat == 0x130 || c.toNat == 0x131))

/-- The text behind a start that is equal when the case is ignored. -/
def stripStartFold : Text → Text → Option Text
  | [], s => some s
  | _ :: _, [] => none
  | p :: start, c :: s => if foldsTo p c then stripStartFold start s else none

def stripStart : Text → Text → Option Text
  | [], s => some s
  | _ :: _, [] => none
  | p :: start, c :: s => if c == p then stripStart start s else none

theorem stripStartFold_length {s : Text} (found : stripStartFold start s = some rest) :
    s.length = start.length + rest.length := by
  induction start generalizing s with
  | nil =>
    obtain rfl : s = rest := by simpa [stripStartFold] using found
    simp
  | cons p start ih =>
    cases s with
    | nil => simp [stripStartFold] at found
    | cons c s =>
      unfold stripStartFold at found
      split at found
      · have tail := ih found
        simp only [length_cons]
        omega
      · simp at found

theorem stripStart_eq_some_iff {s : Text} : stripStart start s = some rest ↔ s = start ++ rest := by
  induction start generalizing s with
  | nil => simp [stripStart]
  | cons p start ih =>
    cases s with
    | nil => simp [stripStart]
    | cons c s =>
      rw [stripStart, cons_append, List.cons.injEq]
      split
      · rename_i same
        rw [beq_iff_eq] at same
        rw [ih]
        exact ⟨fun tail => ⟨same, tail⟩, fun both => both.2⟩
      · rename_i other
        rw [beq_iff_eq] at other
        simp [other]

theorem lstripBy_append {drop : Char → Bool} {stop : Char}
    (kept : drop stop = false) (s more : Text) :
    lstripBy drop (s ++ stop :: more) = lstripBy drop s ++ stop :: more := by
  induction s with
  | nil => simp [lstripBy, kept]
  | cons c s ih =>
    unfold lstripBy at ih ⊢
    rw [cons_append, dropWhile_cons, dropWhile_cons]
    split
    · exact ih
    · rfl

theorem lstripBy_length_le (drop : Char → Bool) (s : Text) : (lstripBy drop s).length ≤ s.length :=
  (lstripBy_isSuffix drop s).length_le

end PyText

/-!
## Searching from a position

A loop over the positions of a text stops at the first one where it finds
something.  What it finds may depend on the position and on the text from there.
-/

namespace PyText

variable {μ : Type*}

def firstFrom (find : ℕ → Text → Option μ) : ℕ → Text → Option (ℕ × μ)
  | _, [] => none
  | position, c :: rest =>
    match find position (c :: rest) with
    | some found => some (position, found)
    | none => firstFrom find (position + 1) rest

theorem drop_eq_cons {s : Text} {position : ℕ} (split : s.drop position = c :: rest) :
    s.drop (position + 1) = rest ∧ position < s.length := by
  constructor
  · rw [← List.tail_drop, split, List.tail_cons]
  · by_contra outside
    rw [List.drop_eq_nil_of_le (not_lt.mp outside)] at split
    cases split

theorem firstFrom_eq_some {find : ℕ → Text → Option μ} {s : Text} {start position : ℕ} {found : μ}
    (first : firstFrom find start (s.drop start) = some (position, found)) :
    start ≤ position ∧ position < s.length ∧ find position (s.drop position) = some found ∧
        ∀ earlier, start ≤ earlier → earlier < position → find earlier (s.drop earlier) = none := by
  generalize isRest : s.drop start = rest at first
  induction rest generalizing start with
  | nil => cases first
  | cons c rest ih =>
    obtain ⟨later, inside⟩ := drop_eq_cons isRest
    rw [firstFrom] at first
    cases here : find start (c :: rest) with
    | some own =>
      rw [here] at first
      cases first
      refine ⟨le_rfl, inside, by rw [isRest]; exact here, ?_⟩
      intro earlier above below
      omega
    | none =>
      rw [here] at first
      obtain ⟨above, below, finds, none⟩ := ih later first
      refine ⟨by omega, below, finds, fun earlier isAbove isBelow => ?_⟩
      rcases Nat.eq_or_lt_of_le isAbove with rfl | strictly
      · rw [isRest]
        exact here
      · exact none earlier (Nat.succ_le_of_lt strictly) isBelow

theorem firstFrom_eq_none {find : ℕ → Text → Option μ} {s : Text} {start : ℕ}
    (none : firstFrom find start (s.drop start) = none) :
    ∀ position, start ≤ position → position < s.length →
      find position (s.drop position) = .none := by
  generalize isRest : s.drop start = rest at none
  induction rest generalizing start with
  | nil =>
    intro position above below
    rw [List.drop_eq_nil_iff] at isRest
    omega
  | cons c rest ih =>
    obtain ⟨later, -⟩ := drop_eq_cons isRest
    rw [firstFrom] at none
    cases here : find start (c :: rest) with
    | some own =>
      rw [here] at none
      cases none
    | none =>
      rw [here] at none
      intro position above below
      rcases Nat.eq_or_lt_of_le above with rfl | strictly
      · rw [isRest]
        exact here
      · exact ih later none position strictly below

end PyText
