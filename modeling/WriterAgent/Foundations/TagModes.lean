import WriterAgent.Foundations.Segments
import Mathlib.Data.List.Infix

/-!
# Text with mode-switching tags

A reader of a text is always in some mode, looks for the tag of that mode,
and changes its mode behind the first such tag.  A reader that gets the text in
chunks may release a character only once no tag can start there any more;
`heldBack` finds what has to wait.
-/

namespace WriterAgent

open List

variable {μ α : Type*} [DecidableEq α]

/-- `text.find(needle)`. -/
def findText (needle : List α) : List α → Option ℕ
  | [] => if needle.isPrefixOf [] then some 0 else none
  | c :: rest =>
    if needle.isPrefixOf (c :: rest) then some 0
    else (findText needle rest).map (· + 1)

variable {text needle tag : List α}

theorem findText_eq_some {idx : ℕ} (found : findText needle text = some idx) :
    needle <+: text.drop idx ∧ ∀ j < idx, ¬needle <+: text.drop j := by
  induction text generalizing idx with
  | nil =>
    by_cases here : needle.isPrefixOf ([] : List α) = true
    · have atStart : idx = 0 := by simpa [findText, here] using found.symm
      subst atStart
      exact ⟨ isPrefixOf_iff_prefix.mp here, fun j below => by omega⟩
    · simp [findText, here] at found
  | cons c rest ih =>
    by_cases here : needle.isPrefixOf (c :: rest) = true
    · have atStart : idx = 0 := by simpa [findText, here] using found.symm
      subst atStart
      exact ⟨ isPrefixOf_iff_prefix.mp here, fun j below => by omega⟩
    · simp only [findText, here, if_false, Option.map_eq_some_iff, Bool.false_eq_true] at found
      obtain ⟨later, inRest, rfl⟩ := found
      obtain ⟨there, notBefore⟩ := ih inRest
      refine ⟨there, fun j below => ?_⟩
      cases j with
      | zero => exact fun first => here ( isPrefixOf_iff_prefix.mpr first)
      | succ j => exact notBefore j (by omega)

theorem findText_eq_none (notFound : findText needle text = none) (j : ℕ) :
    ¬needle <+: text.drop j := by
  induction text generalizing j with
  | nil =>
    intro here
    rw [drop_nil] at here
    simp [findText, prefix_nil.mp here] at notFound
  | cons c rest ih =>
    by_cases here : needle.isPrefixOf (c :: rest) = true
    · simp [findText, here] at notFound
    · simp only [findText, here, if_false, Option.map_eq_none_iff, Bool.false_eq_true] at notFound
      cases j with
      | zero => exact fun first => here ( isPrefixOf_iff_prefix.mpr first)
      | succ j => exact ih notFound j

omit [DecidableEq α] in
theorem isInfix_iff_drop : needle <:+: text ↔ ∃ j, needle <+: text.drop j := by
  constructor
  · rintro ⟨front, back, rfl⟩
    refine ⟨front.length, back, ?_⟩
    rw [append_assoc, drop_left]
  · rintro ⟨j, here⟩
    exact here.isInfix.trans (drop_suffix j text).isInfix

/-- The tag that ends each mode, and the mode that follows. -/
structure TagModes (μ α : Type*) where
  tag : μ → List α
  next : μ → μ
  tag_ne_nil : ∀ mode, tag mode ≠ []

namespace TagModes

variable (modes : TagModes μ α)

/-- The characters of a text outside the recognised tags, each with the mode
it is read in; `skip` characters of a tag are still to be passed over. -/
def scan (mode : μ) : ℕ → List α → List (μ × α)
  | _, [] => []
  | skip + 1, _ :: rest => scan mode skip rest
  | 0, c :: rest =>
    if (modes.tag mode).isPrefixOf (c :: rest) then
      scan (modes.next mode) ((modes.tag mode).length - 1) rest
    else (mode, c) :: scan mode 0 rest

theorem scan_skip (mode : μ) (skip : ℕ) (text : List α) :
    modes.scan mode skip text = modes.scan mode 0 (text.drop skip) := by
  induction text generalizing skip with
  | nil => cases skip <;> rfl
  | cons c rest ih =>
    cases skip with
    | zero => rfl
    | succ skip => exact ih skip

theorem scan_tag (mode : μ) (rest : List α) : modes.scan mode 0 (modes.tag mode ++ rest) =
      modes.scan (modes.next mode) 0 rest := by
  cases tagText : modes.tag mode with
  | nil => exact absurd tagText (modes.tag_ne_nil mode)
  | cons c tail =>
    have here : (c :: tail).isPrefixOf (c :: (tail ++ rest)) = true :=
      isPrefixOf_iff_prefix.mpr ⟨rest, rfl⟩
    rw [cons_append, scan, tagText, if_pos here, scan_skip,
      length_cons, Nat.add_sub_cancel, drop_left]

theorem scan_append (mode : μ) {front rest : List α}
    (clear : ∀ j < front.length, ¬modes.tag mode <+: front.drop j ++ rest) :
    modes.scan mode 0 (front ++ rest) = front.map (mode, ·) ++ modes.scan mode 0 rest := by
  induction front with
  | nil => rfl
  | cons c front ih =>
    have notHere : ¬(modes.tag mode).isPrefixOf (c :: (front ++ rest)) := by
      intro here
      exact clear 0 (by simp) ( isPrefixOf_iff_prefix.mp here)
    have later := ih fun j below =>
      clear (j + 1) (by simpa using below)
    rw [cons_append, scan, if_neg notHere, later]
    rfl

theorem scan_of_not_infix (mode : μ) (absent : ¬modes.tag mode <:+: text) :
    modes.scan mode 0 text = text.map (mode, ·) := by
  have clear : ∀ j < text.length, ¬modes.tag mode <+: text.drop j ++ [] := by
    intro j _ here
    apply absent
    exact isInfix_iff_drop.mpr ⟨j, by simpa using here⟩
  simpa [scan] using modes.scan_append mode clear

/-- The texts between the recognised tags: each tag is the first of its mode
behind the one before. -/
inductive Parted : μ → List α → List (μ × List α) → Prop where
  | last {mode : μ} {text : List α} : ¬modes.tag mode <:+: text → Parted mode text [(mode, text)]
  | tag {mode : μ} {text rest : List α} {parts : List (μ × List α)} :
      ¬modes.tag mode <:+: (text ++ modes.tag mode).dropLast →
      Parted (modes.next mode) rest parts →
      Parted mode (text ++ modes.tag mode ++ rest) ((mode, text) :: parts)

def tagged (parts : List (μ × List α)) : List (μ × α) :=
  parts.flatMap fun part => part.2.map (part.1, ·)

omit [DecidableEq α] in
theorem first_clear (rest : List α) (first : ¬tag <:+: (text ++ tag).dropLast)
    (j : ℕ) (below : j < text.length) : ¬tag <+: text.drop j ++ (tag ++ rest) := by
  intro here
  apply first
  apply isInfix_iff_drop.mpr
  refine ⟨j, ?_⟩
  have inBoth : tag <+: text.drop j ++ tag := by
    rw [← append_assoc] at here
    exact prefix_of_prefix_length_le here (prefix_append _ _) (by simp)
  have cut : (text ++ tag).dropLast.drop j =
      (text.drop j ++ tag).take (text.length - j + tag.length - 1) := by
    rw [dropLast_eq_take, drop_take, drop_append_of_le_length (by omega), length_append]
    congr 1
    omega
  rw [cut]
  exact prefix_take_iff.mpr ⟨inBoth, by omega⟩

/-- **Decomposition.** The parts of a text hold exactly the characters outside
its recognised tags, in order and with their modes. -/
theorem Parted.tagged_eq {mode : μ} {parts : List (μ × List α)}
    (parted : modes.Parted mode text parts) :
    tagged parts = modes.scan mode 0 text := by
  induction parted with
  | last absent => simp [tagged, modes.scan_of_not_infix _ absent]
  | @tag mode text rest parts first later ih =>
    rw [append_assoc, modes.scan_append mode (first_clear rest first), scan_tag, ← ih]
    rfl

theorem exists_parted (mode : μ) (text : List α) : ∃ parts, modes.Parted mode text parts := by
  induction size : text.length using Nat.strong_induction_on generalizing mode text with
  | _ size ih =>
    subst size
    cases found : findText (modes.tag mode) text with
    | none =>
      refine ⟨_, .last fun occurs => ?_⟩
      obtain ⟨j, here⟩ := isInfix_iff_drop.mp occurs
      exact findText_eq_none found j here
    | some idx =>
      obtain ⟨⟨rest, here⟩, notBefore⟩ := findText_eq_some found
      have whole : text = text.take idx ++ modes.tag mode ++ rest := by
        rw [append_assoc, here, take_append_drop]
      have tagLength := length_pos_of_ne_nil (modes.tag_ne_nil mode)
      have shorter : rest.length < text.length := by
        rw [whole]
        simp only [length_append]
        omega
      obtain ⟨parts, later⟩ := ih _ shorter (modes.next mode) rest rfl
      refine ⟨(mode, text.take idx) :: parts, ?_⟩
      have first : ¬modes.tag mode <:+: (text.take idx ++ modes.tag mode).dropLast := by
        intro occurs
        obtain ⟨j, earlier⟩ := isInfix_iff_drop.mp occurs
        have room := earlier.length_le
        simp only [length_drop, length_dropLast, length_append, length_take] at room
        apply notBefore j (by omega)
        have inText : (text.take idx ++ modes.tag mode).dropLast <+: text := by
          refine ( dropLast_prefix _).trans ⟨rest, whole.symm⟩
        exact earlier.trans (inText.drop j)
      simpa only [← whole] using Parted.tag first later

/-- The length of the longest end of the text, of at most the given length,
that begins the needle. -/
def heldBack (needle text : List α) : ℕ → ℕ
  | 0 => 0
  | p + 1 =>
    if (text.drop (text.length - (p + 1))).isPrefixOf needle then p + 1
    else heldBack needle text p

theorem heldBack_le (needle text : List α) (bound : ℕ) : heldBack needle text bound ≤ bound := by
  induction bound with
  | zero => exact Nat.le_refl 0
  | succ p ih =>
    by_cases here : (text.drop (text.length - (p + 1))).isPrefixOf needle = true
    · rw [heldBack, if_pos here]
    · rw [heldBack, if_neg here]
      omega

theorem heldBack_begins (needle text : List α) (bound : ℕ) :
    text.drop (text.length - heldBack needle text bound) <+: needle := by
  induction bound with
  | zero => simp [heldBack]
  | succ p ih =>
    unfold heldBack
    split_ifs with here
    · exact isPrefixOf_iff_prefix.mp here
    · exact ih

theorem heldBack_longest (needle text : List α) {bound p : ℕ}
    (longer : heldBack needle text bound < p) (within : p ≤ bound) :
    ¬text.drop (text.length - p) <+: needle := by
  induction bound with
  | zero => omega
  | succ q ih =>
    by_cases here : (text.drop (text.length - (q + 1))).isPrefixOf needle = true
    · rw [heldBack, if_pos here] at longer
      omega
    · rw [heldBack, if_neg here] at longer
      by_cases last : p = q + 1
      · rw [last]
        exact fun begins => here ( isPrefixOf_iff_prefix.mpr begins)
      · exact ih longer (by omega)

/-- **Release.** In front of what is held back no tag can start, whatever
comes later. -/
theorem release_clear (later : List α) (notFound : findText tag text = none)
    (j : ℕ) (released : j < text.length - heldBack tag text (min (tag.length - 1) text.length)) :
    ¬tag <+: text.drop j ++ later := by
  intro here
  by_cases complete : tag.length ≤ text.length - j
  · apply findText_eq_none notFound j
    exact prefix_of_prefix_length_le here (prefix_append _ _) (by simpa using complete)
  · have begins : text.drop j <+: tag :=
      prefix_of_prefix_length_le (prefix_append _ _) here (by rw [length_drop]; omega)
    have within : text.length - j ≤ min (tag.length - 1) text.length := by omega
    apply heldBack_longest tag text (by omega) within
    rwa [Nat.sub_sub_self (by omega)]

end TagModes

end WriterAgent
