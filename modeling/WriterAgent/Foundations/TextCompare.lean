import WriterAgent.Foundations.TextScan

/-!
# Comparing texts up to white space and case

Texts are compared after a rewriting of their white space, `strip` and
`lower`.
-/

namespace PyText

open List

def Blank (s : Text) : Prop := ∀ c ∈ s, isSpace c = true

instance (s : Text) : Decidable (Blank s) :=
  inferInstanceAs (Decidable (∀ c ∈ s, isSpace c = true))

theorem blank_append_iff {front back : Text} : Blank (front ++ back) ↔ Blank front ∧ Blank back :=
  forall_mem_append

variable {s core old new : Text}

theorem lstripBy_eq_nil_iff : lstripBy isSpace s = [] ↔ Blank s :=
  dropWhile_eq_nil_iff

theorem rstripBy_eq_nil_iff : rstripBy isSpace s = [] ↔ Blank s :=
  rdropWhile_eq_nil_iff

theorem strip_eq_nil_iff : strip s = [] ↔ Blank s := by
  rw [strip, rstripBy_eq_nil_iff]
  constructor
  · intro blank c member
    by_contra visible
    rw [Bool.not_eq_true] at visible
    have kept := mem_strip member visible
    rw [strip, rstripBy_eq_nil_iff.mpr blank] at kept
    cases kept
  · intro blank
    rw [lstripBy_eq_nil_iff.mpr blank]
    rintro _ ⟨⟩

theorem exists_strip_split (s : Text) : ∃ front back,
    s = front ++ (strip s ++ back) ∧ Blank front ∧ Blank back := by
  refine ⟨s.takeWhile isSpace, (lstripBy isSpace s).rtakeWhile isSpace, ?_, ?_, ?_⟩
  · rw [strip, rstripBy, rdropWhile_append_rtakeWhile, lstripBy, takeWhile_append_dropWhile]
  · exact fun c member => mem_takeWhile_imp member
  · exact fun c member => mem_rtakeWhile_imp member

theorem visible_strip (s : Text) : (strip s).filter (!isSpace ·) = s.filter (!isSpace ·) := by
  obtain ⟨front, back, split, blankFront, blankBack⟩ := exists_strip_split s
  have nothing : ∀ {spaces : Text}, Blank spaces → spaces.filter (!isSpace ·) = [] := by
    intro spaces blank
    rw [filter_eq_nil_iff]
    intro c member
    simp [blank c member]
  calc (strip s).filter (!isSpace ·) = (front ++ (strip s ++ back)).filter (!isSpace ·) := by
        rw [filter_append, filter_append, nothing blankFront, nothing blankBack,
          nil_append, append_nil]
    _ = s.filter (!isSpace ·) := by rw [← split]

theorem blank_of_strip_append {front back : Text}
    (same : strip (front ++ back) = strip front) : Blank back := by
  have visible : (front ++ back).filter (!isSpace ·) = front.filter (!isSpace ·) := by
    rw [← visible_strip, same, visible_strip]
  rw [filter_append, append_right_eq_self, filter_eq_nil_iff] at visible
  intro c member
  simpa using visible c member

theorem exists_ends (nonempty : s ≠ []) (trimmed : Trimmed isSpace s) :
    ∃ first rest front last, s = first :: rest ∧ s = front ++ [last] ∧
      isSpace first = false ∧ isSpace last = false := by
  obtain ⟨first, rest, isFirst⟩ := exists_cons_of_ne_nil nonempty
  obtain ⟨front, last, isLast⟩ := eq_nil_or_concat s |>.resolve_left nonempty
  rw [concat_eq_append] at isLast
  exact ⟨first, rest, front, last, isFirst, isLast,
    trimmed.front first (by rw [isFirst]; rfl), trimmed.back last (by rw [isLast]; simp)⟩

/-- A rewriting that turns white space into white space and keeps everything
else in its place. -/
structure FoldsSpaces (fold : Text → Text) : Prop where
  nil : fold [] = []
  visible : ∀ front c back, isSpace c = false →
    fold (front ++ c :: back) = fold front ++ c :: fold back
  blank : ∀ s, Blank s → Blank (fold s)

namespace FoldsSpaces

variable {fold : Text → Text}

theorem comp {outer : Text → Text} (folds : FoldsSpaces fold)
    (again : FoldsSpaces outer) : FoldsSpaces (fun s => outer (fold s)) where
  nil := by rw [folds.nil, again.nil]
  visible front c back isVisible := by
    rw [folds.visible front c back isVisible, again.visible _ c _ isVisible]
  blank s isBlank := again.blank _ (folds.blank s isBlank)

theorem map {f : Char → Char} (visible : ∀ c, isSpace c = false → f c = c)
    (spaces : ∀ c, isSpace c = true → isSpace (f c) = true) :
    FoldsSpaces (List.map f) where
  nil := rfl
  visible front c back isVisible := by rw [map_append, map_cons, visible c isVisible]
  blank s isBlank c member := by
    obtain ⟨d, inside, rfl⟩ := mem_map.mp member
    exact spaces d (isBlank d inside)

theorem blank_iff (folds : FoldsSpaces fold) : Blank (fold s) ↔ Blank s := by
  refine ⟨fun isBlank c member => ?_, folds.blank s⟩
  by_contra visible
  rw [Bool.not_eq_true] at visible
  obtain ⟨front, back, rfl⟩ := append_of_mem member
  rw [folds.visible front c back visible] at isBlank
  have space := isBlank c (mem_append_right _ mem_cons_self)
  rw [visible] at space
  cases space

theorem around (folds : FoldsSpaces fold) (nonempty : core ≠ [])
    (trimmed : Trimmed isSpace core) (left right : Text) :
    fold (left ++ (core ++ right)) = fold left ++ (fold core ++ fold right) := by
  obtain ⟨first, rest, front, last, isFirst, isLast, firstVisible, lastVisible⟩ :=
    exists_ends nonempty trimmed
  have onLeft : ∀ more : Text,
      fold (left ++ (core ++ more)) = fold left ++ fold (core ++ more) := by
    intro more
    have alone := folds.visible [] first (rest ++ more) firstVisible
    rw [folds.nil] at alone
    rw [isFirst, cons_append, folds.visible _ _ _ firstVisible]
    exact congrArg (fold left ++ ·) alone.symm
  have onRight : fold (core ++ right) = fold core ++ fold right := by
    have alone := folds.visible front last [] lastVisible
    rw [folds.nil] at alone
    rw [isLast, append_assoc, singleton_append,
      folds.visible _ _ _ lastVisible, alone, append_assoc]
    rfl
  rw [onLeft, onRight]

theorem strip_around (folds : FoldsSpaces fold) (nonempty : core ≠ [])
    (trimmed : Trimmed isSpace core) (left right : Text) :
    strip (fold (left ++ (core ++ right))) = lstripBy isSpace (fold left) ++
        (fold core ++ rstripBy isSpace (fold right)) := by
  rw [folds.around nonempty trimmed]
  obtain ⟨first, rest, front, last, isFirst, isLast, firstVisible, lastVisible⟩ :=
    exists_ends nonempty trimmed
  have starts : fold core = first :: fold rest := by
    have alone := folds.visible [] first rest firstVisible
    rwa [folds.nil, ← isFirst] at alone
  have ends : fold core = fold front ++ [last] := by
    have alone := folds.visible front last [] lastVisible
    rwa [folds.nil, ← isLast] at alone
  have lefts : lstripBy isSpace (fold left ++ (fold core ++ fold right)) =
      lstripBy isSpace (fold left) ++ (fold core ++ fold right) := by
    rw [starts, cons_append, lstripBy_append firstVisible]
  rw [strip, lefts, ends]
  have assoc : ∀ more : Text, lstripBy isSpace (fold left) ++ (fold front ++ [last] ++ more) =
        (lstripBy isSpace (fold left) ++ fold front) ++ last :: more := by
    intro more
    simp
  rw [assoc, assoc, rstripBy_append lastVisible]

theorem substitute_before (find : Text → Option (ℕ × Text))
    (before other : Option Char) (skip : ℕ) (s : Text) :
    substitute (fun _ => find) before skip s = substitute (fun _ => find) other skip s := by
  cases s with
  | nil | cons c rest =>
    cases skip with
    | zero | succ => rfl

theorem replaceText_append_visible {c : Char} (notEmpty : old ≠ []) (absent : c ∉ old)
    (front back : Text) :
    replaceText old new (front ++ c :: back) =
      replaceText old new front ++ c :: replaceText old new back := by
  let find : Text → Option (ℕ × Text) := fun rest =>
    if old.isPrefixOf rest then some (old.length, new) else none
  have missed : find (c :: back) = none := by
    refine if_neg fun starts => ?_
    obtain ⟨more, same⟩ := isPrefixOf_iff_prefix.mp starts
    obtain ⟨first, rest, isFirst⟩ := exists_cons_of_ne_nil notEmpty
    rw [isFirst] at same
    apply absent
    rw [isFirst, (List.cons.inj same).1]
    exact mem_cons_self
  have inFront : ∀ tail : Text, find (tail ++ c :: back) = find tail := by
    intro tail
    have same : old.isPrefixOf (tail ++ c :: back) = old.isPrefixOf tail := by
      rw [Bool.eq_iff_iff, isPrefixOf_iff_prefix, isPrefixOf_iff_prefix]
      refine ⟨fun starts => ?_, fun starts =>
        starts.trans (prefix_append _ _)⟩
      rcases le_or_gt old.length tail.length with short | long
      · exact prefix_of_prefix_length_le starts (prefix_append _ _) short
      · have longer : tail ++ [c] <+: old := by
          apply prefix_of_prefix_length_le _ starts
          · rw [length_append]
            exact long
          · exact ⟨back, by simp⟩
        exact absurd (longer.subset (by simp)) absent
    simp only [find, same]
  have split := @substitute_append (fun _ => find) front (c :: back) none
    (fun _ s length replacement found => by
      simp only [find] at found
      split at found
      · rename_i starts
        obtain ⟨rfl, -⟩ := Prod.mk.inj (Option.some.inj found)
        exact ⟨length_pos_of_ne_nil notEmpty, ( isPrefixOf_iff_prefix.mp starts).length_le⟩
      · cases found)
    (fun _ tail _ _ => inFront tail)
  rw [substitute_of_none missed, substitute_before find (some c) none] at split
  exact split

theorem of_replaceText (notEmpty : old ≠ []) (oldBlank : Blank old) (newBlank : Blank new) :
    FoldsSpaces (replaceText old new) where
  nil := rfl
  visible front c back isVisible := by
    apply replaceText_append_visible notEmpty
    intro member
    rw [oldBlank c member] at isVisible
    cases isVisible
  blank s isBlank c member := by
    by_contra visible
    have agrees := @mem_substitute_iff (fun _ rest =>
        if old.isPrefixOf rest then some (old.length, new) else none) c
      (fun _ s length replacement found => by
        split at found
        · rename_i starts
          obtain ⟨rfl, rfl⟩ := Prod.mk.inj (Option.some.inj found)
          have whole := prefix_iff_eq_take.mp ( isPrefixOf_iff_prefix.mp starts)
          rw [← whole]
          exact ⟨length_pos_of_ne_nil notEmpty, fun isNew => absurd (newBlank c isNew) visible,
            fun isOld => absurd (oldBlank c isOld) visible⟩
        · cases found) none 0 s
    exact visible (isBlank c (agrees.mp member))

end FoldsSpaces

/-- A lower-casing: what a character becomes may depend on those around it,
and none is dropped. -/
structure Lowercase where
  lower : Text → Text
  length_append : ∀ front back, (lower (front ++ back)).length =
    (lower front).length + (lower back).length
  length_le : ∀ s, s.length ≤ (lower s).length

def Lowercase.ascii : Lowercase where
  lower s := s.map Char.toLower
  length_append _ _ := by simp
  length_le _ := by simp

theorem Lowercase.lower_nil (lowercase : Lowercase) : lowercase.lower [] = [] := by
  have twice := lowercase.length_append [] []
  rw [append_nil] at twice
  exact eq_nil_of_length_eq_zero (by omega)

def compareForm (lowercase : Lowercase) (fold : Text → Text) (s : Text) :
    Text :=
  lowercase.lower (strip (fold s))

variable {lowercase : Lowercase} {fold : Text → Text}

theorem compareForm_of_blank (folds : FoldsSpaces fold) (blank : Blank s) :
    compareForm lowercase fold s = [] := by
  rw [compareForm, strip_eq_nil_iff.mpr (folds.blank s blank), lowercase.lower_nil]

/-- **Comparing in context.** A part of a text that is not blank compares
equal to the whole exactly when the rest is white space. -/
theorem compareForm_around_iff (folds : FoldsSpaces fold) {middle : Text}
    (visible : ¬ Blank middle) (left right : Text) :
    compareForm lowercase fold (left ++ (middle ++ right)) =
        compareForm lowercase fold middle ↔ Blank left ∧ Blank right := by
  obtain ⟨front, back, split, frontBlank, backBlank⟩ :=
    exists_strip_split middle
  have nonempty : strip middle ≠ [] :=
    fun empty => visible (strip_eq_nil_iff.mp empty)
  have alone := folds.strip_around nonempty (strip_trimmed middle) front back
  have within := folds.strip_around nonempty (strip_trimmed middle) (left ++ front) (back ++ right)
  rw [← split, lstripBy_eq_nil_iff.mpr (folds.blank _ frontBlank),
    rstripBy_eq_nil_iff.mpr (folds.blank _ backBlank), nil_append,
    append_nil] at alone
  have regroup : left ++ front ++ (strip middle ++ (back ++ right)) =
      left ++ (middle ++ right) := by
    conv_rhs => rw [split]
    simp
  rw [regroup] at within
  have lefts : lstripBy isSpace (fold (left ++ front)) = [] ↔ Blank left := by
    rw [lstripBy_eq_nil_iff, folds.blank_iff, blank_append_iff]
    exact and_iff_left frontBlank
  have rights : rstripBy isSpace (fold (back ++ right)) = [] ↔ Blank right := by
    rw [rstripBy_eq_nil_iff, folds.blank_iff, blank_append_iff]
    exact and_iff_right backBlank
  rw [compareForm, compareForm, within, alone, ← lefts, ← rights]
  constructor
  · intro same
    have lengths := congrArg List.length same
    rw [lowercase.length_append, lowercase.length_append] at lengths
    have fewLeft := lowercase.length_le (lstripBy isSpace (fold (left ++ front)))
    have fewRight := lowercase.length_le (rstripBy isSpace (fold (back ++ right)))
    constructor <;> exact eq_nil_of_length_eq_zero (by omega)
  · rintro ⟨noLeft, noRight⟩
    rw [noLeft, noRight, nil_append, append_nil]

end PyText
