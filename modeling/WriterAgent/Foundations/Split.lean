import WriterAgent.Foundations.Text

/-!
# Splitting and joining texts

`str.join` and `str.split` undo each other, separate texts are split
separately, and white space around a text only shows in the outermost pieces.
-/

namespace PyText

open List

variable {sep c : Char} {parts : List Text} {spaces front back : Text} {drop : Char → Bool}

@[simp] theorem join_nil (sep : Char) : join sep [] = [] := rfl

@[simp] theorem join_singleton (sep : Char) (part : Text) : join sep [part] = part := by
  simp [join, List.intercalate]

@[simp] theorem join_cons_cons (sep : Char) (part next : Text) (rest : List Text) :
    join sep (part :: next :: rest) = part ++ sep :: join sep (next :: rest) := by
  simp [join, List.intercalate]

theorem join_append_singleton (sep : Char) (nonempty : parts ≠ []) (last : Text) :
    join sep (parts ++ [last]) = join sep parts ++ sep :: last := by
  induction parts with
  | nil => exact absurd rfl nonempty
  | cons part rest ih =>
    cases rest with
    | nil => simp
    | cons next rest =>
      simp only [cons_append, join_cons_cons]
      rw [← cons_append, ih (by simp)]
      simp

theorem join_ne_nil (nonempty : parts ≠ []) (tokens : ∀ part ∈ parts, part ≠ []) :
    join sep parts ≠ [] := by
  cases parts with
  | nil => exact absurd rfl nonempty
  | cons part rest =>
    have first := tokens part mem_cons_self
    cases rest with
    | nil => simpa using first
    | cons next rest => simp

theorem join_head? {part : Text} {rest : List Text} (split : parts = part :: rest)
    (nonempty : part ≠ []) : (join sep parts).head? = part.head? := by
  subst split
  cases rest with
  | nil => simp
  | cons next rest => rw [join_cons_cons, List.head?_append_of_ne_nil _ nonempty]

theorem join_getLast? {last : Text} (nonempty : last ≠ []) :
    (join sep (parts ++ [last])).getLast? = last.getLast? := by
  cases parts with
  | nil => simp
  | cons part rest =>
    rw [join_append_singleton sep (by simp), List.getLast?_append_of_ne_nil _ (by simp),
      List.getLast?_cons_of_ne_nil nonempty]

theorem replaceChar_append (old new : Char) (front back : Text) :
    replaceChar old new (front ++ back) =
      replaceChar old new front ++ replaceChar old new back :=
  map_append

theorem not_of_mem_splitOn :
    ∀ {s piece : Text}, piece ∈ s.splitOn sep → c ∈ piece → c ≠ sep ∧ c ∈ s := by
  intro s piece member inPiece
  induction s generalizing piece with
  | nil =>
    simp only [splitOn_nil, mem_singleton] at member
    subst member
    simp at inPiece
  | cons head tail ih =>
    rw [splitOn_eq_splitOnP, splitOnP_cons_eq_if_modifyHead] at member
    obtain ⟨first, rest, split⟩ := exists_cons_of_ne_nil (splitOnP_ne_nil (· == sep) tail)
    rw [splitOn_eq_splitOnP, split] at ih
    rw [split] at member
    by_cases isSep : (head == sep) = true
    · rw [if_pos isSep] at member
      rcases mem_cons.mp member with rfl | later
      · simp at inPiece
      · have := ih later inPiece
        exact ⟨this.1, mem_cons_of_mem _ this.2⟩
    · rw [if_neg isSep] at member
      rcases mem_cons.mp member with rfl | later
      · rcases mem_cons.mp inPiece with rfl | inFirst
        · exact ⟨by simpa using isSep, mem_cons_self⟩
        · have := ih mem_cons_self inFirst
          exact ⟨this.1, mem_cons_of_mem _ this.2⟩
      · have := ih (mem_cons_of_mem _ later) inPiece
        exact ⟨this.1, mem_cons_of_mem _ this.2⟩

theorem length_splitOn (sep : Char) (s : Text) :
    (s.splitOn sep).length = s.countP (· == sep) + 1 := by
  rw [splitOn_eq_splitOnP]
  induction s with
  | nil => rfl
  | cons c rest ih =>
    rw [splitOnP_cons_eq_if_modifyHead]
    by_cases isSep : (c == sep) = true
    · simp only [if_pos isSep, length_cons, ih, countP_cons]
    · simp only [if_neg isSep, length_modifyHead, ih, countP_cons, Nat.add_zero]

theorem splitOn_join (sep : Char) (nonempty : parts ≠ []) :
    (join sep parts).splitOn sep = parts.flatMap (·.splitOn sep) := by
  induction parts with
  | nil => exact absurd rfl nonempty
  | cons part rest ih =>
    cases rest with
    | nil => simp
    | cons next rest =>
      rw [join_cons_cons, splitOn_append_cons_self, ih (by simp)]
      simp

theorem join_splitOn (sep : Char) (s : Text) : join sep (s.splitOn sep) = s :=
  intercalate_splitOn sep

theorem join_flatMap_splitOn (sep : Char) (parts : List Text) :
    join sep (parts.flatMap (·.splitOn sep)) = join sep parts := by
  by_cases empty : parts = []
  · simp [empty]
  · rw [← splitOn_join sep empty, join_splitOn]

theorem count_flatten_splitOn (different : c ≠ sep) (s : Text) :
    (s.splitOn sep).flatten.count c = s.count c := by
  induction s with
  | nil => simp
  | cons d rest ih =>
    rw [splitOn_cons_eq_if_modifyHead]
    split
    · rename_i isSep
      have notHere : d ≠ c := by
        rintro rfl
        exact different (by simpa using isSep)
      rw [flatten_cons, nil_append, ih, count_cons_of_ne notHere]
    · obtain ⟨first, later, split⟩ :=
        exists_cons_of_ne_nil (splitOn_ne_nil sep rest)
      rw [split] at ih ⊢
      simp only [modifyHead_cons, flatten_cons, cons_append, count_cons] at ih ⊢
      rw [ih]

theorem strip_append_left (all : ∀ c ∈ spaces, isSpace c = true) (s : Text) :
    strip (spaces ++ s) = strip s := by
  rw [strip, lstripBy, dropWhile_append_of_pos all, ← lstripBy, ← strip]

theorem rstripBy_append_of_all (s : Text) {tail : Text} (all : ∀ c ∈ tail, drop c = true) :
    rstripBy drop (s ++ tail) = rstripBy drop s := by
  induction tail using List.reverseRecOn with
  | nil => simp
  | append_singleton front c ih =>
    rw [← append_assoc, rstripBy_append_singleton, if_pos (all c (by simp))]
    exact ih fun d member => all d (by simp [member])

theorem strip_append_right (s : Text) (all : ∀ c ∈ spaces, isSpace c = true) :
    strip (s ++ spaces) = strip s := by
  by_cases blank : ∀ c ∈ s, isSpace c = true
  · have whole : ∀ c ∈ s ++ spaces, isSpace c = true := by
      intro c member
      rcases mem_append.mp member with inText | inSpaces
      · exact blank c inText
      · exact all c inSpaces
    rw [strip, strip, lstripBy, lstripBy, dropWhile_eq_nil_iff.mpr whole,
      dropWhile_eq_nil_iff.mpr blank]
  · have stops : s.dropWhile isSpace ≠ [] := by
      rw [Ne, dropWhile_eq_nil_iff]
      exact blank
    have dropped : (s ++ spaces).dropWhile isSpace = s.dropWhile isSpace ++ spaces := by
      rw [dropWhile_append, if_neg (by simpa using stops)]
    rw [strip, strip, lstripBy, lstripBy, dropped, rstripBy_append_of_all _ all]

theorem strip_split (s : Text) : ∃ front back, s = front ++ strip s ++ back ∧
      (∀ c ∈ front, isSpace c = true) ∧ ∀ c ∈ back, isSpace c = true := by
  refine ⟨s.takeWhile isSpace, (lstripBy isSpace s).rtakeWhile isSpace, ?_,
    fun c member => mem_takeWhile_imp member,
    fun c member => mem_rtakeWhile_imp member⟩
  rw [strip, rstripBy, append_assoc, rdropWhile_append_rtakeWhile,
    lstripBy, takeWhile_append_dropWhile]

theorem splitOn_append_left (absent : sep ∉ front) (s : Text) :
    (front ++ s).splitOn sep = (s.splitOn sep).modifyHead (front ++ ·) := by
  induction front with
  | nil =>
    obtain ⟨first, rest, split⟩ :=
      exists_cons_of_ne_nil (splitOn_ne_nil sep s)
    simp [split]
  | cons c front ih =>
    simp only [mem_cons, not_or] at absent
    obtain ⟨first, rest, split⟩ :=
      exists_cons_of_ne_nil (splitOn_ne_nil sep s)
    have notSep : (c == sep) = false := by simpa using Ne.symm absent.1
    rw [cons_append, splitOn_cons_eq_if_modifyHead, ih absent.2, split]
    simp [notSep]

theorem splitOn_append_right (absent : sep ∉ back) (s : Text) :
    ∃ front last, s.splitOn sep = front ++ [last] ∧
      (s ++ back).splitOn sep = front ++ [last ++ back] := by
  induction s with
  | nil => exact ⟨[], [], by simp, by simp [splitOn_eq_singleton absent]⟩
  | cons c s ih =>
    obtain ⟨front, last, whole, extended⟩ := ih
    rw [cons_append, splitOn_cons_eq_if_modifyHead, splitOn_cons_eq_if_modifyHead, whole, extended]
    split
    · exact ⟨[] :: front, last, rfl, rfl⟩
    · cases front with
      | nil => exact ⟨[], c :: last, by simp, by simp⟩
      | cons first front => exact ⟨(c :: first) :: front, last, rfl, rfl⟩

theorem map_strip_splitOn_strip (visible : isSpace sep = false) (s : Text) :
    ((strip s).splitOn sep).map strip = (s.splitOn sep).map strip := by
  obtain ⟨front, back, split, allFront, allBack⟩ := strip_split s
  have absent : ∀ spaces : Text, (∀ c ∈ spaces, isSpace c = true) → sep ∉ spaces := by
    intro spaces all member
    simp [all sep member] at visible
  conv_rhs => rw [split]
  obtain ⟨pieces, last, whole, extended⟩ :=
    splitOn_append_right (absent back allBack) (front ++ strip s)
  rw [extended, map_append, map_singleton,
    strip_append_right last allBack, ← map_singleton, ← map_append,
    ← whole, splitOn_append_left (absent front allFront)]
  obtain ⟨first, rest, firstSplit⟩ :=
    exists_cons_of_ne_nil (splitOn_ne_nil sep (strip s))
  simp [firstSplit, strip_append_left allFront]

theorem strip_replaceChar {old new : Char} (oldVisible : isSpace old = false)
    (newVisible : isSpace new = false) (s : Text) :
    strip (replaceChar old new s) = replaceChar old new (strip s) := by
  have sameClass : ∀ c, isSpace (if c == old then new else c) = isSpace c := by
    intro c
    by_cases same : c = old
    · subst same
      simp [oldVisible, newVisible]
    · simp [same]
  obtain ⟨front, back, split, allFront, allBack⟩ := strip_split s
  have mapped : ∀ spaces : Text, (∀ c ∈ spaces, isSpace c = true) →
      ∀ c ∈ replaceChar old new spaces, isSpace c = true := by
    intro spaces all c member
    obtain ⟨source, inSpaces, rfl⟩ := mem_map.mp member
    rw [sameClass]
    exact all source inSpaces
  have trimmed : Trimmed isSpace (replaceChar old new (strip s)) := by
    constructor
    · intro c head
      simp only [replaceChar, List.head?_map, Option.map_eq_some_iff] at head
      obtain ⟨source, headEq, rfl⟩ := head
      rw [sameClass]
      exact (strip_trimmed s).front source headEq
    · intro c last
      simp only [replaceChar, List.getLast?_map, Option.map_eq_some_iff] at last
      obtain ⟨source, lastEq, rfl⟩ := last
      rw [sameClass]
      exact (strip_trimmed s).back source lastEq
  conv_lhs => rw [split]
  rw [replaceChar_append, replaceChar_append, strip_append_right _ (mapped back allBack),
    strip_append_left (mapped front allFront), strip_eq_self trimmed]

theorem isPrefix_rstripBy (kept : ∀ c, front.getLast? = some c → drop c = false) (s : Text) :
    front <+: rstripBy drop (front ++ s) := by
  induction s using List.reverseRecOn with
  | nil => rw [append_nil, rstripBy_eq_self kept]
  | append_singleton s c ih =>
    rw [← append_assoc, rstripBy_append_singleton]
    split
    · exact ih
    · rw [append_assoc]
      exact prefix_append _ _

theorem strip_isPrefix {front s : Text} (isPrefix : front <+: s)
    (nonempty : strip front ≠ []) : strip front <+: strip s := by
  obtain ⟨rest, rfl⟩ := isPrefix
  obtain ⟨before, after, split, allBefore, _⟩ := strip_split front
  have headVisible : ∀ c, (strip front ++ (after ++ rest)).head? = some c → isSpace c = false := by
    intro c head
    rw [List.head?_append_of_ne_nil _ nonempty] at head
    exact (strip_trimmed front).front c head
  have whole : front ++ rest = before ++ (strip front ++ (after ++ rest)) := by
    conv_lhs => rw [split]
    simp
  rw [whole, strip_append_left allBefore]
  conv_rhs => rw [strip, lstripBy_eq_self headVisible]
  exact isPrefix_rstripBy (strip_trimmed front).back _

theorem strip_isSuffix {s : Text} (isSuffix : back <:+ s) (nonempty : strip back ≠ []) :
    strip back <:+ strip s := by
  obtain ⟨rest, rfl⟩ := isSuffix
  obtain ⟨before, after, split, _, allAfter⟩ := strip_split back
  have whole : rest ++ back = (rest ++ before) ++ strip back ++ after := by
    conv_lhs => rw [split]
    simp
  have backVisible : ∀ c, (lstripBy isSpace
      ((rest ++ before) ++ strip back)).getLast? = some c → isSpace c = false := by
    intro c last
    apply (strip_trimmed back).back c
    rw [lstripBy, dropWhile_append] at last
    split at last
    · rwa [← lstripBy, lstripBy_eq_self (strip_trimmed back).front] at last
    · rwa [List.getLast?_append_of_ne_nil _ nonempty] at last
  rw [whole, strip_append_right _ allAfter]
  conv_rhs => rw [strip, rstripBy_eq_self backVisible]
  rw [lstripBy, dropWhile_append]
  split
  · rw [← lstripBy, lstripBy_eq_self (strip_trimmed back).front]
  · exact suffix_append _ _

theorem count_join (different : c ≠ sep) (parts : List Text) :
    (join sep parts).count c = parts.flatten.count c := by
  induction parts with
  | nil => rfl
  | cons part rest ih =>
    cases rest with
    | nil => simp
    | cons next rest =>
      rw [join_cons_cons, count_append, count_cons_of_ne (Ne.symm different), ih]
      simp

end PyText
