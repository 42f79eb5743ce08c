import WriterAgent.Persian.DisjointReplacements

/-!
# Replacing text in its format

`replace_preserving_format` of `plugin/writer/html_import.py`: the characters of
a range are overwritten one by one, and the rest is inserted or deleted.  While
changes are recorded the range is replaced as a whole.
-/

namespace WriterAgent.Writer

open PyText List

/-- A character of the document with its format, and whether a tracked change
deletes it. -/
structure FormattedChar (φ : Type) where
  char : Char
  format : φ
  deleted : Bool

variable {φ : Type}

def textOf (chars : List (FormattedChar φ)) : Text := chars.map (·.char)

def acceptedText (chars : List (FormattedChar φ)) : Text :=
  textOf (chars.filter (!·.deleted))

def setCharAt (doc : List (FormattedChar φ)) (i : ℕ) (c : Char) : List (FormattedChar φ) :=
  match doc[i]? with
  | some old => doc.set i { old with char := c }
  | none => doc

def inFormat (format : φ) (text : Text) : List (FormattedChar φ) :=
  text.map (⟨·, format, false⟩)

def lastFormat (default : φ) (front : List (FormattedChar φ)) : φ :=
  (front.getLast?.map (·.format)).getD default

/-- `insertString` at a position; new text has the format before it. -/
def insertString (default : φ) (doc : List (FormattedChar φ)) (i : ℕ)
    (text : Text) : List (FormattedChar φ) :=
  doc.take i ++ inFormat (lastFormat default (doc.take i)) text ++ doc.drop i

/-- `setString("")` on a selection. -/
def deleteBetween (doc : List (FormattedChar φ)) (start stop : ℕ) : List (FormattedChar φ) :=
  doc.take start ++ doc.drop stop

def FormattedChar.delete (c : FormattedChar φ) : FormattedChar φ :=
  { c with deleted := true }

/-- `setString("")` on a selection while changes are recorded. -/
def trackDeletion (doc : List (FormattedChar φ)) (start stop : ℕ) : List (FormattedChar φ) :=
  doc.take start ++ ((doc.take stop).drop start).map FormattedChar.delete ++ doc.drop stop

/-- The loop over the overlap: `goRight(1, True)` fails at the end of the
document. -/
def overwrite (doc : List (FormattedChar φ)) (cursor : ℕ) :
    List (Char × Char) → List (FormattedChar φ) × ℕ
  | [] => (doc, cursor)
  | (old, new) :: rest =>
    if cursor < doc.length then
      overwrite (if new ≠ old then setCharAt doc cursor new else doc) (cursor + 1) rest
    else (doc, cursor)

/-- The end of the selection after `goRight` in steps of at most 8192. -/
def selectRight (docLength stop remaining : ℕ) : ℕ :=
  if remaining = 0 then stop
  else
    let n := min remaining 8192
    selectRight docLength (min (stop + n) docLength) (remaining - n)
termination_by remaining

/-- How the call is made, and which insertions raise. -/
structure ReplaceCall (φ : Type) where
  defaultFormat : φ
  recording : Bool
  splitAuthor : Bool
  inUndoContext : Bool
  insertRaises : Bool
  restoreRaises : Bool

/-- `replace_preserving_format`, and whether it raises. -/
def ReplaceCall.replacePreservingFormat (call : ReplaceCall φ)
    (doc : List (FormattedChar φ)) (start stop : ℕ) (newText : Text) :
    List (FormattedChar φ) × Bool :=
  let original := textOf ((doc.take stop).drop start)
  let oldText := Persian.normalizeLinebreaks original
  let newText := Persian.normalizeLinebreaks newText
  let insert := insertString call.defaultFormat
  if call.recording then
    if newText = oldText then (doc, false)
    else
      let emptied := trackDeletion doc start stop
      if !(call.splitAuthor && call.inUndoContext) then
        (insert emptied stop newText, false)
      else if newText.isEmpty then (emptied, false)
      else if !call.insertRaises then (insert emptied stop newText, false)
      else if !call.restoreRaises then (insert emptied stop original, true)
      else (emptied, true)
  else if oldText.length = 0 ∧ newText.length = 0 then (doc, false)
  else if oldText.length = 0 then (insert doc start newText, false)
  else
    let (doc, cursor) := overwrite doc start (oldText.zip newText)
    if oldText.length < newText.length then
      (insert doc cursor (newText.drop oldText.length), false)
    else if newText.length < oldText.length then
      (deleteBetween doc cursor
        (selectRight doc.length cursor (oldText.length - newText.length)), false)
    else (doc, false)

/-- The format that the character at a place of the new text is to have. -/
def formatAt (default : φ) (front selection : List (FormattedChar φ)) (i : ℕ) : φ :=
  match selection[min i (selection.length - 1)]? with
  | some old => old.format
  | none => lastFormat default front

def overwrittenBy (selection : List (FormattedChar φ)) (new : Text) : List (FormattedChar φ) :=
  zipWith (fun old c => { old with char := c }) selection new

variable {doc front selection back : List (FormattedChar φ)} {new : Text}

theorem selectRight_eq {docLength stop remaining : ℕ} (fits : stop + remaining ≤ docLength) :
    selectRight docLength stop remaining = stop + remaining := by
  induction remaining using Nat.strongRecOn generalizing stop with
  | ind remaining ih =>
    rw [selectRight]
    split
    · omega
    · rename_i some
      rw [ih (remaining - min remaining 8192) (by omega) (by omega)]
      omega

theorem overwrite_eq (front selection back : List (FormattedChar φ)) (new : Text) :
    overwrite (front ++ selection ++ back) front.length ((textOf selection).zip new) =
      (front ++ (overwrittenBy selection new ++ selection.drop new.length) ++ back,
        front.length + min selection.length new.length) := by
  induction selection generalizing front new with
  | nil => simp [textOf, overwrite, overwrittenBy]
  | cons old selection ih =>
    cases new with
    | nil => simp [textOf, overwrite, overwrittenBy]
    | cons c new =>
      have written : (if c ≠ old.char then
          setCharAt (front ++ (old :: selection) ++ back) front.length c
          else front ++ (old :: selection) ++ back) =
            (front ++ [{ old with char := c }]) ++ selection ++ back := by
        split
        · simp [setCharAt]
        · rename_i same
          rw [not_not] at same
          simp [same]
      have later := ih (front ++ [{ old with char := c }]) new
      rw [textOf, map_cons, zip_cons_cons, overwrite, written]
      rw [length_append, length_singleton] at later
      rw [show map (·.char) selection = textOf selection from rfl, later]
      simp [overwrittenBy, Nat.add_assoc, Nat.add_comm 1, Nat.succ_min_succ]

/-- The range holds the new text, each character in its format. -/
structure Replaced (default : φ) (front selection middle : List (FormattedChar φ))
    (newText : Text) : Prop where
  length : middle.length = newText.length
  each : ∀ i c, newText[i]? = some c → ∃ new, middle[i]? = some new ∧
    new.char = c ∧ new.format = formatAt default front selection i

theorem replaced_of_empty (default : φ) (front : List (FormattedChar φ)) :
    Replaced default front [] (inFormat (lastFormat default front) new) new where
  length := length_map _
  each i c found := ⟨_, by rw [inFormat, getElem?_map, found]; rfl, rfl, rfl⟩

theorem overwritten_each (default : φ) (front : List (FormattedChar φ)) {i : ℕ}
    {c : Char} (found : new[i]? = some c) (inside : i < selection.length) :
    (overwrittenBy selection new)[i]? = some { selection[i] with char := c } ∧
      selection[i].format = formatAt default front selection i := by
  have place : min i (selection.length - 1) = i := by omega
  constructor
  · simp [overwrittenBy, getElem?_zipWith, found, inside]
  · simp [formatAt, place, inside]

theorem replaced_of_shorter (default : φ) (front : List (FormattedChar φ))
    (shorter : new.length ≤ selection.length) :
    Replaced default front selection (overwrittenBy selection new) new where
  length := by rw [overwrittenBy, length_zipWith]; omega
  each i c found := by
    obtain ⟨inNew, -⟩ := List.getElem?_eq_some_iff.mp found
    have inside : i < selection.length := by omega
    obtain ⟨there, format⟩ := overwritten_each default front found inside
    exact ⟨_, there, rfl, format⟩

theorem length_overwrittenBy (longer : selection.length < new.length) :
    (overwrittenBy selection new).length = selection.length := by
  rw [overwrittenBy, length_zipWith]
  omega

theorem replaced_of_longer (default : φ) (front : List (FormattedChar φ))
    (some_old : selection ≠ []) (longer : selection.length < new.length) :
    Replaced default front selection (overwrittenBy selection new ++
      inFormat (lastFormat default (front ++ overwrittenBy selection new))
        (new.drop selection.length)) new where
  length := by
    rw [length_append, length_overwrittenBy longer, inFormat, length_map, length_drop]
    omega
  each := by
    intro i c found
    have whole := length_overwrittenBy longer
    by_cases inside : i < selection.length
    · rw [getElem?_append_left (by rw [whole]; exact inside)]
      obtain ⟨there, format⟩ := overwritten_each default front found inside
      exact ⟨_, there, rfl, format⟩
    · have positive := length_pos_iff.mpr some_old
      have isLast : selection.length - 1 < selection.length := by omega
      obtain ⟨last, format⟩ := overwritten_each default front
        (getElem?_eq_getElem (by omega : selection.length - 1 < new.length)) isLast
      refine ⟨⟨c, lastFormat default (front ++ overwrittenBy selection new), false⟩, ?_, rfl, ?_⟩
      · rw [getElem?_append_right (by omega), inFormat, getElem?_map, getElem?_drop,
          whole, Nat.add_sub_cancel' (not_lt.mp inside), found]
        rfl
      · rw [lastFormat, getLast?_append, getLast?_eq_getElem?, whole, last]
        simp [formatAt, Nat.min_eq_right (by omega : selection.length - 1 ≤ i), isLast]

theorem slice_append (front selection back : List (FormattedChar φ)) :
    ((front ++ selection ++ back).take (front.length + selection.length)).drop
      front.length = selection := by
  rw [← length_append, take_left, drop_left]

theorem trackDeletion_append (front selection back : List (FormattedChar φ)) :
    trackDeletion (front ++ selection ++ back) front.length (front.length + selection.length) =
        front ++ selection.map FormattedChar.delete ++ back := by
  rw [trackDeletion, slice_append, ← length_append, drop_left,
    append_assoc front selection back, take_left]

theorem acceptedText_append (left right : List (FormattedChar φ)) :
    acceptedText (left ++ right) = acceptedText left ++ acceptedText right := by
  simp [acceptedText, textOf]

theorem acceptedText_inFormat (format : φ) (text : Text) :
    acceptedText (inFormat format text) = text := by
  simp [acceptedText, textOf, inFormat, filter_map, Function.comp_def]

theorem acceptedText_deleted (chars : List (FormattedChar φ)) :
    acceptedText (chars.map FormattedChar.delete) = [] := by
  simp [acceptedText, textOf, filter_map, Function.comp_def, FormattedChar.delete]

/-- **Replacement.** The range holds exactly the new text, in the formats of the
old one, and the rest of the document is what it was. -/
theorem replacePreservingFormat_exact (call : ReplaceCall φ)
    (front selection back : List (FormattedChar φ)) (newText : Text)
    (oldPlain : '\r' ∉ textOf selection) (newPlain : '\r' ∉ newText) :
    let after := call.replacePreservingFormat (front ++ selection ++ back)
      front.length (front.length + selection.length) newText
    (call.recording = false → ∃ middle, after = (front ++ middle ++ back, false) ∧
      Replaced call.defaultFormat front selection middle newText) ∧
    (call.recording = true → newText = textOf selection →
      after = (front ++ selection ++ back, false)) ∧
    (call.recording = true → call.restoreRaises = false → after.2 = true → acceptedText after.1 =
        acceptedText front ++ textOf selection ++ acceptedText back) := by
  intro after
  have unfolded : after = call.replacePreservingFormat (front ++ selection ++ back)
      front.length (front.length + selection.length) newText := rfl
  unfold ReplaceCall.replacePreservingFormat at unfolded
  dsimp only at unfolded
  rw [slice_append, Persian.normalizeLinebreaks_eq_self oldPlain,
    Persian.normalizeLinebreaks_eq_self newPlain] at unfolded
  refine ⟨fun plain => ?_, fun recording same => ?_, fun recording restores raised => ?_⟩
  · rw [plain, if_neg Bool.false_ne_true] at unfolded
    have oldLength : (textOf selection).length = selection.length := length_map _
    rw [oldLength] at unfolded
    rcases eq_or_ne selection [] with rfl | some_old
    · refine ⟨_, ?_, replaced_of_empty call.defaultFormat front⟩
      rw [unfolded]
      split
      · rename_i none
        rw [eq_nil_of_length_eq_zero none.2]
        rfl
      · rw [insertString]
        simp
    · rw [if_neg (fun none => some_old (eq_nil_of_length_eq_zero none.1)),
        if_neg (fun none => some_old (eq_nil_of_length_eq_zero none)),
        overwrite_eq] at unfolded
      split at unfolded
      · rename_i longer
        refine ⟨_, ?_, replaced_of_longer call.defaultFormat front some_old longer⟩
        have whole := length_overwrittenBy longer
        rw [unfolded, drop_of_length_le longer.le, append_nil, Nat.min_eq_left longer.le,
          insertString, ← whole, ← length_append, take_left, drop_left]
        simp only [append_assoc]
      · rename_i notLonger
        refine ⟨_, ?_, replaced_of_shorter call.defaultFormat front (not_lt.mp notLonger)⟩
        rw [Nat.min_eq_right (not_lt.mp notLonger)] at unfolded
        split at unfolded
        · rename_i shorter
          have whole : (overwrittenBy selection newText).length =
              newText.length := by
            rw [overwrittenBy, length_zipWith]
            omega
          have start : (front ++ (overwrittenBy selection newText ++
              selection.drop newText.length) ++ back).take (front.length + newText.length) =
              front ++ overwrittenBy selection newText := by
            rw [← whole, ← length_append, append_assoc, append_assoc, ← append_assoc, take_left]
          rw [unfolded, selectRight_eq (by simp [whole]; omega), deleteBetween,
            start, drop_left' (by simp [whole]; omega)]
        · rename_i notShorter
          rw [unfolded, drop_of_length_le (not_lt.mp notShorter), append_nil]
  · rw [unfolded, recording, if_pos rfl, if_pos same]
  · rw [recording, if_pos rfl, restores] at unfolded
    have twoStep : after = (insertString call.defaultFormat
        (trackDeletion (front ++ selection ++ back) front.length (front.length + selection.length))
        (front.length + selection.length) (textOf selection), true) := by
      rw [unfolded] at raised ⊢
      split_ifs at raised ⊢ with _ _ _ _ stays
      · rfl
      · exact absurd rfl stays
    have marked : (front ++ selection.map FormattedChar.delete).length =
        front.length + selection.length := by simp
    rw [twoStep, trackDeletion_append, insertString, ← marked, take_left, drop_left]
    simp only [acceptedText_append, acceptedText_inFormat, acceptedText_deleted, append_nil]

theorem replacePreservingFormat_exact_of_longer :
    let after := ReplaceCall.replacePreservingFormat ⟨0, false, true, true, false, false⟩
      [⟨'a', 1, false⟩, ⟨'b', 2, false⟩, ⟨'c', 3, false⟩] 1 2 "xyz".toList
    ∃ middle, after.1 = ⟨'a', 1, false⟩ :: (middle ++ [⟨'c', 3, false⟩]) ∧
      Replaced 0 [⟨'a', 1, false⟩] [⟨'b', 2, false⟩] middle "xyz".toList := by
  obtain ⟨middle, whole, replaced⟩ := (replacePreservingFormat_exact
    ⟨0, false, true, true, false, false⟩ [⟨'a', 1, false⟩] [⟨'b', 2, false⟩]
    [⟨'c', 3, false⟩] "xyz".toList (by decide) (by decide)).1 rfl
  exact ⟨middle, congrArg Prod.fst whole, replaced⟩

end WriterAgent.Writer
