import WriterAgent.Foundations.Split

/-!
# The walks over tracked changes

`plugin/doc/text_helpers.py` and `plugin/writer/edit_review.py`: three walks over
the portions of a range that skip or collect what tracked deletions hold.  A
deletion has a marker at each of its ends, and may run on over paragraphs.
-/

namespace WriterAgent.Doc

open PyText List

inductive RedlineType where
  | insert
  | delete
  deriving DecidableEq

/-- A text portion, or one of type `Redline`.  The code does not look whether a
marker is the first one of its change. -/
inductive Portion where
  | text (string : Text)
  | redline (type : RedlineType) (isStart : Bool)
  deriving DecidableEq

def Portion.string : Portion → Text
  | .text string => string
  | .redline .. => []

/-- One paragraph of a walk that toggles at the markers of a type. -/
def walkPortions (skipType : RedlineType) : Bool → List Portion → Text
  | _, [] => []
  | skipping, .text string :: rest =>
    (if skipping then [] else string) ++ walkPortions skipType skipping rest
  | skipping, .redline type _ :: rest =>
    walkPortions skipType (if type = skipType then !skipping else skipping) rest

def stringSkippingRedline (range : List (List Portion)) (skipType : RedlineType) :
    Text :=
  join '\n' (range.map (walkPortions skipType false))

def getStringWithoutTrackedDeletions (range : List (List Portion)) : Text :=
  join '\n' (range.map (walkPortions .delete false))

inductive ChangeKind where
  | insertion
  | deletion
  deriving DecidableEq

structure TrackedChange where
  type : ChangeKind
  text : Text
  deriving DecidableEq

structure ChangeLimits where
  maxPerChange : ℕ := 300
  maxChanges : ℕ := 100

/-- The variables of `collect_tracked_changes`. -/
structure ChangeWalk where
  out : List TrackedChange
  inDelete : Bool
  inInsert : Bool
  delBuf : List Text
  insBuf : List Text

/-- `_flush`. -/
def flushChange (limits : ChangeLimits) (out : List TrackedChange)
    (buf : List Text) (kind : ChangeKind) : List TrackedChange :=
  if buf ≠ [] ∧ out.length < limits.maxChanges then
    out ++ [⟨kind, buf.flatten.take limits.maxPerChange⟩]
  else out

def ChangeWalk.visit (limits : ChangeLimits) (walk : ChangeWalk) : Portion → ChangeWalk
  | .redline .delete _ =>
    if walk.inDelete then
      { walk with
        out := flushChange limits walk.out walk.delBuf .deletion
        delBuf := []
        inDelete := false }
    else { walk with inDelete := true }
  | .redline .insert _ =>
    if walk.inInsert then
      { walk with
        out := flushChange limits walk.out walk.insBuf .insertion
        insBuf := []
        inInsert := false }
    else { walk with inInsert := true }
  | .text string =>
    if string.isEmpty then walk
    else if walk.inDelete then { walk with delBuf := walk.delBuf ++ [string] }
    else if walk.inInsert then { walk with insBuf := walk.insBuf ++ [string] }
    else walk

def ChangeWalk.visitParagraph (limits : ChangeLimits) (walk : ChangeWalk)
    (para : List Portion) : ChangeWalk :=
  if walk.out.length < limits.maxChanges then para.foldl (visit limits) walk
  else walk

def collectTrackedChanges (limits : ChangeLimits) (range : List (List Portion)) :
    List TrackedChange :=
  let walk := range.foldl (ChangeWalk.visitParagraph limits) ⟨[], false, false, [], []⟩
  flushChange limits (flushChange limits walk.out walk.delBuf .deletion) walk.insBuf .insertion

/-- Starts and ends of deletions come in turn. -/
def DeletionsPaired : Bool → List Portion → Prop
  | inside, [] => inside = false
  | inside, .redline .delete isStart :: rest => isStart = !inside ∧ DeletionsPaired isStart rest
  | inside, _ :: rest => DeletionsPaired inside rest

def textWhere (deleted : Bool) : Bool → List Portion → Text
  | _, [] => []
  | inside, .text string :: rest =>
    (if inside = deleted then string else []) ++ textWhere deleted inside rest
  | _, .redline .delete isStart :: rest => textWhere deleted isStart rest
  | inside, .redline .insert _ :: rest => textWhere deleted inside rest

def insideAfter (inside : Bool) (portions : List Portion) : Bool :=
  portions.foldl (fun inside portion => match portion with
    | .redline .delete isStart => isStart
    | _ => inside) inside

/-- The paragraphs without the characters between the markers of deletions. -/
def acceptedParagraphs : Bool → List (List Portion) → List Text
  | _, [] => []
  | inside, para :: range =>
    textWhere false inside para :: acceptedParagraphs (insideAfter inside para) range

/-- In a paragraph that begins inside of a deletion as much is deleted as is
left over, such as nothing. -/
def EntersAlike : Bool → List (List Portion) → Prop
  | _, [] => True
  | inside, para :: range =>
    (inside = true → textWhere true true para = textWhere false true para) ∧
      EntersAlike (insideAfter inside para) range

def deletedText (out : List TrackedChange) : Text :=
  ((out.filter (·.type = .deletion)).map TrackedChange.text).flatten

/-- The three walks have the same view of what is deleted. -/
structure WalksAgree (limits : ChangeLimits) (range : List (List Portion)) : Prop where
  accepted : getStringWithoutTrackedDeletions range = join '\n' (acceptedParagraphs false range)
  skipping : getStringWithoutTrackedDeletions range = stringSkippingRedline range .delete
  removed : deletedText (collectTrackedChanges limits range) = textWhere true false range.flatten

variable {inside skipping : Bool} {para portions : List Portion}
  {range : List (List Portion)} {limits : ChangeLimits} {walk : ChangeWalk}

theorem walkPortions_eq {rest : List Portion}
    (paired : DeletionsPaired inside (para ++ rest)) (skipping : Bool) :
    walkPortions .delete skipping para = textWhere (skipping != inside) inside para := by
  induction para generalizing inside skipping with
  | nil => rfl
  | cons portion para ih =>
    cases portion with
    | text string =>
      rw [walkPortions, ih paired]
      cases skipping <;> cases inside <;> rfl
    | redline type isStart =>
      cases type with
      | insert => rw [walkPortions, textWhere, if_neg nofun, ih paired]
      | delete =>
        obtain ⟨turn, paired⟩ := paired
        rw [walkPortions, ih paired, turn]
        cases skipping <;> cases inside <;> rfl

theorem paired_after {rest : List Portion} (paired : DeletionsPaired inside (para ++ rest)) :
    DeletionsPaired (insideAfter inside para) rest := by
  induction para generalizing inside with
  | nil => exact paired
  | cons portion para ih =>
    rcases portion with string | ⟨_ | _, isStart⟩
    · exact ih paired
    · exact ih paired
    · exact ih paired.2

theorem walks_eq_accepted_of_alike (paired : DeletionsPaired inside range.flatten)
    (alike : EntersAlike inside range) :
    range.map (walkPortions .delete false) = acceptedParagraphs inside range := by
  induction range generalizing inside with
  | nil => rfl
  | cons para range ih =>
    rw [map_cons, acceptedParagraphs, ih (paired_after paired) alike.2, walkPortions_eq paired]
    cases inside with
    | false => rfl
    | true => rw [← alike.1 rfl]; rfl

theorem alike_of_walks_eq (paired : DeletionsPaired inside range.flatten)
    (same : range.map (walkPortions .delete false) =
      acceptedParagraphs inside range) : EntersAlike inside range := by
  induction range generalizing inside with
  | nil => trivial
  | cons para range ih =>
    obtain ⟨first, later⟩ := cons.inj same
    refine ⟨?_, ih (paired_after paired) later⟩
    rintro rfl
    rw [walkPortions_eq paired] at first
    exact first

theorem mem_string_of_textWhere {deleted : Bool} {c : Char}
    (member : c ∈ textWhere deleted inside para) :
    ∃ portion ∈ para, c ∈ portion.string := by
  induction para generalizing inside with
  | nil => cases member
  | cons portion para ih =>
    rcases portion with string | ⟨_ | _, isStart⟩
    · rcases mem_append.mp member with here | later
      · refine ⟨_, mem_cons_self, ?_⟩
        split at here
        · exact here
        · cases here
      · obtain ⟨portion, isLater, holds⟩ := ih later
        exact ⟨portion, mem_cons_of_mem _ isLater, holds⟩
    all_goals
      obtain ⟨portion, isLater, holds⟩ := ih member
      exact ⟨portion, mem_cons_of_mem _ isLater, holds⟩

theorem deletedText_flush_deletion {out : List TrackedChange} {buf : List Text}
    (fits : out.length < limits.maxChanges) (short : buf.flatten.length ≤ limits.maxPerChange) :
    deletedText (flushChange limits out buf .deletion) = deletedText out ++ buf.flatten := by
  unfold flushChange
  split
  · simp [deletedText, take_of_length_le short]
  · rename_i stays
    have empty : buf = [] := by
      by_contra nonempty
      exact stays ⟨nonempty, fits⟩
    simp [empty]

theorem deletedText_flush_insertion (out : List TrackedChange) (buf : List Text) :
    deletedText (flushChange limits out buf .insertion) = deletedText out := by
  unfold flushChange
  split <;> simp [deletedText]

theorem length_flushChange_le (out : List TrackedChange) (buf : List Text) (kind : ChangeKind) :
    (flushChange limits out buf kind).length ≤ out.length + 1 := by
  unfold flushChange
  split <;> simp

/-- What is in the list and in the buffer of the open deletion. -/
def ChangeWalk.deleted (walk : ChangeWalk) : Text :=
  deletedText walk.out ++ walk.delBuf.flatten

/-- The limits are large enough for what is still to come. -/
structure ChangeWalk.Roomy (limits : ChangeLimits) (walk : ChangeWalk)
    (portions : List Portion) : Prop where
  fits : walk.out.length + portions.length < limits.maxChanges
  short : (walk.delBuf.flatten ++ textWhere true walk.inDelete portions).length ≤
    limits.maxPerChange

theorem visit_deleted {portion : Portion} (roomy : walk.Roomy limits (portion :: portions))
    (paired : DeletionsPaired walk.inDelete (portion :: portions)) :
    (walk.visit limits portion).Roomy limits portions ∧
      DeletionsPaired (walk.visit limits portion).inDelete portions ∧
      (walk.visit limits portion).deleted ++
          textWhere true (walk.visit limits portion).inDelete portions =
        walk.deleted ++ textWhere true walk.inDelete (portion :: portions) := by
  obtain ⟨fits, short⟩ := roomy
  rw [length_cons] at fits
  rcases portion with string | ⟨_ | _, isStart⟩
  · rw [textWhere] at short ⊢
    by_cases empty : string = []
    · have visited : walk.visit limits (.text string) = walk := by simp [ChangeWalk.visit, empty]
      rw [empty, ite_self, nil_append] at short ⊢
      rw [← empty, visited]
      exact ⟨⟨by omega, short⟩, paired, rfl⟩
    · cases inside : walk.inDelete with
      | true =>
        have visited : walk.visit limits (.text string) =
            { walk with delBuf := walk.delBuf ++ [string] } := by
          simp [ChangeWalk.visit, empty, inside]
        rw [visited]
        refine ⟨⟨by dsimp only; omega, ?_⟩, paired, ?_⟩
        · simpa [inside] using short
        · simp [ChangeWalk.deleted, inside]
      | false =>
        have visited : walk.visit limits (.text string) = { walk with
            insBuf := if walk.inInsert then walk.insBuf ++ [string]
              else walk.insBuf } := by
          rw [ChangeWalk.visit, if_neg (by simpa using empty), if_neg (by simp [inside])]
          split <;> rfl
        rw [visited]
        refine ⟨⟨by dsimp only; omega, ?_⟩, paired, ?_⟩
        · simpa [inside] using short
        · simp [ChangeWalk.deleted, inside]
  · have grows := @length_flushChange_le limits walk.out walk.insBuf .insertion
    cases inInsert : walk.inInsert with
    | true =>
      have visited : walk.visit limits (.redline .insert isStart) = { walk with
          out := flushChange limits walk.out walk.insBuf .insertion
          insBuf := []
          inInsert := false } := by
        simp [ChangeWalk.visit, inInsert]
      rw [visited]
      refine ⟨⟨by dsimp only; omega, short⟩, paired, ?_⟩
      simp [ChangeWalk.deleted, deletedText_flush_insertion, textWhere]
    | false =>
      have visited : walk.visit limits (.redline .insert isStart) =
          { walk with inInsert := true } := by
        simp [ChangeWalk.visit, inInsert]
      rw [visited]
      exact ⟨⟨by dsimp only; omega, short⟩, paired, rfl⟩
  · obtain ⟨turn, paired⟩ := paired
    rw [textWhere] at short ⊢
    cases inside : walk.inDelete with
    | true =>
      have visited : walk.visit limits (.redline .delete isStart) = { walk with
          out := flushChange limits walk.out walk.delBuf .deletion
          delBuf := []
          inDelete := false } := by
        simp [ChangeWalk.visit, inside]
      rw [inside] at turn
      cases turn
      have grows := @length_flushChange_le limits walk.out walk.delBuf .deletion
      have flushed := @deletedText_flush_deletion limits walk.out
        walk.delBuf (by omega) (by rw [length_append] at short; omega)
      rw [visited]
      refine ⟨⟨by dsimp only; omega, ?_⟩, paired, ?_⟩
      · rw [length_append, Bool.not_true] at short
        simpa using by omega
      · simp [ChangeWalk.deleted, flushed]
    | false =>
      have visited : walk.visit limits (.redline .delete isStart) =
          { walk with inDelete := true } := by
        simp [ChangeWalk.visit, inside]
      rw [inside] at turn
      cases turn
      rw [visited]
      exact ⟨⟨by dsimp only; omega, short⟩, paired, rfl⟩

theorem foldl_visit_deleted (roomy : walk.Roomy limits (portions ++ para))
    (paired : DeletionsPaired walk.inDelete (portions ++ para)) :
    (portions.foldl (ChangeWalk.visit limits) walk).Roomy limits para ∧
      DeletionsPaired (portions.foldl (ChangeWalk.visit limits) walk).inDelete para ∧
      (portions.foldl (ChangeWalk.visit limits) walk).deleted ++
          textWhere true (portions.foldl (ChangeWalk.visit limits) walk).inDelete para =
        walk.deleted ++ textWhere true walk.inDelete (portions ++ para) := by
  induction portions generalizing walk with
  | nil => exact ⟨roomy, paired, rfl⟩
  | cons portion portions ih =>
    obtain ⟨roomy', paired', step⟩ := visit_deleted roomy paired
    obtain ⟨later, still, run⟩ := ih roomy' paired'
    exact ⟨later, still, run.trans step⟩

theorem foldl_visitParagraph_deleted (roomy : walk.Roomy limits range.flatten)
    (paired : DeletionsPaired walk.inDelete range.flatten) :
    (range.foldl (ChangeWalk.visitParagraph limits) walk).Roomy limits [] ∧
      (range.foldl (ChangeWalk.visitParagraph limits) walk).deleted =
        walk.deleted ++ textWhere true walk.inDelete range.flatten := by
  induction range generalizing walk with
  | nil => exact ⟨roomy, (append_nil _).symm⟩
  | cons para range ih =>
    rw [foldl_cons, ChangeWalk.visitParagraph,
      if_pos (Nat.lt_of_le_of_lt (Nat.le_add_right _ _) roomy.fits)]
    obtain ⟨later, still, step⟩ := foldl_visit_deleted roomy paired
    obtain ⟨final, run⟩ := ih later still
    exact ⟨final, run.trans step⟩

theorem deletedText_collect
    (roomy : ChangeWalk.Roomy limits ⟨[], false, false, [], []⟩ range.flatten)
    (paired : DeletionsPaired false range.flatten) :
    deletedText (collectTrackedChanges limits range) = textWhere true false range.flatten := by
  obtain ⟨⟨fits, short⟩, run⟩ := foldl_visitParagraph_deleted roomy paired
  unfold collectTrackedChanges
  rw [deletedText_flush_insertion, deletedText_flush_deletion fits
    (by simpa [textWhere] using short)]
  exact run

theorem join_inj {left right : List Text} (same : left.length = right.length)
    (leftPlain : ∀ part ∈ left, '\n' ∉ part) (rightPlain : ∀ part ∈ right, '\n' ∉ part)
    (joined : join '\n' left = join '\n' right) : left = right := by
  cases left with
  | nil => exact (eq_nil_of_length_eq_zero same.symm).symm
  | cons first left =>
    have nonempty : right ≠ [] := by
      rintro rfl
      cases same
    rw [← splitOn_intercalate '\n' leftPlain (cons_ne_nil first left),
      ← splitOn_intercalate '\n' rightPlain nonempty]
    exact congrArg (splitOn '\n') joined

theorem mem_acceptedParagraphs {part : Text} {c : Char} (holds : c ∈ part)
    (member : part ∈ acceptedParagraphs inside range) :
    ∃ para ∈ range, ∃ portion ∈ para, c ∈ portion.string := by
  induction range generalizing inside with
  | nil => cases member
  | cons para range ih =>
    rcases mem_cons.mp member with rfl | later
    · exact ⟨para, mem_cons_self, mem_string_of_textWhere holds⟩
    · obtain ⟨para, isLater, found⟩ := ih later
      exact ⟨para, mem_cons_of_mem _ isLater, found⟩

theorem length_acceptedParagraphs (inside : Bool) (range : List (List Portion)) :
    (acceptedParagraphs inside range).length = range.length := by
  induction range generalizing inside with
  | nil => rfl
  | cons para range ih => rw [acceptedParagraphs, length_cons, ih, length_cons]

/-- **The walks agree** if no deletion runs on into a paragraph where it
changes what is left over, and only then if no text holds a line break. -/
theorem walksAgree_iff_of_paired (paired : DeletionsPaired false range.flatten)
    (fits : range.flatten.length < limits.maxChanges)
    (short : (textWhere true false range.flatten).length ≤ limits.maxPerChange) :
    (EntersAlike false range → WalksAgree limits range) ∧
      ((∀ para ∈ range, ∀ portion ∈ para, '\n' ∉ portion.string) →
        (WalksAgree limits range ↔ EntersAlike false range)) := by
  have agree : EntersAlike false range → WalksAgree limits range := fun alike =>
    { accepted := congrArg (join '\n') (walks_eq_accepted_of_alike paired alike)
      skipping := rfl
      removed := deletedText_collect ⟨by simpa using fits, short⟩ paired }
  refine ⟨agree, fun plain => ⟨fun agrees => ?_, agree⟩⟩
  apply alike_of_walks_eq paired
  apply join_inj
  · rw [length_map, length_acceptedParagraphs]
  · intro part member holds
    obtain ⟨para, isPara, rfl⟩ := mem_map.mp member
    obtain ⟨before, after, split⟩ := append_of_mem isPara
    have pairedThere : ∃ inside, DeletionsPaired inside (para ++ after.flatten) := by
      rw [split, flatten_append] at paired
      exact ⟨_, paired_after paired⟩
    obtain ⟨inside, pairedThere⟩ := pairedThere
    rw [walkPortions_eq pairedThere] at holds
    obtain ⟨portion, isPortion, found⟩ := mem_string_of_textWhere holds
    exact plain para isPara portion isPortion found
  · intro part member holds
    obtain ⟨para, isPara, portion, isPortion, found⟩ :=
      mem_acceptedParagraphs holds member
    exact plain para isPara portion isPortion found
  · exact agrees.accepted

/-- A deletion in the middle of a paragraph. -/
def editedRange : List (List Portion) :=
  [[.text "ab".toList, .redline .delete true, .text "c".toList,
    .redline .delete false, .text "d".toList], [.text "e".toList]]

theorem walksAgree_iff_of_editedRange :
    EntersAlike false editedRange ∧ WalksAgree {} editedRange := by
  have alike : EntersAlike false editedRange := by simp [editedRange, EntersAlike, insideAfter]
  exact ⟨alike, (walksAgree_iff_of_paired (by simp [editedRange, DeletionsPaired])
    (by decide) (by decide)).1 alike⟩

/-- A deletion from the end of a paragraph to the middle of the next one. -/
theorem spanningDeletion_disagrees :
    let range := [[.text "a".toList, .redline .delete true, .text "b".toList],
      [.text "c".toList, .redline .delete false, .text "d".toList]]
    DeletionsPaired false range.flatten ∧ ¬ WalksAgree {} range ∧
      getStringWithoutTrackedDeletions range = "a\nc".toList ∧
      join '\n' (acceptedParagraphs false range) = "a\nd".toList := by
  refine ⟨by simp [DeletionsPaired], fun agrees => ?_, by decide, by decide⟩
  exact absurd agrees.accepted (by decide)

end WriterAgent.Doc
