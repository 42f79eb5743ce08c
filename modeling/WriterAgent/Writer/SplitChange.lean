import WriterAgent.Writer.SubEditSoundness

/-!
# Splitting a change

The walk over the matched words keeps an edit script for the stretches behind
it.  A change is split soundly unless equal texts are sent down the
whole-block path.
-/

namespace WriterAgent.Writer

open PyText List Option

variable {done ahead : List (Nat × Nat)} {walk : SegmentWalk} {i : Nat} {subEdits : List SubEdit}

section Walk

variable {old new : Text} {oldWords newWords : List Token}

theorem TokensFrom.apart_of_lt {whole : Text} {tokens : List Token}
    (tokensFrom : TokensFrom whole i tokens) {k l : Nat} {left right : Token}
    (leftAt : tokens[k]? = some left) (rightAt : tokens[l]? = some right)
    (smaller : k < l) : left.stop ≤ right.start := by
  obtain ⟨leftBound, rfl⟩ := List.getElem?_eq_some_iff.mp leftAt
  obtain ⟨rightBound, rfl⟩ := List.getElem?_eq_some_iff.mp rightAt
  exact pairwise_iff_getElem.mp tokensFrom.apart k l leftBound rightBound smaller

def SubEdit.Avoids (e : SubEdit) (token : Token) : Prop :=
  e.oldEnd ≤ token.start ∨ token.stop ≤ e.oldStart

/-- The loop invariant: the sub-edits so far form a script up to the last
matched word, and none touches a word matched so far. -/
structure WalkInvariant (old new : Text) (oldWords newWords : List Token)
    (done ahead : List (Nat × Nat)) (walk : SegmentWalk) : Prop where
  script : Transforms old new (walk.subEdits.map SubEdit.splice) walk.prevOld walk.prevNew
  oldBound : walk.prevOld ≤ old.length
  newBound : walk.prevNew ≤ new.length
  each : ∀ e ∈ walk.subEdits, e.WellFormed old ∧ Tight e.oldText e.newText
  behind : ∀ e ∈ walk.subEdits, e.oldEnd < walk.prevOld
  apart : walk.subEdits.Pairwise fun left right => left.oldEnd < right.oldStart
  passed : ∀ a ∈ done, ∀ token, oldWords[a.1]? = some token → token.stop ≤ walk.prevOld
  oldAhead : ∀ a ∈ ahead, ∀ token, oldWords[a.1]? = some token → walk.prevOld ≤ token.start
  newAhead : ∀ a ∈ ahead, ∀ token, newWords[a.2]? = some token → walk.prevNew ≤ token.start
  clear : ∀ e ∈ walk.subEdits, ∀ a ∈ done, ∀ token, oldWords[a.1]? = some token → e.Avoids token

theorem WalkInvariant.start (ahead : List (Nat × Nat)) :
    WalkInvariant old new oldWords newWords [] ahead ⟨[], 0, 0⟩ where
  script := Transforms.empty
  oldBound := Nat.zero_le _
  newBound := Nat.zero_le _
  each := by simp
  behind := by simp
  apart := by simp
  passed := by simp
  oldAhead := fun _ _ _ _ => Nat.zero_le _
  newAhead := fun _ _ _ _ => Nat.zero_le _
  clear := by simp

theorem WalkInvariant.emit (invariant : WalkInvariant old new oldWords newWords done ahead walk)
    {oldHi newHi : Nat} (oldOrdered : walk.prevOld ≤ oldHi)
    (oldBound : oldHi ≤ old.length) (newOrdered : walk.prevNew ≤ newHi)
    (newBound : newHi ≤ new.length) (emitted : subEdits = walk.subEdits ++
      (emitSegment old new walk.prevOld oldHi walk.prevNew newHi).toList) :
    Transforms old new (subEdits.map SubEdit.splice) oldHi newHi ∧
      (∀ e ∈ subEdits, e.WellFormed old ∧ Tight e.oldText e.newText) ∧
      (∀ e ∈ subEdits, e.oldEnd ≤ oldHi) ∧
      (subEdits.Pairwise fun left right => left.oldEnd < right.oldStart) ∧
      ∀ e ∈ subEdits, ∀ a ∈ done, ∀ token, oldWords[a.1]? = some token → e.Avoids token := by
  obtain ⟨segments, extended⟩ :=
    emitSegment_spec oldOrdered oldBound newOrdered newBound
  subst emitted
  refine ⟨extended _ invariant.script, ?_, ?_, ?_, ?_⟩
  · intro e member
    rcases mem_append.mp member with earlier | fresh
    · exact invariant.each e earlier
    · exact ⟨(segments e fresh).wellFormed, (segments e fresh).tight⟩
  · intro e member
    rcases mem_append.mp member with earlier | fresh
    · exact (invariant.behind e earlier).le.trans oldOrdered
    · exact (segments e fresh).ends
  · rw [pairwise_append]
    refine ⟨invariant.apart, ?_, ?_⟩
    · cases emitSegment old new walk.prevOld oldHi walk.prevNew newHi with
      | none => exact List.Pairwise.nil
      | some e => exact pairwise_singleton _ _
    · intro left earlier right fresh
      exact (invariant.behind left earlier).trans_le (segments right fresh).starts
  · intro e member a inDone token found
    rcases mem_append.mp member with earlier | fresh
    · exact invariant.clear e earlier a inDone token found
    · right
      exact (invariant.passed a inDone token found).trans (segments e fresh).starts

theorem WalkInvariant.step (oldTokens : TokensFrom old 0 oldWords)
    (newTokens : TokensFrom new 0 newWords) {a : Nat × Nat}
    (invariant : WalkInvariant old new oldWords newWords done (a :: ahead) walk)
    (growing : (a :: ahead).Pairwise fun a b => a.1 < b.1 ∧ a.2 < b.2)
    {ow nw : Token} (oldAt : oldWords[a.1]? = some ow)
    (newAt : newWords[a.2]? = some nw) (same : ow.text = nw.text) :
    ∃ next, walkAnchor old new oldWords newWords walk a = some next ∧
      WalkInvariant old new oldWords newWords (done ++ [a]) ahead next := by
  have oldInside := oldTokens.inside ow (mem_of_getElem? oldAt)
  have newInside := newTokens.inside nw (mem_of_getElem? newAt)
  have oldNext := invariant.oldAhead a mem_cons_self ow oldAt
  have newNext := invariant.newAhead a mem_cons_self nw newAt
  have oldOrdered := oldInside.ordered
  have newOrdered := newInside.ordered
  obtain ⟨script, each, ends, apart, clear⟩ := invariant.emit oldNext
    (oldOrdered.le.trans oldInside.bound) newNext
    (newOrdered.le.trans newInside.bound) rfl
  have larger := (pairwise_cons.mp growing).1
  refine ⟨_, by simp only [walkAnchor, oldAt, newAt, bind_eq_bind, bind_some]; rfl, ?_⟩
  constructor
  · apply script.keep oldOrdered.le newOrdered.le
    rw [oldInside.textEq, newInside.textEq, same]
  · exact oldInside.bound
  · exact newInside.bound
  · exact each
  · intro e member
    exact (ends e member).trans_lt oldOrdered
  · exact apart
  · intro b member token found
    rcases mem_append.mp member with earlier | last
    · exact (invariant.passed b earlier token found).trans (oldNext.trans oldOrdered.le)
    · rw [mem_singleton] at last
      subst last
      rw [oldAt, some.injEq] at found
      rw [← found]
  · intro b member token found
    exact oldTokens.apart_of_lt oldAt found (larger b member).1
  · intro b member token found
    exact newTokens.apart_of_lt newAt found (larger b member).2
  · intro e member b inDone token found
    rcases mem_append.mp inDone with earlier | last
    · exact clear e member b earlier token found
    · rw [mem_singleton] at last
      subst last
      rw [oldAt, some.injEq] at found
      left
      rw [← found]
      exact ends e member

theorem WalkInvariant.run (oldTokens : TokensFrom old 0 oldWords)
    (newTokens : TokensFrom new 0 newWords) {j : Nat}
    (invariant : WalkInvariant old new oldWords newWords done ahead walk)
    (anchorsFrom : AnchorsFrom (oldWords.map Token.text) (newWords.map Token.text) i j ahead) :
    ∃ last, ahead.foldlM (walkAnchor old new oldWords newWords) walk = some last ∧
      WalkInvariant old new oldWords newWords (done ++ ahead) [] last := by
  induction ahead generalizing done walk with
  | nil => exact ⟨walk, rfl, by simpa using invariant⟩
  | cons a ahead ih =>
    obtain ⟨word, oldWord, newWord⟩ :=
      anchorsFrom.matched a mem_cons_self
    rw [List.getElem?_map, map_eq_some_iff] at oldWord newWord
    obtain ⟨ow, oldAt, oldText⟩ := oldWord
    obtain ⟨nw, newAt, newText⟩ := newWord
    obtain ⟨next, stepped, kept⟩ := invariant.step oldTokens newTokens
      anchorsFrom.growing oldAt newAt (oldText.trans newText.symm)
    have tail : AnchorsFrom (oldWords.map Token.text) (newWords.map Token.text) i j ahead :=
      ⟨fun b member => anchorsFrom.later b (mem_cons_of_mem _ member),
        (pairwise_cons.mp anchorsFrom.growing).2,
        fun b member => anchorsFrom.matched b (mem_cons_of_mem _ member)⟩
    obtain ⟨last, ran, final⟩ := ih kept tail
    refine ⟨last, ?_, ?_⟩
    · rw [foldlM_cons, stepped]
      exact ran
    · rwa [append_assoc] at final

end Walk

/-- What the redline code relies on. -/
structure SplitSound (old new : Text) (opcodes : List Opcode) (result : SplitResult) : Prop where
  rebuilds : applySubEdits old result.subEdits = new
  ordered : result.subEdits.Pairwise fun left right =>
    left.oldStart < right.oldStart ∧ left.oldEnd ≤ right.oldStart
  wellFormed : ∀ e ∈ result.subEdits, e.WellFormed old
  avoids : result.mode = .surgical → ∀ e ∈ result.subEdits, ∀ a ∈ anchors opcodes, ∀ token,
      (wordTokens (tokenize old))[a.1]? = some token → e.Avoids token
  tight : result.mode = .surgical → ∀ e ∈ result.subEdits, Tight e.oldText e.newText

theorem applyLoop_eq_applySplices (old : Text) (cursor : Nat) (subEdits : List SubEdit) :
    applyLoop old cursor subEdits = applySplices old cursor (subEdits.map SubEdit.splice) := by
  induction subEdits generalizing cursor with
  | nil => rfl
  | cons e rest ih =>
    rw [applyLoop, ih]
    rfl

theorem sortSubEdits_eq_self (ordered : subEdits.Pairwise fun left right =>
      left.oldStart < right.oldStart) : sortSubEdits subEdits = subEdits := by
  apply List.Pairwise.insertionSort_eq
  exact ordered.imp Or.inl

section Split

variable {old new : Text} {opcodes : List Opcode}

theorem buildSurgicalEdits_sound (valid : ValidOpcodes old new opcodes) (fraction : Binary64) :
    ∃ subEdits, buildSurgicalEdits old new (wordTokens (tokenize old))
        (wordTokens (tokenize new)) opcodes = some subEdits ∧
      SplitSound old new opcodes ⟨.surgical, fraction, subEdits⟩ := by
  obtain ⟨last, ran, invariant⟩ := (WalkInvariant.start _).run
    (wordTokens_tokens old) (wordTokens_tokens new) valid.anchorsFrom
  obtain ⟨script, each, _, apart, clear⟩ :=
    invariant.emit invariant.oldBound le_rfl invariant.newBound le_rfl rfl
  have ordered := apart.imp_of_mem fun {left right} inLeft _ ends =>
    show left.oldStart < right.oldStart ∧ left.oldEnd ≤ right.oldStart from
      ⟨(each left inLeft).1.ordered.trans_lt ends, ends.le⟩
  have sorted := sortSubEdits_eq_self (ordered.imp And.left)
  refine ⟨_, by simp only [buildSurgicalEdits, ran, bind_eq_bind, bind_some]; rfl, ?_⟩
  rw [sorted]
  constructor
  · rw [applySubEdits, sorted, applyLoop_eq_applySplices]
    exact script.finish
  · exact ordered
  · exact fun e member => (each e member).1
  · exact fun _ e member a inAnchors token found =>
      clear e member a (by simpa using inAnchors) token found
  · exact fun _ e member => (each e member).2

def blockResult (old new : Text) (fraction : Binary64) : SplitResult :=
  ⟨.block, fraction, [⟨classify old new, 0, old.length, old, new⟩]⟩

theorem blockResult_sound_iff (fraction : Binary64) :
    SplitSound old new opcodes (blockResult old new fraction) ↔ old ≠ new := by
  constructor
  · intro sound
    exact (sound.wellFormed _ mem_cons_self).changes
  · intro differ
    constructor
    · simp [applySubEdits, sortSubEdits, blockResult, applyLoop]
    · exact pairwise_singleton _ _
    · intro e member
      obtain rfl := mem_singleton.mp member
      exact ⟨Nat.zero_le _, le_rfl, (slice_whole old).symm, differ,
        classify_insert_iff _ _, classify_delete_iff differ⟩
    · intro surgical
      cases surgical
    · intro surgical
      cases surgical

def effectiveThreshold (threshold : Option Binary64) : Binary64 :=
  threshold.getD (.ofRat (6 / 10))

def ExceedsThreshold (threshold : Option Binary64) (opcodes : List Opcode) :
    Prop :=
  (effectiveThreshold threshold).lt (fractionChanged opcodes) = true

theorem splitChange_of_exceeds {threshold : Option Binary64}
    (exceeds : ExceedsThreshold threshold opcodes) :
    splitChange old new threshold opcodes =
      some (blockResult old new (fractionChanged opcodes)) := by
  have above : (threshold.getD (.ofRat (6 / 10))).lt (fractionChanged opcodes) =
      true := exceeds
  simp only [splitChange, above, Bool.or_true, if_true]
  rfl

/-- **Splitting a change is sound** exactly when the texts differ or the share
of changed words does not exceed the threshold. -/
theorem splitChange_sound_iff (valid : ValidOpcodes old new opcodes) (threshold : Option Binary64) :
    (∃ result, splitChange old new threshold opcodes = some result ∧
      SplitSound old new opcodes result) ↔ (old ≠ new ∨ ¬ ExceedsThreshold threshold opcodes) := by
  by_cases exceeds : ExceedsThreshold threshold opcodes
  · rw [splitChange_of_exceeds exceeds]
    simp [blockResult_sound_iff, exceeds]
  · have below : (threshold.getD (.ofRat (6 / 10))).lt (fractionChanged opcodes) = false := by
      simpa [ExceedsThreshold, effectiveThreshold] using exceeds
    simp only [exceeds, not_false_eq_true, or_true, iff_true]
    by_cases force : (threshold.getD (.ofRat (6 / 10))).le (.finite 0) = true ∧ old ≠ new
    · refine ⟨blockResult old new (fractionChanged opcodes), ?_,
        (blockResult_sound_iff _).mpr force.2⟩
      simp [splitChange, force.1, force.2, blockResult]
    · obtain ⟨subEdits, built, sound⟩ :=
        buildSurgicalEdits_sound valid (fractionChanged opcodes)
      refine ⟨_, ?_, sound⟩
      have surgical : ((threshold.getD (.ofRat (6 / 10))).le (.finite 0) &&
          decide (old ≠ new)) = false := by
        simpa using force
      simp only [splitChange, surgical, below, Bool.or_false,
        Bool.false_eq_true, if_false, built, map_some]

end Split

/-- A misspelled word between two matched ones. -/
theorem splitChange_sound_misspelling :
    ∃ result, splitChange "see teh cat".toList "see the cat".toList none
        [⟨.equal, 0, 1, 0, 1⟩, ⟨.replace, 1, 2, 1, 2⟩, ⟨.equal, 2, 3, 2, 3⟩] = some result ∧
      SplitSound "see teh cat".toList "see the cat".toList
        [⟨.equal, 0, 1, 0, 1⟩, ⟨.replace, 1, 2, 1, 2⟩, ⟨.equal, 2, 3, 2, 3⟩]
        result :=
  (splitChange_sound_iff (by decide) none).mpr (Or.inl (by decide))

/-- With a negative threshold equal texts are replaced as a block, although
nothing changes. -/
theorem not_splitChange_sound_negativeThreshold :
    ValidOpcodes "a".toList "a".toList [⟨.equal, 0, 1, 0, 1⟩] ∧
      ¬ ∃ result, splitChange "a".toList "a".toList (some (.finite (-1)))
          [⟨.equal, 0, 1, 0, 1⟩] = some result ∧
        SplitSound "a".toList "a".toList [⟨.equal, 0, 1, 0, 1⟩] result := by
  refine ⟨by decide, ?_⟩
  intro sound
  obtain ⟨result, split, sound⟩ := sound
  have unchanged : fractionChanged [⟨.equal, 0, 1, 0, 1⟩] = .finite 0 := by
    have zero := @Binary64.ofRat_intCast 0 (by decide)
    simpa [fractionChanged, countWords] using zero
  have exceeds : ExceedsThreshold (some (.finite (-1))) [⟨.equal, 0, 1, 0, 1⟩] := by
    rw [ExceedsThreshold, unchanged]
    decide
  rw [splitChange_of_exceeds exceeds, some.injEq] at split
  subst split
  exact (blockResult_sound_iff _).mp sound rfl

end WriterAgent.Writer
