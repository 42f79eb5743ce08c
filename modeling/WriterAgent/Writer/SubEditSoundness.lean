import WriterAgent.Writer.WordDiffSplit

/-!
# Sub-edits rebuild the new text

Between two matched words both texts have a segment.  The segments and the
matched words tile both texts, so the sub-edits written for the segments form
an edit script.
-/

namespace WriterAgent.Writer

open PyText List

structure Token.Inside (whole : Text) (token : Token) : Prop where
  ordered : token.start < token.stop
  bound : token.stop ≤ whole.length
  textEq : slice whole token.start token.stop = token.text

/-- The tokens after an offset: in order, without overlap. -/
structure TokensFrom (whole : Text) (i : Nat) (tokens : List Token) : Prop where
  inside : ∀ token ∈ tokens, token.Inside whole
  later : ∀ token ∈ tokens, i ≤ token.start
  apart : tokens.Pairwise fun left right => left.stop ≤ right.start

theorem tokenizeLoop_tokens {fuel : Nat} {front s : Text} :
    TokensFrom (front ++ s) front.length (tokenizeLoop fuel front.length s) := by
  induction fuel generalizing front s with
  | zero => exact ⟨by simp [tokenizeLoop], by simp [tokenizeLoop], by simp [tokenizeLoop]⟩
  | succ fuel ih =>
    cases s with
    | nil => exact ⟨by simp [tokenizeLoop], by simp [tokenizeLoop], by simp [tokenizeLoop]⟩
    | cons c rest =>
      let run := c :: rest.takeWhile fun d => !isSpace d == !isSpace c
      let after := rest.dropWhile fun d => !isSpace d == !isSpace c
      have split : c :: rest = run ++ after := by simp [run, after, takeWhile_append_dropWhile]
      have tail := @ih (front ++ run) after
      rw [length_append, append_assoc, ← split] at tail
      have positive : 0 < run.length := by simp [run]
      have loop : tokenizeLoop (fuel + 1) front.length (c :: rest) =
          ⟨run, front.length, front.length + run.length, !isSpace c⟩ ::
            tokenizeLoop fuel (front.length + run.length) after := rfl
      rw [loop]
      refine ⟨?_, ?_, ?_⟩
      · intro token member
        rcases mem_cons.mp member with rfl | inTail
        · refine ⟨by simpa using positive, ?_, ?_⟩
          · rw [split]
            simp
          · rw [split]
            exact slice_eq_of_append
        · exact tail.inside token inTail
      · intro token member
        rcases mem_cons.mp member with rfl | inTail
        · exact le_refl _
        · have bound := tail.later token inTail
          omega
      · rw [pairwise_cons]
        exact ⟨fun token inTail => tail.later token inTail, tail.apart⟩

theorem wordTokens_tokens (s : Text) : TokensFrom s 0 (wordTokens (tokenize s)) := by
  have tokens := @tokenizeLoop_tokens s.length [] s
  have sublist : (wordTokens (tokenize s)).Sublist (tokenize s) :=
    filter_sublist
  exact ⟨fun token member => tokens.inside token (sublist.subset member),
    fun token _ => Nat.zero_le _, tokens.apart.sublist sublist⟩

theorem commonSpaces_spec (bound : Nat) (left right : Text) :
    ∃ front leftRest rightRest, left = front ++ leftRest ∧
      right = front ++ rightRest ∧
      front.length = commonSpaces bound left right ∧
      front.length ≤ bound ∧
      (front.length = bound ∨ ∀ c, leftRest.head? = some c →
        rightRest.head? = some c → isSpace c = false) := by
  induction bound generalizing left right with
  | zero => exact ⟨[], left, right, rfl, rfl, by simp [commonSpaces], le_rfl, Or.inl rfl⟩
  | succ bound ih =>
    cases left with
    | nil => exact ⟨[], [], right, rfl, rfl, by simp [commonSpaces],
        Nat.zero_le _, Or.inr (by simp)⟩
    | cons c left =>
      cases right with
      | nil => exact ⟨[], c :: left, [], rfl, rfl, by simp [commonSpaces],
          Nat.zero_le _, Or.inr (by simp)⟩
      | cons d right =>
        by_cases shared : c = d ∧ isSpace c = true
        · obtain ⟨front, leftRest, rightRest, leftEq, rightEq, lengthEq,
            short, maximal⟩ := ih left right
          refine ⟨c :: front, leftRest, rightRest, ?_, ?_, ?_, ?_, ?_⟩
          · rw [leftEq]
            rfl
          · rw [rightEq, shared.1]
            rfl
          · rw [commonSpaces, if_pos shared, ← lengthEq]
            rfl
          · rw [length_cons]
            omega
          · rcases maximal with full | stops
            · left
              rw [length_cons, full]
            · exact Or.inr stops
        · refine ⟨[], c :: left, d :: right, rfl, rfl, ?_, Nat.zero_le _, Or.inr ?_⟩
          · rw [commonSpaces, if_neg shared]
            rfl
          · intro e leftHead rightHead
            cases leftHead
            cases rightHead
            simpa using shared

/-- Two texts share no white space at their starts or at their ends. -/
structure Tight (left right : Text) : Prop where
  front : ∀ c, isSpace c = true → left.head? = some c →
    right.head? ≠ some c
  back : ∀ c, isSpace c = true → left.getLast? = some c →
    right.getLast? ≠ some c

theorem trim_spec (left right : Text) :
    let limit := min left.length right.length
    let p := commonSpaces limit left right
    let s := commonSpaces (limit - p) left.reverse right.reverse
    ∃ front leftMid rightMid back,
      left = front ++ (leftMid ++ back) ∧
        right = front ++ (rightMid ++ back) ∧
        front.length = p ∧ back.length = s ∧ Tight leftMid rightMid := by
  intro limit p s
  obtain ⟨front, leftRest, rightRest, leftEq, rightEq, frontLength, frontShort,
    frontMaximal⟩ := commonSpaces_spec limit left right
  have frontLength' : front.length = p := frontLength
  obtain ⟨back, leftFront, rightFront, leftRev, rightRev, backLength, backShort,
    backMaximal⟩ := commonSpaces_spec (limit - p) left.reverse right.reverse
  have backLength' : back.length = s := backLength
  have leftLength : front.length + leftRest.length = left.length := by rw [leftEq, length_append]
  have rightLength : front.length + rightRest.length = right.length := by
    rw [rightEq, length_append]
  have limitEq : limit = min left.length right.length := rfl
  -- The reversed back is a suffix of what the front leaves.
  have suffix : ∀ {text rest other : Text}, text = front ++ rest →
      text.reverse = back ++ other → back.length ≤ rest.length →
        ∃ mid, rest = mid ++ back.reverse := by
    intro text rest other textEq reversed short
    have ends : back.reverse <:+ text := by
      rw [← reverse_reverse text, reversed, reverse_append]
      exact suffix_append _ _
    have restEnds : rest <:+ text := textEq ▸ suffix_append _ _
    obtain ⟨mid, midEq⟩ := suffix_of_suffix_length_le ends restEnds (by simpa using short)
    exact ⟨mid, midEq.symm⟩
  obtain ⟨leftMid, leftMidEq⟩ := suffix leftEq leftRev (by omega)
  obtain ⟨rightMid, rightMidEq⟩ := suffix rightEq rightRev (by omega)
  refine ⟨front, leftMid, rightMid, back.reverse, by rw [leftEq, leftMidEq],
    by rw [rightEq, rightMidEq], frontLength', by simpa using backLength', ?_⟩
  have leftMidLength : leftMid.length + back.length = leftRest.length := by
    rw [leftMidEq, length_append, length_reverse]
  have rightMidLength : rightMid.length + back.length = rightRest.length := by
    rw [rightMidEq, length_append, length_reverse]
  constructor
  · intro c space leftHead rightHead
    rcases frontMaximal with full | stops
    · have leftSome := length_pos_of_mem (mem_of_mem_head? leftHead)
      have rightSome := length_pos_of_mem (mem_of_mem_head? rightHead)
      omega
    · have visible := stops c (by rw [leftMidEq, List.head?_append, leftHead]; rfl)
        (by rw [rightMidEq, List.head?_append, rightHead]; rfl)
      simp [space] at visible
  · intro c space leftLast rightLast
    rcases backMaximal with full | stops
    · have leftSome := length_pos_of_mem (mem_of_getLast? leftLast)
      have rightSome := length_pos_of_mem (mem_of_getLast? rightLast)
      omega
    · have reversed : ∀ {text other mid rest : Text}, text = front ++ rest →
          text.reverse = back ++ other → rest = mid ++ back.reverse →
            mid.getLast? = some c → other.head? = some c := by
        intro text other mid rest textEq textRev restEq last
        rw [textEq, restEq, reverse_append, reverse_append,
          reverse_reverse, append_assoc] at textRev
        have otherEq := append_cancel_left textRev
        rw [← otherEq, List.head?_append, List.head?_reverse, last]
        rfl
      have visible := stops c (reversed leftEq leftRev leftMidEq leftLast)
        (reversed rightEq rightRev rightMidEq rightLast)
      simp [space] at visible

structure SubEdit.WellFormed (old : Text) (e : SubEdit) : Prop where
  ordered : e.oldStart ≤ e.oldEnd
  bound : e.oldEnd ≤ old.length
  oldTextEq : e.oldText = slice old e.oldStart e.oldEnd
  changes : e.oldText ≠ e.newText
  insert_iff : e.op = .insert ↔ e.oldText = []
  delete_iff : e.op = .delete ↔ e.newText = []

theorem classify_insert_iff (oldText newText : Text) :
    classify oldText newText = .insert ↔ oldText = [] := by
  unfold classify
  split
  · simp_all
  · split <;> simp_all

theorem classify_delete_iff {oldText newText : Text} (changes : oldText ≠ newText) :
    classify oldText newText = .delete ↔ newText = [] := by
  unfold classify
  split
  · rename_i empty
    rw [List.isEmpty_iff] at empty
    subst empty
    simpa using Ne.symm changes
  · split <;> simp_all

def SubEdit.splice (e : SubEdit) : Splice Char :=
  ⟨e.oldStart, e.oldEnd, e.newText⟩

section Segment

variable {old new : Text} {oldLo oldHi newLo newHi : Nat}

structure SegmentEdit (old new : Text) (oldLo oldHi newLo newHi : Nat) (e : SubEdit) : Prop where
  wellFormed : e.WellFormed old
  tight : Tight e.oldText e.newText
  starts : oldLo ≤ e.oldStart
  ends : e.oldEnd ≤ oldHi
  rebuilds : ∀ {script}, Transforms old new script oldLo newLo →
    Transforms old new (script ++ [e.splice]) oldHi newHi

theorem emitSegment_of_ne (oldOrdered : oldLo ≤ oldHi) (oldBound : oldHi ≤ old.length)
    (newOrdered : newLo ≤ newHi) (newBound : newHi ≤ new.length)
    (differ : slice old oldLo oldHi ≠ slice new newLo newHi) :
    ∃ e, emitSegment old new oldLo oldHi newLo newHi = some e ∧
      SegmentEdit old new oldLo oldHi newLo newHi e := by
  obtain ⟨front, oldMid, newMid, back, oldEq, newEq, frontLength, backLength,
    tight⟩ := trim_spec (slice old oldLo oldHi) (slice new newLo newHi)
  have oldText := slice_middle oldBound oldEq
  have newText := slice_middle newBound newEq
  have oldWidth := length_slice oldLo oldBound
  have newWidth := length_slice newLo newBound
  rw [oldEq, length_append, length_append] at oldWidth
  rw [newEq, length_append, length_append] at newWidth
  have changes : oldMid ≠ newMid := by
    rintro rfl
    exact differ (oldEq.trans newEq.symm)
  have notBothEmpty : ¬ (oldMid.isEmpty && newMid.isEmpty) = true := by
    simp only [Bool.and_eq_true, List.isEmpty_iff]
    rintro ⟨rfl, rfl⟩
    exact changes rfl
  refine ⟨⟨classify oldMid newMid, oldLo + front.length, oldHi - back.length,
    oldMid, newMid⟩, ?_, ?_⟩
  · simp only [emitSegment, if_neg differ]
    rw [← backLength, ← frontLength, oldText, newText, if_neg notBothEmpty]
  · refine ⟨⟨?_, ?_, oldText.symm, changes, classify_insert_iff _ _,
      classify_delete_iff changes⟩, tight, Nat.le_add_right _ _,
      Nat.sub_le _ _, ?_⟩
    · change oldLo + front.length ≤ oldHi - back.length
      omega
    · exact (Nat.sub_le _ _).trans oldBound
    · intro script transforms
      have oldFront := slice_front oldOrdered oldBound oldEq
      have newFront := slice_front newOrdered newBound newEq
      have oldBack := slice_back oldBound oldEq
      have newBack := slice_back newBound newEq
      have kept := transforms.keep (Nat.le_add_right _ _)
        (Nat.le_add_right _ _) (oldFront.trans newFront.symm)
      have replaced := kept.replace (k := oldHi - back.length)
        (show newLo + front.length ≤ newHi - back.length by omega)
      rw [newText] at replaced
      exact replaced.keep (Nat.sub_le _ _) (Nat.sub_le _ _) (oldBack.trans newBack.symm)

theorem emitSegment_spec (oldOrdered : oldLo ≤ oldHi) (oldBound : oldHi ≤ old.length)
    (newOrdered : newLo ≤ newHi) (newBound : newHi ≤ new.length) :
    (∀ e ∈ (emitSegment old new oldLo oldHi newLo newHi).toList,
      SegmentEdit old new oldLo oldHi newLo newHi e) ∧
    ∀ subEdits : List SubEdit, Transforms old new (subEdits.map SubEdit.splice) oldLo newLo →
        Transforms old new ((subEdits ++ (emitSegment old new oldLo oldHi newLo newHi).toList).map
            SubEdit.splice) oldHi newHi := by
  by_cases same : slice old oldLo oldHi = slice new newLo newHi
  · have none : emitSegment old new oldLo oldHi newLo newHi = none := by
      simp only [emitSegment, if_pos same]
    rw [none]
    refine ⟨by simp, ?_⟩
    intro subEdits transforms
    rw [Option.toList_none, append_nil]
    exact transforms.keep oldOrdered newOrdered same
  · obtain ⟨e, emitted, segment⟩ :=
      emitSegment_of_ne oldOrdered oldBound newOrdered newBound same
    rw [emitted]
    refine ⟨by simpa using segment, ?_⟩
    intro subEdits transforms
    rw [map_append]
    exact segment.rebuilds transforms

end Segment

/-- What `difflib` promises of one opcode. -/
def Opcode.Fits (oldWords newWords : List Text) (op : Opcode) : Prop :=
  match op.tag with
  | .equal => op.i1 < op.i2 ∧ op.i2 - op.i1 = op.j2 - op.j1 ∧
      slice oldWords op.i1 op.i2 = slice newWords op.j1 op.j2
  | .replace => op.i1 < op.i2 ∧ op.j1 < op.j2
  | .delete => op.i1 < op.i2 ∧ op.j1 = op.j2
  | .insert => op.i1 = op.i2 ∧ op.j1 < op.j2

/-- The opcodes are contiguous from the given word indices to the ends. -/
def PartitionFrom (oldWords newWords : List Text) : Nat → Nat → List Opcode → Prop
  | i, j, [] => i = oldWords.length ∧ j = newWords.length
  | i, j, op :: rest =>
    op.i1 = i ∧ op.j1 = j ∧ op.Fits oldWords newWords ∧
      PartitionFrom oldWords newWords op.i2 op.j2 rest

/-- The opcodes of `difflib` on the words of two texts. -/
def ValidOpcodes (old new : Text) (opcodes : List Opcode) : Prop :=
  PartitionFrom ((wordTokens (tokenize old)).map Token.text)
    ((wordTokens (tokenize new)).map Token.text) 0 0 opcodes

instance Opcode.decidableFits (oldWords newWords : List Text) :
    (op : Opcode) → Decidable (op.Fits oldWords newWords)
  | ⟨.equal, i1, i2, j1, j2⟩ =>
    inferInstanceAs (Decidable (i1 < i2 ∧ i2 - i1 = j2 - j1 ∧
      slice oldWords i1 i2 = slice newWords j1 j2))
  | ⟨.replace, i1, i2, j1, j2⟩ => inferInstanceAs (Decidable (i1 < i2 ∧ j1 < j2))
  | ⟨.delete, i1, i2, j1, j2⟩ => inferInstanceAs (Decidable (i1 < i2 ∧ j1 = j2))
  | ⟨.insert, i1, i2, j1, j2⟩ => inferInstanceAs (Decidable (i1 = i2 ∧ j1 < j2))

instance decidablePartitionFrom (oldWords newWords : List Text) :
    (i j : Nat) → (opcodes : List Opcode) → Decidable (PartitionFrom oldWords newWords i j opcodes)
  | i, j, [] => inferInstanceAs (Decidable (i = oldWords.length ∧ j = newWords.length))
  | i, j, op :: rest =>
    have := decidablePartitionFrom oldWords newWords op.i2 op.j2 rest
    inferInstanceAs (Decidable (op.i1 = i ∧ op.j1 = j ∧ op.Fits oldWords newWords ∧
        PartitionFrom oldWords newWords op.i2 op.j2 rest))

instance (old new : Text) (opcodes : List Opcode) : Decidable (ValidOpcodes old new opcodes) :=
  inferInstanceAs (Decidable (PartitionFrom _ _ 0 0 opcodes))

/-- Pairs of word indices from the given ones on, both strictly growing, that
name equal words. -/
structure AnchorsFrom (oldWords newWords : List Text) (i j : Nat)
    (pairs : List (Nat × Nat)) : Prop where
  later : ∀ a ∈ pairs, i ≤ a.1 ∧ j ≤ a.2
  growing : pairs.Pairwise fun a b => a.1 < b.1 ∧ a.2 < b.2
  matched : ∀ a ∈ pairs, ∃ word, oldWords[a.1]? = some word ∧ newWords[a.2]? = some word

variable {oldWords newWords : List Text} {i j k : Nat} {opcodes : List Opcode}

theorem Opcode.Fits.grows {op : Opcode} (fits : op.Fits oldWords newWords) :
    op.i1 ≤ op.i2 ∧ op.j1 ≤ op.j2 := by
  unfold Opcode.Fits at fits
  cases tag : op.tag <;> simp only [tag] at fits <;> omega

theorem PartitionFrom.bounds (partition : PartitionFrom oldWords newWords i j opcodes) :
    i ≤ oldWords.length ∧ j ≤ newWords.length := by
  induction opcodes generalizing i j with
  | nil => exact ⟨partition.1.le, partition.2.le⟩
  | cons op rest ih =>
    obtain ⟨rfl, rfl, fits, tail⟩ := partition
    obtain ⟨oldBound, newBound⟩ := ih tail
    exact ⟨fits.grows.1.trans oldBound, fits.grows.2.trans newBound⟩

theorem anchorsFrom_equal (oldBound : i + k ≤ oldWords.length) (newBound : j + k ≤ newWords.length)
    (same : slice oldWords i (i + k) = slice newWords j (j + k)) :
    AnchorsFrom oldWords newWords i j ((List.range k).map fun d => (i + d, j + d)) := by
  constructor
  · intro a member
    obtain ⟨d, _, rfl⟩ := mem_map.mp member
    exact ⟨Nat.le_add_right _ _, Nat.le_add_right _ _⟩
  · rw [pairwise_map]
    apply pairwise_lt_range.imp
    intro d e smaller
    exact ⟨by omega, by omega⟩
  · intro a member
    obtain ⟨d, inRange, rfl⟩ := mem_map.mp member
    rw [mem_range] at inRange
    have entry : ∀ {words : List Text} {m : Nat}, m + k ≤ words.length →
        (slice words m (m + k))[d]? = words[m + d]? := by
      intro words m _
      rw [slice, Nat.add_sub_cancel_left, List.getElem?_take_of_lt inRange, List.getElem?_drop]
    refine ⟨oldWords[i + d], List.getElem?_eq_getElem (by omega), ?_⟩
    rw [← entry newBound, ← same, entry oldBound]
    exact List.getElem?_eq_getElem (by omega)

theorem AnchorsFrom.append {l : Nat} {front back : List (Nat × Nat)}
    (first : AnchorsFrom oldWords newWords i j front)
    (second : AnchorsFrom oldWords newWords k l back) (oldOrdered : i ≤ k)
    (newOrdered : j ≤ l) (between : ∀ a ∈ front, a.1 < k ∧ a.2 < l) :
    AnchorsFrom oldWords newWords i j (front ++ back) := by
  constructor
  · intro a member
    rcases mem_append.mp member with inFront | inBack
    · exact first.later a inFront
    · obtain ⟨oldLater, newLater⟩ := second.later a inBack
      exact ⟨oldOrdered.trans oldLater, newOrdered.trans newLater⟩
  · rw [pairwise_append]
    refine ⟨first.growing, second.growing, ?_⟩
    intro a inFront b inBack
    have low := between a inFront
    have high := second.later b inBack
    omega
  · intro a member
    rcases mem_append.mp member with inFront | inBack
    · exact first.matched a inFront
    · exact second.matched a inBack

theorem PartitionFrom.anchorsFrom (partition : PartitionFrom oldWords newWords i j opcodes) :
    AnchorsFrom oldWords newWords i j (anchors opcodes) := by
  induction opcodes generalizing i j with
  | nil => exact ⟨by simp [anchors], by simp [anchors], by simp [anchors]⟩
  | cons op rest ih =>
    obtain ⟨rfl, rfl, fits, tail⟩ := partition
    obtain ⟨oldBound, newBound⟩ := tail.bounds
    have grows := fits.grows
    have later := ih tail
    have split : anchors (op :: rest) = (if op.tag = .equal then
          (List.range (op.i2 - op.i1)).map fun d => (op.i1 + d, op.j1 + d)
        else []) ++ anchors rest := rfl
    rw [split]
    by_cases equal : op.tag = .equal
    · rw [if_pos equal]
      simp only [Opcode.Fits, equal] at fits
      have oldStop : op.i1 + (op.i2 - op.i1) = op.i2 := by omega
      have newStop : op.j1 + (op.i2 - op.i1) = op.j2 := by omega
      refine AnchorsFrom.append (anchorsFrom_equal (by omega) (by omega) ?_)
        later grows.1 grows.2 ?_
      · rw [oldStop, newStop]
        exact fits.2.2
      · intro a member
        obtain ⟨d, inRange, rfl⟩ := mem_map.mp member
        rw [mem_range] at inRange
        constructor <;> omega
    · rw [if_neg equal]
      refine ⟨?_, later.growing, later.matched⟩
      intro a member
      obtain ⟨oldLater, newLater⟩ := later.later a member
      exact ⟨grows.1.trans oldLater, grows.2.trans newLater⟩

end WriterAgent.Writer
