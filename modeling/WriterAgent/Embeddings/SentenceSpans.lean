import Mathlib.Algebra.Order.Group.Int
import WriterAgent.Foundations.IntervalGroups
import WriterAgent.Foundations.Text

/-!
# Chunks of a passage

A passage is split into sentences, and `_merge_small_sentences_to_spans` makes
one chunk of each, except that neighbours below the minimal size are glued
together.
-/

namespace WriterAgent.Embeddings

open PyText IntervalGroups List

/-- A triple of start, end and text. -/
structure Sentence where
  start : ℤ
  stop : ℤ
  text : Text
  deriving DecidableEq, Repr

/-- One turn of the loop of `_filter_ordered_sentence_spans`: `ordered` and
`prev_end`. -/
def filterStep (state : List Sentence × Option ℤ) (sentence : Sentence) :
    List Sentence × Option ℤ :=
  let (ordered, prevEnd) := state
  if ¬ (0 ≤ sentence.start ∧ sentence.start ≤ sentence.stop) then state
  else if ∃ stop ∈ prevEnd, sentence.start < stop then state
  else (ordered ++ [sentence], some sentence.stop)

def filterOrderedSentenceSpans (sentences : List Sentence) : List Sentence :=
  (sentences.foldl filterStep ([], none)).1

/-- The spans so far, and `buffer_start` and `buffer_end`, which are set and
cleared together. -/
structure MergeState where
  spans : List (ℤ × ℤ)
  buffer : Option (ℤ × ℤ)
  deriving DecidableEq, Repr

def flushBuffer (minChunk : ℤ) (foldRemainder : Bool) (state : MergeState) : MergeState :=
  match state.buffer with
  | none => state
  | some (bufferStart, bufferEnd) =>
    match state.spans.getLast? with
    | some (prevStart, _) =>
      if foldRemainder ∧ bufferEnd - bufferStart < minChunk ∧ prevStart ≤ bufferEnd then
        ⟨state.spans.dropLast ++ [(prevStart, bufferEnd)], none⟩
      else ⟨state.spans ++ [(bufferStart, bufferEnd)], none⟩
    | none => ⟨state.spans ++ [(bufferStart, bufferEnd)], none⟩

def mergeStep (minChunk : ℤ) (state : MergeState) (sentence : Sentence) : MergeState :=
  match state.buffer with
  | none =>
    if minChunk ≤ sentence.text.length then
      ⟨state.spans ++ [(sentence.start, sentence.stop)], none⟩
    else ⟨state.spans, some (sentence.start, sentence.stop)⟩
  | some (bufferStart, _) =>
    if minChunk ≤ sentence.text.length then
      let flushed := flushBuffer minChunk true state
      { flushed with spans := flushed.spans ++ [(sentence.start, sentence.stop)] }
    else
      let extended := { state with buffer := some (bufferStart, sentence.stop) }
      if minChunk ≤ sentence.stop - bufferStart then flushBuffer minChunk false extended
      else extended

/-- `_merge_small_sentences_to_spans`.  The passage itself is not looked at. -/
def mergeSmallSentencesToSpans (_passage : Text) (sentences : List Sentence)
    (minChunk : ℤ) : List (ℤ × ℤ) :=
  let sentences := filterOrderedSentenceSpans sentences
  if sentences = [] then []
  else (flushBuffer minChunk true (sentences.foldl (mergeStep minChunk) ⟨[], none⟩)).spans

/-- `_sentences_spans_ok`: the sentences stand one behind another in the
passage, from position zero on. -/
structure SentencesOrdered (sentences : List Sentence) : Prop where
  fromZero : ∀ sentence ∈ sentences, 0 ≤ sentence.start
  sequential : Sequential Sentence.start Sentence.stop sentences

def TextsMeasured (sentences : List Sentence) : Prop :=
  ∀ sentence ∈ sentences, sentence.stop - sentence.start = sentence.text.length

variable {sentences : List Sentence} {sentence : Sentence} {buffer : Option (Cluster Sentence)}

theorem foldl_filterStep {before : List Sentence} {prevEnd : Option ℤ}
    (ordered : SentencesOrdered sentences)
    (behind : ∀ stop ∈ prevEnd, ∀ sentence ∈ sentences, stop ≤ sentence.start) :
    (sentences.foldl filterStep (before, prevEnd)).1 = before ++ sentences := by
  induction sentences generalizing before prevEnd with
  | nil => simp
  | cons sentence rest induction =>
    have forward : 0 ≤ sentence.start ∧ sentence.start ≤ sentence.stop :=
      ⟨ordered.fromZero sentence mem_cons_self, ordered.sequential.forward sentence mem_cons_self⟩
    have inOrder : ¬ ∃ stop ∈ prevEnd, sentence.start < stop := by
      intro early
      obtain ⟨stop, earlier, less⟩ := early
      exact absurd (behind stop earlier sentence mem_cons_self) (not_le.2 less)
    have apart := pairwise_cons.1 ordered.sequential.apart
    have kept : filterStep (before, prevEnd) sentence =
        (before ++ [sentence], some sentence.stop) := by
      rw [filterStep, if_neg (not_not.2 forward), if_neg inOrder]
    rw [foldl_cons, kept, induction, append_assoc, singleton_append]
    · exact
        { fromZero := fun later member =>
            ordered.fromZero later (mem_cons_of_mem _ member)
          sequential :=
            { forward := fun later member =>
                ordered.sequential.forward later (mem_cons_of_mem _ member)
              apart := apart.2 } }
    · intro stop isStop later member
      obtain rfl := Option.some.inj isStop
      exact apart.1 later member

theorem filterOrderedSentenceSpans_of_ordered (ordered : SentencesOrdered sentences) :
    filterOrderedSentenceSpans sentences = sentences :=
  foldl_filterStep ordered (by simp)

def spanOf (group : Cluster Sentence) : ℤ × ℤ :=
  hull Sentence.start Sentence.stop group

def spanLength (span : ℤ × ℤ) : ℤ := span.2 - span.1

/-- Every group but the first is large enough, and a sentence of the minimal
size only stands first in its group. -/
structure Chunked (minChunk : ℤ) (groups : List (Cluster Sentence)) : Prop where
  large : ∀ group ∈ groups.tail, minChunk ≤ spanLength (spanOf group)
  short : ∀ group ∈ groups, ∀ sentence ∈ group.rest, sentence.text.length < minChunk

/-- The buffer holds short sentences, too few of them for a group. -/
structure Buffered (minChunk : ℤ) (buffer : Cluster Sentence) : Prop where
  short : ∀ sentence ∈ buffer.items, sentence.text.length < minChunk
  small : spanLength (spanOf buffer) < minChunk

/-- What the loop has made of the sentences `done`. -/
structure Progress (minChunk : ℤ) (done : List Sentence) (state : MergeState)
    (groups : List (Cluster Sentence)) (buffer : Option (Cluster Sentence)) : Prop where
  parts : ungroup (groups ++ buffer.toList) = done
  spans : state.spans = groups.map spanOf
  holds : state.buffer = buffer.map spanOf
  chunked : Chunked minChunk groups
  buffered : ∀ held ∈ buffer, Buffered minChunk held

variable {minChunk : ℤ} {done : List Sentence} {state : MergeState}
  {groups front : List (Cluster Sentence)} {group held : Cluster Sentence}

theorem Chunked.snoc (chunked : Chunked minChunk groups)
    (large : groups ≠ [] → minChunk ≤ spanLength (spanOf group))
    (short : ∀ sentence ∈ group.rest, sentence.text.length < minChunk) :
    Chunked minChunk (groups ++ [group]) where
  large := by
    cases groups with
    | nil => simp
    | cons head rest =>
      intro other member
      rcases mem_append.1 member with before | last
      · exact chunked.large other before
      · rw [mem_singleton.1 last]
        exact large (cons_ne_nil _ _)
  short := by
    intro other member
    rcases mem_append.1 member with before | last
    · exact chunked.short other before
    · rw [mem_singleton.1 last]
      exact short

theorem Chunked.fold (chunked : Chunked minChunk (front ++ [group]))
    (sequential : Sequential Sentence.start Sentence.stop (ungroup (front ++ [group] ++ [held])))
    (short : ∀ sentence ∈ held.items, sentence.text.length < minChunk) :
    Chunked minChunk (front ++ [group.append held]) := by
  have member : group ∈ front ++ [group] := mem_append_right _ (mem_singleton.2 rfl)
  have kept : Chunked minChunk front :=
    { large := fun other inFront => chunked.large other (by
        cases front with
        | nil => exact inFront
        | cons head rest => exact mem_append_left _ inFront)
      short := fun other inFront => chunked.short other (mem_append_left _ inFront) }
  refine kept.snoc ?_ ?_
  · intro notFirst
    have groupLarge : minChunk ≤ spanLength (spanOf group) := chunked.large group (by
      cases front with
      | nil => exact absurd rfl notFirst
      | cons head rest => exact mem_append_right _ (mem_singleton.2 rfl))
    rw [ungroup_append] at sequential
    have grows : group.last.stop ≤ held.last.stop := le_trans
      (sequential.between (mem_ungroup.2 ⟨group, member, group.last_mem⟩)
        (by simpa using held.last_mem))
      (sequential.of_append.2.forward held.last (by simpa using held.last_mem))
    simp only [spanLength, spanOf, hull, Cluster.first_append, Cluster.last_append] at groupLarge ⊢
    omega
  · intro sentence inRest
    rcases mem_append.1 inRest with old | new
    · exact chunked.short group member sentence old
    · exact short sentence new

theorem Progress.flush (progress : Progress minChunk done state groups (some held))
    (sequential : Sequential Sentence.start Sentence.stop done) :
    ∃ groups', Progress minChunk done (flushBuffer minChunk true state) groups' none := by
  have buffered := progress.buffered held rfl
  obtain ⟨spans, buffer⟩ := state
  obtain rfl : spans = groups.map spanOf := progress.spans
  obtain rfl : buffer = some (spanOf held) := progress.holds
  have parts := progress.parts
  rcases eq_nil_or_concat groups with rfl | ⟨front, group, rfl⟩
  · refine ⟨[held], ?_⟩
    exact
      { parts := parts
        spans := by simp [flushBuffer, spanOf, hull]
        holds := by simp [flushBuffer, spanOf, hull]
        chunked := by
          have short := fun sentence member =>
            buffered.short sentence (mem_cons_of_mem _ member)
          have none : Chunked minChunk [] := ⟨by simp, by simp⟩
          exact none.snoc (absurd rfl) short
        buffered := by simp }
  · rw [concat_eq_append] at progress parts ⊢
    rw [← parts] at sequential
    have reaches : group.first.start ≤ held.last.stop := by
      have split := sequential
      rw [ungroup_append] at split
      have member : group.first ∈ ungroup (front ++ [group]) := by simp [group.first_mem]
      exact le_trans (split.of_append.1.forward _ member) (le_trans
        (split.between member (by simpa using held.last_mem))
        (split.of_append.2.forward held.last (by simpa using held.last_mem)))
    have flushed : flushBuffer minChunk true ⟨(front ++ [group]).map spanOf, some (spanOf held)⟩ =
          ⟨front.map spanOf ++ [spanOf (group.append held)], none⟩ := by
      have small := buffered.small
      simp only [spanLength, spanOf, hull] at small
      simp [flushBuffer, spanOf, hull, small, reaches]
    refine ⟨front ++ [group.append held], ?_⟩
    rw [flushed]
    exact
      { parts := by
          rw [← parts]
          simp [ungroup]
        spans := by simp
        holds := rfl
        chunked := progress.chunked.fold sequential buffered.short
        buffered := by simp }

theorem Progress.start (progress : Progress minChunk done state groups none)
    (long : minChunk ≤ sentence.text.length)
    (measured : sentence.stop - sentence.start = sentence.text.length) :
    Progress minChunk (done ++ [sentence]) ⟨state.spans ++ [(sentence.start, sentence.stop)], none⟩
      (groups ++ [Cluster.single sentence]) none where
  parts := by simpa using progress.parts
  spans := by simp [progress.spans, spanOf, hull, Cluster.single, Cluster.last]
  holds := rfl
  chunked := progress.chunked.snoc (fun _ => by
      have extent : spanOf (Cluster.single sentence) = (sentence.start, sentence.stop) := rfl
      rw [extent, spanLength]
      omega)
    (by simp [Cluster.single])
  buffered := by simp

theorem Progress.step (progress : Progress minChunk done state groups buffer)
    (sequential : Sequential Sentence.start Sentence.stop (done ++ [sentence]))
    (measured : sentence.stop - sentence.start = sentence.text.length) :
    ∃ groups' buffer', Progress minChunk (done ++ [sentence])
      (mergeStep minChunk state sentence) groups' buffer' := by
  cases buffer with
  | none =>
    have free : state.buffer = none := progress.holds
    rw [mergeStep, free]
    by_cases long : minChunk ≤ sentence.text.length
    · simp only [if_pos long]
      exact ⟨_, none, progress.start long measured⟩
    · simp only [if_neg long]
      exact ⟨groups, some (Cluster.single sentence),
        { parts := by simpa using progress.parts
          spans := progress.spans
          holds := rfl
          chunked := progress.chunked
          buffered := by
            intro held isHeld
            obtain rfl := Option.some.inj isHeld
            have measure : spanLength (spanOf (Cluster.single sentence)) =
                sentence.stop - sentence.start := rfl
            exact
              { short := by simpa using long
                small := by omega } }⟩
  | some held =>
    have holds : state.buffer = some (held.first.start, held.last.stop) := progress.holds
    have buffered := progress.buffered held rfl
    rw [mergeStep, holds]
    by_cases long : minChunk ≤ sentence.text.length
    · simp only [if_pos long]
      obtain ⟨groups', flushed⟩ := progress.flush sequential.of_append.1
      have free : (flushBuffer minChunk true state).buffer = none := flushed.holds
      have started := flushed.start long measured
      rw [← free] at started
      exact ⟨_, none, started⟩
    · simp only [if_neg long]
      have short : ∀ other ∈ (held.append (Cluster.single sentence)).items,
          other.text.length < minChunk := by
        intro other member
        rw [Cluster.items_append, Cluster.items_single] at member
        rcases mem_append.1 member with old | new
        · exact buffered.short other old
        · rw [mem_singleton.1 new]
          omega
      have extent : spanOf (held.append (Cluster.single sentence)) =
          (held.first.start, sentence.stop) := by
        simp [spanOf, hull]
      have parts : ungroup (groups ++ [held.append (Cluster.single sentence)]) =
          done ++ [sentence] := by
        rw [← progress.parts]
        simp
      by_cases enough : minChunk ≤ sentence.stop - held.first.start
      · simp only [if_pos enough]
        have flushed : flushBuffer minChunk false
            { state with buffer := some (held.first.start, sentence.stop) } =
              ⟨state.spans ++ [(held.first.start, sentence.stop)], none⟩ := by
          simp only [flushBuffer]
          split <;> simp
        rw [flushed]
        exact ⟨groups ++ [held.append (Cluster.single sentence)], none,
          { parts := by simpa using parts
            spans := by simp [progress.spans, extent]
            holds := rfl
            chunked := progress.chunked.snoc (fun _ => by
                rw [extent]
                exact enough)
              (fun other member => short other (mem_cons_of_mem _ member))
            buffered := by simp }⟩
      · simp only [if_neg enough]
        exact ⟨groups, some (held.append (Cluster.single sentence)),
          { parts := parts
            spans := progress.spans
            holds := by rw [Option.map_some, extent]
            chunked := progress.chunked
            buffered := by
              intro other isHeld
              obtain rfl := Option.some.inj isHeld
              refine ⟨short, ?_⟩
              rw [extent]
              exact not_le.1 enough }⟩

theorem Progress.run {rest : List Sentence} (progress : Progress minChunk done state groups buffer)
    (sequential : Sequential Sentence.start Sentence.stop (done ++ rest))
    (measured : TextsMeasured rest) :
    ∃ groups' buffer', Progress minChunk (done ++ rest)
      (rest.foldl (mergeStep minChunk) state) groups' buffer' := by
  induction rest generalizing done state groups buffer with
  | nil => exact ⟨groups, buffer, by simpa using progress⟩
  | cons sentence rest induction =>
    rw [← singleton_append, ← append_assoc] at sequential ⊢
    obtain ⟨groups', buffer', stepped⟩ := progress.step sequential.of_append.1
      (measured sentence mem_cons_self)
    exact induction stepped sequential
      (fun later member => measured later (mem_cons_of_mem _ member))

theorem mergeSmallSentencesToSpans_groups (minChunk : ℤ) (passage : Text)
    (ordered : SentencesOrdered sentences) (measured : TextsMeasured sentences) :
    ∃ groups, ungroup groups = sentences ∧ Chunked minChunk groups ∧
      mergeSmallSentencesToSpans passage sentences minChunk = groups.map spanOf := by
  rw [mergeSmallSentencesToSpans, filterOrderedSentenceSpans_of_ordered ordered]
  by_cases empty : sentences = []
  · subst empty
    exact ⟨[], rfl, ⟨by simp, by simp⟩, rfl⟩
  have begun : Progress minChunk [] ⟨[], none⟩ [] none :=
    { parts := rfl
      spans := rfl
      holds := rfl
      chunked := ⟨by simp, by simp⟩
      buffered := by simp }
  obtain ⟨groups, buffer, looped⟩ := begun.run
    (show Sequential _ _ ([] ++ sentences) from ordered.sequential) measured
  simp only [if_neg empty]
  cases buffer with
  | none =>
    have free : (sentences.foldl (mergeStep minChunk) ⟨[], none⟩).buffer = none :=
      looped.holds
    refine ⟨groups, by simpa using looped.parts, looped.chunked, ?_⟩
    rw [flushBuffer, free]
    exact looped.spans
  | some held =>
    obtain ⟨groups', flushed⟩ := looped.flush ordered.sequential
    exact ⟨groups', by simpa using flushed.parts, flushed.chunked, flushed.spans⟩

/-- What the spans of a passage's chunks are to its sentences. -/
structure SpansCover (minChunk : ℤ) (sentences : List Sentence) (spans : List (ℤ × ℤ)) : Prop where
  forward : ∀ span ∈ spans, span.1 ≤ span.2
  apart : spans.Pairwise fun span later => span.2 ≤ later.1
  covered : ∀ sentence ∈ sentences,
    ∃ span ∈ spans, Inside Sentence.start Sentence.stop sentence span
  once : ∀ sentence ∈ sentences, sentence.text ≠ [] →
    spans.countP (Inside Sentence.start Sentence.stop sentence ·) = 1
  starts : ∀ span ∈ spans, ∃ sentence ∈ sentences, sentence.start = span.1
  stops : ∀ span ∈ spans, ∃ sentence ∈ sentences, sentence.stop = span.2
  large : ∀ span ∈ spans.tail, minChunk ≤ spanLength span
  longFirst : ∀ sentence ∈ sentences, minChunk ≤ sentence.text.length →
    ∀ span ∈ spans, Inside Sentence.start Sentence.stop sentence span → span.1 = sentence.start

theorem SpansCover.of_groups (positive : 1 ≤ minChunk) (measured : TextsMeasured sentences)
    (sequential : Sequential Sentence.start Sentence.stop sentences)
    (parts : ungroup groups = sentences) (chunked : Chunked minChunk groups) :
    SpansCover minChunk sentences (groups.map spanOf) := by
  subst parts
  have once : ∀ sentence ∈ ungroup groups, sentence.text ≠ [] →
      (groups.map spanOf).countP (Inside Sentence.start Sentence.stop sentence ·) = 1 := by
    intro sentence member notEmpty
    have length := measured sentence member
    have some := length_pos_of_ne_nil notEmpty
    exact countP_inside sequential (by omega) member
  refine
    { forward := ?_, apart := sequential.hulls, covered := ?_, once := once
      starts := ?_, stops := ?_, large := ?_, longFirst := ?_ }
  · intro span mapped
    obtain ⟨group, member, rfl⟩ := mem_map.1 mapped
    exact hull_forward (sequential.of_mem member)
  · intro sentence member
    obtain ⟨group, here, inGroup⟩ := mem_ungroup.1 member
    exact ⟨spanOf group, mem_map_of_mem here, inside_hull (sequential.of_mem here) inGroup⟩
  · intro span mapped
    obtain ⟨group, member, rfl⟩ := mem_map.1 mapped
    exact ⟨group.first, mem_ungroup.2 ⟨group, member, group.first_mem⟩, rfl⟩
  · intro span mapped
    obtain ⟨group, member, rfl⟩ := mem_map.1 mapped
    exact ⟨group.last, mem_ungroup.2 ⟨group, member, group.last_mem⟩, rfl⟩
  · intro span mapped
    rw [← map_tail] at mapped
    obtain ⟨group, member, rfl⟩ := mem_map.1 mapped
    exact chunked.large group member
  · intro sentence member long span mapped inside
    have notEmpty : sentence.text ≠ [] := by
      intro empty
      rw [empty, length_nil] at long
      omega
    obtain ⟨group, here, inGroup⟩ := mem_ungroup.1 member
    -- A sentence of this size stands first in its group, and in no other hull.
    have isFirst : sentence = group.first := by
      rcases mem_cons.1 inGroup with first | inRest
      · exact first
      · exact absurd (chunked.short group here sentence inRest) (not_lt.2 long)
    have same : span = spanOf group := by
      have single := once sentence member notEmpty
      rw [countP_eq_length_filter] at single
      obtain ⟨only, isOnly⟩ := length_eq_one_iff.1 single
      have spanIn : span ∈ [only] := isOnly ▸ mem_filter.2 ⟨mapped, decide_eq_true inside⟩
      have ownIn : spanOf group ∈ [only] := isOnly ▸ mem_filter.2 ⟨mem_map_of_mem here,
          decide_eq_true (inside_hull (sequential.of_mem here) inGroup)⟩
      rw [mem_singleton.1 spanIn, mem_singleton.1 ownIn]
    rw [same, isFirst]
    rfl

/-- The chunks of a passage cover its sentences, each large enough but
possibly the first. -/
theorem mergeSmallSentencesToSpans_cover (passage : Text) {sentences : List Sentence}
    (positive : 1 ≤ minChunk) (ordered : SentencesOrdered sentences)
    (measured : TextsMeasured sentences) :
    SpansCover minChunk sentences (mergeSmallSentencesToSpans passage sentences minChunk) := by
  obtain ⟨groups, parts, chunked, spans⟩ :=
    mergeSmallSentencesToSpans_groups minChunk passage ordered measured
  rw [spans]
  exact SpansCover.of_groups positive measured ordered.sequential parts chunked

/-- A short sentence, an empty one and a long one. -/
theorem mergeSmallSentencesToSpans_cover_three :
    SpansCover 3 [⟨0, 2, "a.".toList⟩, ⟨3, 3, []⟩, ⟨3, 6, "bb.".toList⟩]
      (mergeSmallSentencesToSpans "a. bb.".toList
        [⟨0, 2, "a.".toList⟩, ⟨3, 3, []⟩, ⟨3, 6, "bb.".toList⟩] 3) :=
  mergeSmallSentencesToSpans_cover _ (by decide)
    { fromZero := by decide
      sequential := ⟨by decide, by decide⟩ }
    (by unfold TextsMeasured; decide)

/-- An empty sentence between two chunks lies at the end of the one and at the
start of the other. -/
theorem emptySentence_insideTwo :
    SentencesOrdered [⟨0, 2, "a.".toList⟩, ⟨2, 2, []⟩, ⟨2, 4, "b.".toList⟩] ∧
      TextsMeasured [⟨0, 2, "a.".toList⟩, ⟨2, 2, []⟩, ⟨2, 4, "b.".toList⟩] ∧
      ¬ ∀ sentence ∈ [⟨0, 2, "a.".toList⟩, ⟨2, 2, []⟩, ⟨2, 4, "b.".toList⟩],
        (mergeSmallSentencesToSpans "a.b.".toList
          [⟨0, 2, "a.".toList⟩, ⟨2, 2, []⟩, ⟨2, 4, "b.".toList⟩] 2).countP
            (Inside Sentence.start Sentence.stop sentence ·) = 1 := by
  refine ⟨⟨by decide, ⟨by decide, by decide⟩⟩, ?_, ?_⟩
  · unfold TextsMeasured
    decide
  · intro single
    exact absurd (single ⟨2, 2, []⟩ (by decide)) (by decide)

end WriterAgent.Embeddings
