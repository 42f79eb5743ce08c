import WriterAgent.Foundations.TagModes
import WriterAgent.Foundations.Text

/-!
# Think tags in a stream of chunks

`plugin/framework/client/stream_normalizer.py`: `ThinkTagStreamSplitter` reads
the content of an answer in chunks and tells what stands between `<think>` and
`</think>` from the rest.
-/

namespace WriterAgent.Framework

open PyText List

/-- The tag looked for: the closing one while `in_thinking`. -/
def tagOf (inThinking : Bool) : Text :=
  if inThinking then "</think>".toList else "<think>".toList

def thinkModes : TagModes Bool Char where
  tag := tagOf
  next := (! ·)
  tag_ne_nil := by decide

variable {inThinking : Bool} {text : Text}

theorem tagOf_length_pos (inThinking : Bool) : 0 < (tagOf inThinking).length := by
  revert inThinking
  decide

structure ThinkTagStreamSplitter where
  inThinking : Bool
  buf : Text
  deriving DecidableEq, Repr

namespace ThinkTagStreamSplitter

def init : ThinkTagStreamSplitter := ⟨false, []⟩

/-- The loop of `feed` on the text that is left: the segments it returns and
the splitter it leaves. -/
def feedLoop (inThinking : Bool) (text : Text) : List (Bool × Text) × ThinkTagStreamSplitter :=
  if text.isEmpty then ([], ⟨inThinking, []⟩)
  else
    match findText (tagOf inThinking) text with
    | some idx =>
      let later := feedLoop (!inThinking) (text.drop (idx + (tagOf inThinking).length))
      ((if idx > 0 then [(inThinking, text.take idx)] else []) ++ later.1, later.2)
    | none =>
      -- the possible partial prefix of the tag at the end of the text
      let pLen := TagModes.heldBack (tagOf inThinking) text
        (min ((tagOf inThinking).length - 1) text.length)
      if pLen > 0 then
        (if text.length > pLen then
            [(inThinking, text.take (text.length - pLen))] else [],
          ⟨inThinking, text.drop (text.length - pLen)⟩)
      else ([(inThinking, text)], ⟨inThinking, []⟩)
  termination_by text.length
  decreasing_by
    rename_i nonempty
    have tagLength := tagOf_length_pos inThinking
    have textLength : 0 < text.length := by
      apply length_pos_of_ne_nil
      rintro rfl
      exact nonempty rfl
    rw [length_drop]
    omega

def feed (splitter : ThinkTagStreamSplitter) (chunk : Text) :
    List (Bool × Text) × ThinkTagStreamSplitter :=
  if chunk.isEmpty then ([], splitter)
  else
    let (results, splitter) :=
      feedLoop splitter.inThinking (splitter.buf ++ chunk)
    (results.filter fun result => !result.2.isEmpty, splitter)

def flush (splitter : ThinkTagStreamSplitter) : List (Bool × Text) × ThinkTagStreamSplitter :=
  if splitter.buf.isEmpty then ([], splitter)
  else ([(splitter.inThinking, splitter.buf)], { splitter with buf := [] })

/-- The segments of feeding the chunks in order and then flushing. -/
def segments (splitter : ThinkTagStreamSplitter) : List Text → List (Bool × Text)
  | [] => splitter.flush.1
  | chunk :: rest =>
    let (results, splitter) := splitter.feed chunk
    results ++ segments splitter rest

open TagModes (tagged)

theorem tagged_append (front back : List (Bool × Text)) :
    tagged (front ++ back) = tagged front ++ tagged back := by
  simp [tagged]

theorem tagged_filter (results : List (Bool × Text)) :
    tagged (results.filter fun result => !result.2.isEmpty) = tagged results := by
  induction results with
  | nil => rfl
  | cons result rest ih =>
    obtain ⟨flag, text⟩ := result
    cases text with
    | nil | cons => simpa [tagged] using ih

/-- What the splitter holds back begins the tag it looks for. -/
def HoldsTag (splitter : ThinkTagStreamSplitter) : Prop :=
  splitter.buf <+: tagOf splitter.inThinking

/-- What a splitter reads next: its segments so far and what it holds back
stand for the text it has read. -/
structure Reads (inThinking : Bool) (text : Text)
    (answer : List (Bool × Text) × ThinkTagStreamSplitter) : Prop where
  short : answer.2.buf.length < (tagOf answer.2.inThinking).length
  same : ∀ later, tagged answer.1 ++ thinkModes.scan answer.2.inThinking 0 (answer.2.buf ++ later) =
    thinkModes.scan inThinking 0 (text ++ later)

theorem scan_found {idx : ℕ} (found : findText (tagOf inThinking) text = some idx) (later : Text) :
    thinkModes.scan inThinking 0 (text ++ later) =
      (text.take idx).map (inThinking, ·) ++ thinkModes.scan (!inThinking) 0
          (text.drop (idx + (tagOf inThinking).length) ++ later) := by
  obtain ⟨⟨rest, tagThenRest⟩, notBefore⟩ := findText_eq_some found
  have restIs : text.drop (idx + (tagOf inThinking).length) = rest := by
    rw [← drop_drop, ← tagThenRest, drop_left]
  have clear : ∀ j < (text.take idx).length, ¬thinkModes.tag inThinking <+:
        (text.take idx).drop j ++ (tagOf inThinking ++ (rest ++ later)) := by
    intro j below occurs
    rw [length_take] at below
    apply notBefore j (by omega)
    have whole : text.drop j = (text.take idx).drop j ++ (tagOf inThinking ++ rest) := by
      rw [tagThenRest, ← drop_append_of_le_length (by rw [length_take]; omega), take_append_drop]
    rw [whole]
    refine prefix_of_prefix_length_le occurs ⟨later, by simp only [append_assoc]⟩ ?_
    simp only [length_append]
    exact Nat.le_trans (Nat.le_add_right _ rest.length) (Nat.le_add_left _ _)
  calc thinkModes.scan inThinking 0 (text ++ later) = thinkModes.scan inThinking 0
          (text.take idx ++ (tagOf inThinking ++ (rest ++ later))) := by
        rw [← append_assoc (tagOf inThinking), tagThenRest, ← append_assoc, take_append_drop]
    _ = (text.take idx).map (inThinking, ·) ++ thinkModes.scan inThinking 0
            (tagOf inThinking ++ (rest ++ later)) :=
        thinkModes.scan_append inThinking clear
    _ = _ := by
        rw [restIs]
        exact congrArg _ (thinkModes.scan_tag inThinking (rest ++ later))

theorem scan_notFound {pLen : ℕ} (notFound : findText (tagOf inThinking) text = none)
    (held : TagModes.heldBack (tagOf inThinking) text
      (min ((tagOf inThinking).length - 1) text.length) = pLen) (later : Text) :
    thinkModes.scan inThinking 0 (text ++ later) =
      (text.take (text.length - pLen)).map (inThinking, ·) ++ thinkModes.scan inThinking 0
          (text.drop (text.length - pLen) ++ later) := by
  have clear : ∀ j < (text.take (text.length - pLen)).length,
      ¬thinkModes.tag inThinking <+: (text.take (text.length - pLen)).drop j ++
          (text.drop (text.length - pLen) ++ later) := by
    intro j below
    rw [length_take] at below
    rw [← append_assoc, ← drop_append_of_le_length (by rw [length_take]; omega), take_append_drop]
    exact TagModes.release_clear later notFound j (by omega)
  rw [← thinkModes.scan_append inThinking clear, ← append_assoc, take_append_drop]

theorem feedLoop_reads (inThinking : Bool) (text : Text) :
    Reads inThinking text (feedLoop inThinking text) ∧ (feedLoop inThinking text).2.HoldsTag := by
  induction inThinking, text using feedLoop.induct with
  | case1 inThinking text isEmpty =>
    rw [feedLoop, if_pos isEmpty]
    refine ⟨⟨tagOf_length_pos _, fun later => ?_⟩, nil_prefix⟩
    rw [isEmpty_iff.mp isEmpty]
    rfl
  | case2 inThinking text nonempty idx found ih =>
    rw [feedLoop, if_neg nonempty, found]
    refine ⟨⟨ih.1.short, fun later => ?_⟩, ih.2⟩
    have front : tagged (if idx > 0 then [(inThinking, text.take idx)]
        else []) = (text.take idx).map (inThinking, ·) := by
      cases idx with
      | zero => rfl
      | succ idx => simp [tagged]
    rw [scan_found found later, ← ih.1.same later, tagged_append, front, append_assoc]
  | case3 inThinking text nonempty notFound pLen partialMatch =>
    have held : TagModes.heldBack (tagOf inThinking) text
      (min ((tagOf inThinking).length - 1) text.length) = pLen := rfl
    have bounded : pLen ≤ min ((tagOf inThinking).length - 1) text.length :=
      TagModes.heldBack_le _ _ _
    rw [feedLoop, if_neg nonempty, notFound]
    rw [held, if_pos partialMatch]
    refine ⟨⟨?_, ?_⟩, held ▸ TagModes.heldBack_begins _ _ _⟩
    · show (text.drop (text.length - pLen)).length < (tagOf inThinking).length
      rw [length_drop]
      omega
    · intro later
      rw [scan_notFound notFound held later]
      by_cases released : text.length > pLen
      · rw [if_pos released]
        simp [tagged]
      · have allHeld : text.length - pLen = 0 := by omega
        rw [if_neg released, allHeld]
        rfl
  | case4 inThinking text nonempty notFound pLen noMatch =>
    have held : TagModes.heldBack (tagOf inThinking) text
      (min ((tagOf inThinking).length - 1) text.length) = pLen := rfl
    have nothingHeld : pLen = 0 := by omega
    rw [feedLoop, if_neg nonempty, notFound]
    rw [if_neg noMatch]
    refine ⟨⟨tagOf_length_pos _, fun later => ?_⟩, nil_prefix⟩
    rw [scan_notFound notFound held later, nothingHeld, Nat.sub_zero, take_length]
    simp [tagged]

theorem feed_reads (splitter : ThinkTagStreamSplitter) (chunk : Text)
    (short : splitter.buf.length < (tagOf splitter.inThinking).length) :
    Reads splitter.inThinking (splitter.buf ++ chunk) (splitter.feed chunk) := by
  cases chunk with
  | nil =>
    refine ⟨short, fun later => ?_⟩
    rw [append_nil]
    rfl
  | cons c chunk =>
    have reads := (feedLoop_reads splitter.inThinking (splitter.buf ++ c :: chunk)).1
    refine ⟨reads.short, fun later => ?_⟩
    rw [← reads.same later]
    exact congrArg (· ++ _) (tagged_filter _)

theorem flush_reads (splitter : ThinkTagStreamSplitter)
    (short : splitter.buf.length < (tagOf splitter.inThinking).length) :
    tagged splitter.flush.1 = thinkModes.scan splitter.inThinking 0 splitter.buf := by
  have absent : ¬tagOf splitter.inThinking <:+: splitter.buf := by
    intro occurs
    have := occurs.length_le
    omega
  rw [thinkModes.scan_of_not_infix splitter.inThinking absent]
  cases buffer : splitter.buf with
  | nil | cons c rest => simp [flush, buffer, tagged]

theorem segments_reads (splitter : ThinkTagStreamSplitter)
    (short : splitter.buf.length < (tagOf splitter.inThinking).length) (chunks : List Text) :
    tagged (segments splitter chunks) = thinkModes.scan splitter.inThinking 0
        (splitter.buf ++ chunks.flatten) := by
  induction chunks generalizing splitter with
  | nil => simpa [segments] using flush_reads splitter short
  | cons chunk rest ih =>
    have reads := feed_reads splitter chunk short
    rw [segments, tagged_append, ih (splitter.feed chunk).2 reads.short,
      reads.same, flatten_cons, append_assoc]

def pieces (segments : List (Bool × Text)) : List (Piece Bool Char Empty) :=
  segments.map fun segment => .text segment.1 segment.2

theorem cells_pieces (segments : List (Bool × Text)) :
    Piece.cells (pieces segments) = (tagged segments).map .inl := by
  induction segments with
  | nil => rfl
  | cons segment rest ih =>
    have cons : tagged (segment :: rest) = segment.2.map (segment.1, ·) ++ tagged rest := rfl
    rw [cons, map_append, ← ih, map_map]
    rfl

theorem joined_pieces_eq {left right : List (Bool × Text)} (same : tagged left = tagged right) :
    Piece.joined (pieces left) = Piece.joined (pieces right) := by
  rw [Piece.joined_eq_iff, cells_pieces, cells_pieces, same]

/-- **Fragmentation.** However a text is cut, the joined segments are those
of the whole text, and they are what stands between its tags. -/
theorem segments_fragmentation (chunks : List Text) : Piece.joined (pieces (segments init chunks)) =
        Piece.joined (pieces (segments init [chunks.flatten])) ∧
      (∃ parts, thinkModes.Parted false chunks.flatten parts) ∧
      ∀ parts, thinkModes.Parted false chunks.flatten parts →
        Piece.joined (pieces (segments init chunks)) = Piece.joined (pieces parts) := by
  have reads := segments_reads init (tagOf_length_pos false)
  refine ⟨joined_pieces_eq ?_, thinkModes.exists_parted false _, ?_⟩
  · rw [reads chunks, reads [chunks.flatten], flatten_singleton]
  · intro parts parted
    apply joined_pieces_eq
    rw [reads chunks, parted.tagged_eq]
    rfl

/-- The segments of feeding the chunks in order, and the splitter behind them. -/
def feeds (splitter : ThinkTagStreamSplitter) :
    List Text → List (Bool × Text) × ThinkTagStreamSplitter
  | [] => ([], splitter)
  | chunk :: rest =>
    let later := feeds (splitter.feed chunk).2 rest
    ((splitter.feed chunk).1 ++ later.1, later.2)

theorem feeds_reads (splitter : ThinkTagStreamSplitter)
    (short : splitter.buf.length < (tagOf splitter.inThinking).length)
    (holds : splitter.HoldsTag) (chunks : List Text) :
    (feeds splitter chunks).2.HoldsTag ∧
      Reads splitter.inThinking (splitter.buf ++ chunks.flatten) (feeds splitter chunks) := by
  induction chunks generalizing splitter with
  | nil => exact ⟨holds, short, fun later => by rw [flatten_nil, append_nil]; rfl⟩
  | cons chunk rest ih =>
    have reads := feed_reads splitter chunk short
    have stillHolds : (splitter.feed chunk).2.HoldsTag := by
      cases chunk with
      | nil => exact holds
      | cons c chunk => exact (feedLoop_reads _ _).2
    obtain ⟨holdsLast, last⟩ := ih (splitter.feed chunk).2 reads.short stillHolds
    refine ⟨holdsLast, last.short, fun later => ?_⟩
    rw [feeds, tagged_append, append_assoc, last.same, append_assoc, reads.same, flatten_cons]
    simp only [append_assoc]

/-- **Promptness.** At every moment of a stream, what was delivered and what is
held back are what stands between the tags of the text so far, and only a proper
beginning of the tag looked for is held back. -/
theorem feeds_prompt (chunks : List Text) :
    let behind := (feeds init chunks).2
    behind.buf <+: tagOf behind.inThinking ∧ behind.buf ≠ tagOf behind.inThinking ∧
      ∀ parts, thinkModes.Parted false chunks.flatten parts →
        tagged (feeds init chunks).1 ++ behind.buf.map (behind.inThinking, ·) = tagged parts := by
  intro behind
  obtain ⟨holds, reads⟩ := feeds_reads init (tagOf_length_pos false) nil_prefix chunks
  refine ⟨holds, fun whole => absurd (congrArg length whole) reads.short.ne, ?_⟩
  intro parts parted
  have absent : ¬thinkModes.tag (feeds init chunks).2.inThinking <:+: (feeds init chunks).2.buf :=
    fun occurs => absurd occurs.length_le (not_le.mpr reads.short)
  have same := reads.same []
  rw [append_nil, append_nil, thinkModes.scan_of_not_infix _ absent] at same
  rw [parted.tagged_eq]
  exact same

end ThinkTagStreamSplitter

end WriterAgent.Framework
