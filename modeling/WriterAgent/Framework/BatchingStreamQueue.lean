import WriterAgent.Foundations.Runs
import WriterAgent.Foundations.Segments
import WriterAgent.Foundations.Text

/-!
# Batching of display text

`plugin/framework/async_stream.py`: `BatchingStreamQueue` collects the CHUNK
and THINKING texts of a producer and passes them on joined, when a timer
fires, at an explicit flush, or before any other item.
-/

namespace WriterAgent.Framework

open PyText List

/-- An item of a stream queue, as the batcher looks at it.  The data of a
display item may be absent. -/
inductive StreamItem (β : Type*) where
  | chunk (data : Option Text)
  | thinking (data : Option Text)
  | boundary (item : β)
  deriving DecidableEq, Repr

/-- The two kinds of display text. -/
inductive Display where
  | content
  | thinking
  deriving DecidableEq, Repr

/-- The batcher with its raw queue; `timer` says that a timer is armed. -/
structure BatchingStreamQueue (β : Type*) where
  raw : List (StreamItem β)
  contentBuf : List Text
  thinkingBuf : List Text
  timer : Bool
  deriving DecidableEq, Repr

namespace BatchingStreamQueue

variable {β : Type*}

def init (raw : List (StreamItem β)) : BatchingStreamQueue β :=
  ⟨raw, [], [], false⟩

def cancelTimer (q : BatchingStreamQueue β) : BatchingStreamQueue β :=
  { q with timer := false }

def scheduleTimer (q : BatchingStreamQueue β) : BatchingStreamQueue β :=
  { q.cancelTimer with timer := true }

def rawPut (q : BatchingStreamQueue β) (item : StreamItem β) : BatchingStreamQueue β :=
  { q with raw := q.raw ++ [item] }

def emitContent (q : BatchingStreamQueue β) : BatchingStreamQueue β :=
  if q.contentBuf.isEmpty then q
  else { q.rawPut (.chunk (some q.contentBuf.flatten)) with contentBuf := [] }

def emitThinking (q : BatchingStreamQueue β) : BatchingStreamQueue β :=
  if q.thinkingBuf.isEmpty then q
  else
    { q.rawPut (.thinking (some q.thinkingBuf.flatten)) with thinkingBuf := [] }

def emitPendingLocked (q : BatchingStreamQueue β) : BatchingStreamQueue β :=
  q.emitContent.emitThinking.cancelTimer

def flush (q : BatchingStreamQueue β) : BatchingStreamQueue β :=
  q.emitPendingLocked

/-- `put`.  A display item is appended under the lock.  Any other item is put
after a flush, and `late` flushes of other threads may take the lock between
the two. -/
def put (q : BatchingStreamQueue β) (item : StreamItem β) (late : ℕ) : BatchingStreamQueue β :=
  match item with
  | .chunk data =>
    let isFirst := q.contentBuf.isEmpty
    let q := { q with contentBuf := q.contentBuf ++ [data.getD []] }
    if isFirst then q.scheduleTimer else q
  | .thinking data =>
    let isFirst := q.thinkingBuf.isEmpty
    let q := { q with thinkingBuf := q.thinkingBuf ++ [data.getD []] }
    if isFirst then q.scheduleTimer else q
  | .boundary item => (flush^[late] q.flush).rawPut (.boundary item)

/-- What can happen to a batcher: a call of `put`, an explicit `flush`, or a
timer that fires.  A timer can fire after it was cancelled. -/
inductive Call (β : Type*) where
  | put (item : StreamItem β) (late : ℕ)
  | flush
  | timerFlush
  deriving DecidableEq, Repr

def step (q : BatchingStreamQueue β) : Call β → BatchingStreamQueue β
  | .put item late => q.put item late
  | .flush => q.flush
  | .timerFlush => q.flush

def run (q : BatchingStreamQueue β) (calls : List (Call β)) : BatchingStreamQueue β :=
  calls.foldl step q

def puts (calls : List (Call β)) : List (StreamItem β) :=
  calls.filterMap fun
    | .put item _ => some item
    | _ => none

def piece : StreamItem β → Piece Display Char β
  | .chunk data => .text .content (data.getD [])
  | .thinking data => .text .thinking (data.getD [])
  | .boundary item => .mark item

def pieces (items : List (StreamItem β)) : List (Piece Display Char β) :=
  items.map piece

abbrev Cell (β : Type*) := (Display × Char) ⊕ β

def emitted (q : BatchingStreamQueue β) : List (Cell β) :=
  Piece.cells (pieces q.raw)

def buffered (kind : Display) (buffer : List Text) : List (Cell β) :=
  Piece.cellsOf (.text kind buffer.flatten)

def held (q : BatchingStreamQueue β) : List (Cell β) :=
  q.emitted ++ buffered .content q.contentBuf ++ buffered .thinking q.thinkingBuf

def settled (q : BatchingStreamQueue β) : List (Cell β) :=
  q.emitted ++ buffered .content q.contentBuf

@[simp] theorem buffered_nil (kind : Display) : buffered (β := β) kind [] = [] := rfl

theorem buffered_snoc (kind : Display) (buffer : List Text) (text : Text) :
    (buffered kind (buffer ++ [text]) : List (Cell β)) =
      buffered kind buffer ++ Piece.cellsOf (.text kind text) := by
  simp [buffered, Piece.cellsOf]

section

variable (q : BatchingStreamQueue β)

include q

theorem emitted_rawPut (item : StreamItem β) :
    (q.rawPut item).emitted = q.emitted ++ Piece.cellsOf (piece item) := by
  simp [emitted, rawPut, pieces]

theorem emitContent_spec : q.emitContent.emitted = q.settled ∧ q.emitContent.contentBuf = [] ∧
      q.emitContent.thinkingBuf = q.thinkingBuf := by
  cases buffer : q.contentBuf with
  | nil => simp [emitContent, settled, buffer]
  | cons text rest =>
    refine ⟨?_, ?_, ?_⟩
    · have onRaw := emitted_rawPut q (.chunk (some q.contentBuf.flatten))
      simpa [emitContent, settled, buffer, buffered, piece, emitted] using onRaw
    · simp [emitContent, buffer]
    · simp [emitContent, buffer, rawPut]

theorem emitThinking_spec : q.emitThinking.emitted = q.emitted ++ buffered .thinking q.thinkingBuf ∧
      q.emitThinking.contentBuf = q.contentBuf ∧
      q.emitThinking.thinkingBuf = [] := by
  cases buffer : q.thinkingBuf with
  | nil => simp [emitThinking, buffer]
  | cons text rest =>
    refine ⟨?_, ?_, ?_⟩
    · have onRaw := emitted_rawPut q (.thinking (some q.thinkingBuf.flatten))
      simpa [emitThinking, buffer, buffered, piece, emitted] using onRaw
    · simp [emitThinking, buffer, rawPut]
    · simp [emitThinking, buffer]

theorem flush_spec : q.flush.emitted = q.held ∧ q.flush.contentBuf = [] ∧
      q.flush.thinkingBuf = [] := by
  obtain ⟨content, contentGone, waiting⟩ := emitContent_spec q
  obtain ⟨thinking, stays, thinkingGone⟩ := emitThinking_spec q.emitContent
  refine ⟨?_, stays.trans contentGone, thinkingGone⟩
  calc q.flush.emitted = q.emitContent.emitThinking.emitted := rfl
    _ = q.held := by rw [thinking, content, waiting]; rfl

theorem held_flush : q.flush.held = q.held := by
  obtain ⟨onRaw, content, thinking⟩ := flush_spec q
  rw [held, content, thinking, onRaw, buffered_nil, buffered_nil, append_nil, append_nil]

theorem settled_flush : q.flush.settled = q.held := by
  obtain ⟨onRaw, content, thinking⟩ := flush_spec q
  rw [settled, content, onRaw, buffered_nil, append_nil]

theorem late_flush (late : ℕ) : (flush^[late] q.flush).emitted = q.held ∧
      (flush^[late] q.flush).contentBuf = [] ∧
      (flush^[late] q.flush).thinkingBuf = [] := by
  induction late with
  | zero => exact flush_spec q
  | succ late ih =>
    rw [Function.iterate_succ_apply']
    obtain ⟨onRaw, content, thinking⟩ := flush_spec (flush^[late] q.flush)
    refine ⟨?_, content, thinking⟩
    rw [onRaw, held, ih.1, ih.2.1, ih.2.2, buffered_nil, buffered_nil, append_nil, append_nil]

end

/-- No text of kind CHUNK is put while a text of kind THINKING waits. -/
def InOrder (q : BatchingStreamQueue β) (call : Call β) : Prop :=
  ∀ data late, call = .put (.chunk data) late → data.getD [] = [] ∨ q.thinkingBuf.flatten = []

def putCells (call : Call β) : List (Cell β) :=
  Piece.cells (pieces (puts [call]))

theorem puts_cells_cons (call : Call β) (rest : List (Call β)) :
    Piece.cells (pieces (puts (call :: rest))) =
      putCells call ++ Piece.cells (pieces (puts rest)) := by
  cases call with
  | put item late | flush | timerFlush => simp [putCells, puts, pieces]

theorem put_chunk_buffers (q : BatchingStreamQueue β) (data : Option Text) (late : ℕ) :
    (q.put (.chunk data) late).emitted = q.emitted ∧
      (q.put (.chunk data) late).contentBuf = q.contentBuf ++ [data.getD []] ∧
      (q.put (.chunk data) late).thinkingBuf = q.thinkingBuf := by
  by_cases isFirst : q.contentBuf.isEmpty = true
  · simp [put, isFirst, scheduleTimer, cancelTimer, emitted]
  · simp [put, isFirst, emitted]

theorem put_thinking_buffers (q : BatchingStreamQueue β) (data : Option Text) (late : ℕ) :
    (q.put (.thinking data) late).emitted = q.emitted ∧
      (q.put (.thinking data) late).contentBuf = q.contentBuf ∧
      (q.put (.thinking data) late).thinkingBuf = q.thinkingBuf ++ [data.getD []] := by
  by_cases isFirst : q.thinkingBuf.isEmpty = true
  · simp [put, isFirst, scheduleTimer, cancelTimer, emitted]
  · simp [put, isFirst, emitted]

theorem put_boundary_buffers (q : BatchingStreamQueue β) (item : β) (late : ℕ) :
    (q.put (.boundary item) late).emitted = q.held ++ [.inr item] ∧
      (q.put (.boundary item) late).contentBuf = [] ∧
      (q.put (.boundary item) late).thinkingBuf = [] := by
  obtain ⟨onRaw, content, thinking⟩ := late_flush q late
  refine ⟨?_, content, thinking⟩
  calc (q.put (.boundary item) late).emitted = (flush^[late] q.flush).emitted ++ [.inr item] := by
          rw [put, emitted_rawPut]; rfl
    _ = q.held ++ [.inr item] := by rw [onRaw]

theorem held_step {q : BatchingStreamQueue β} {call : Call β} (inOrder : InOrder q call) :
    (step q call).held = q.held ++ putCells call := by
  cases call with
  | flush | timerFlush => simpa [step, putCells, puts, pieces] using held_flush q
  | put item late =>
    cases item with
    | boundary item =>
      obtain ⟨onRaw, content, thinking⟩ := put_boundary_buffers q item late
      rw [step, held, onRaw, content, thinking]
      simp [putCells, puts, pieces, piece]
    | thinking data =>
      obtain ⟨onRaw, content, thinking⟩ :=
        put_thinking_buffers q data late
      rw [step, held, onRaw, content, thinking, buffered_snoc]
      simp [held, putCells, puts, pieces, piece]
    | chunk data =>
      obtain ⟨onRaw, content, thinking⟩ := put_chunk_buffers q data late
      rw [step, held, onRaw, content, thinking, buffered_snoc]
      rcases inOrder data late rfl with noText | noneWaits
      · simp [held, putCells, puts, pieces, piece, noText]
      · simp [held, putCells, puts, pieces, piece, buffered, noneWaits]

theorem settled_step (q : BatchingStreamQueue β) (call : Call β) :
    q.settled <+: (step q call).settled := by
  have inHeld : q.settled <+: q.held := prefix_append _ _
  cases call with
  | flush | timerFlush => rw [step, settled_flush]; exact inHeld
  | put item late =>
    cases item with
    | boundary item =>
      obtain ⟨onRaw, content, _⟩ := put_boundary_buffers q item late
      rw [step, settled.eq_1 (q.put _ _), onRaw, content, buffered_nil, append_nil]
      exact inHeld.trans (prefix_append _ _)
    | thinking data =>
      obtain ⟨onRaw, content, _⟩ := put_thinking_buffers q data late
      rw [step, settled.eq_1 (q.put _ _), onRaw, content]
      exact prefix_rfl
    | chunk data =>
      obtain ⟨onRaw, content, _⟩ := put_chunk_buffers q data late
      rw [step, settled.eq_1 (q.put _ _), onRaw, content, buffered_snoc, ← append_assoc]
      exact prefix_append _ _

theorem settled_run (q : BatchingStreamQueue β) (calls : List (Call β)) :
    q.settled <+: (run q calls).settled := by
  induction calls generalizing q with
  | nil => exact prefix_rfl
  | cons call rest ih => exact (settled_step q call).trans (ih (step q call))

theorem emitted_run_flush (q : BatchingStreamQueue β) (calls : List (Call β)) :
    (run q (calls ++ [.flush])).emitted = (run q calls).held := by
  rw [run, foldl_append]
  exact (flush_spec (run q calls)).1

theorem not_inOrder_moves {q : BatchingStreamQueue β} {call : Call β} (outOfOrder : ¬InOrder q call)
    (later : List (Cell β)) (same : (step q call).settled <+: q.held ++ later) : False := by
  simp only [InOrder, not_forall, not_or] at outOfOrder
  obtain ⟨data, late, rfl, someText, someWaits⟩ := outOfOrder
  obtain ⟨onRaw, content, _⟩ := put_chunk_buffers q data late
  rw [step, settled, onRaw, content, buffered_snoc, ← append_assoc,
    held, append_assoc (q.emitted ++ _),
    prefix_append_right_inj] at same
  cases newText : data.getD [] with
  | nil => exact someText newText
  | cons c _ =>
    cases waiting : q.thinkingBuf.flatten with
    | nil => exact someWaits waiting
    | cons d _ =>
      rw [newText, buffered, waiting] at same
      have first := (cons_prefix_cons.mp same).1
      cases first

theorem held_run_iff (q : BatchingStreamQueue β) (calls : List (Call β)) :
    (run q calls).held = q.held ++ Piece.cells (pieces (puts calls)) ↔
      Along step InOrder q calls := by
  induction calls generalizing q with
  | nil => simp [run, puts, pieces, Along]
  | cons call rest ih =>
    rw [puts_cells_cons]
    by_cases inOrder : InOrder q call
    · rw [← append_assoc, ← held_step inOrder]
      exact (ih (step q call)).trans (and_iff_right inOrder).symm
    · apply iff_of_false
      · intro same
        have onFront : (step q call).settled <+: (run q (call :: rest)).held :=
          (settled_run (step q call) rest).trans (prefix_append _ _)
        rw [same] at onFront
        exact not_inOrder_moves inOrder _ onFront
      · exact fun along => inOrder along.1

/-- **Batching.** A run that ends with a flush passes the texts on in the
order they were put exactly when no content is put while thinking waits. -/
theorem joined_raw_iff (calls : List (Call β)) :
    Piece.joined (pieces (run (init []) (calls ++ [.flush])).raw) =
        Piece.joined (pieces (puts calls)) ↔
      Along step InOrder (init []) calls := by
  rw [Piece.joined_eq_iff]
  have final := emitted_run_flush (init []) calls
  rw [emitted] at final
  rw [final]
  exact held_run_iff (init []) calls

/-- A thought and then content within one burst come out the other way. -/
theorem joined_raw_swapped :
    Piece.joined (pieces (run (init ([] : List (StreamItem Unit)))
        [.put (.thinking (some ['a'])) 0, .put (.chunk (some ['b'])) 0, .flush]).raw) =
      [.text .content ['b'], .text .thinking ['a']] ∧
    Piece.joined (pieces (puts ([.put (.thinking (some ['a'])) 0,
          .put (.chunk (some ['b'])) 0, .flush] : List (Call Unit)))) =
      [.text .thinking ['a'], .text .content ['b']] := by
  decide

end BatchingStreamQueue

end WriterAgent.Framework
